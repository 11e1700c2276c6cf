import PartProgram.Proofs.CommandLine.Execution

/-! # Programs kept

After a merge that ends with zero every program stands where it was put, unless two of
them were put into one file, or one into the file of a fragment. The latter happens only
if a link on the way is too far down to be looked up.
-/
namespace PartProgram

open PartProgram.Action FileTree Command
open Text (Bytes)

variable {t t' made merged : FileTree} {s : Settings} {batch done : Disk.Batch}
  {directory target : Path} {suffix : Text} {place file : Place} {names : List Text}
  {ws : List (Place × Bytes)} {b : Text × List Path} {p : Path} {c : Bytes} {R : Place → Prop}

namespace Disk

/-- No program goes where a fragment leads. -/
def Separate (t : FileTree) (batch : Batch) (directory : Path) (extension : Text) : Prop :=
  ∀ b ∈ batch, ∀ place, t.walk .content (outputPath directory extension b.1) = .ok place →
    ∀ q ∈ batch.flatMap Prod.snd, t.walk .content q ≠ .ok place

theorem MergesAll.plain (h : MergesAll s target suffix t batch ws) :
    ∀ b ∈ batch, (outputPath target suffix b.1).holdsNull = false := by
  induction h with
  | nil => simp
  | cons hb _ ih => exact List.forall_mem_cons.mpr ⟨hb.plain, ih⟩

section
variable (h : Ran s batch target suffix t merged made done ws)
include h

/-- A program is read where it was put, with the last content that was put there. -/
theorem Ran.holdsFile (hb : b ∈ done) :
    ∃ place c, made.walk .content (outputPath target suffix b.1) = .ok place ∧
      ws.reverse.lookup place = some c ∧
      merged.HoldsFile (outputPath target suffix b.1) place c := by
  obtain ⟨w, hw, hwalk⟩ := exists_mem_of_forall₂ h.walks hb
  cases hlookup : ws.reverse.lookup w.1 with
  | none =>
    have hne := List.lookup_eq_none_iff.mp hlookup w (List.mem_reverse.mpr hw)
    simp at hne
  | some c =>
    refine ⟨w.1, c, hwalk, hlookup, h.merges.plain b hb, h.fills.keepsWays.1.walk hwalk, ?_⟩
    rw [h.node?_eq, hlookup]
    rfl

/-- If all is in sight, programs and fragments are separate. -/
theorem Ran.separate (hdone : done = batch)
    (hsight : ∀ b ∈ batch, t.InSight (outputPath target suffix b.1) ∧ ∀ p ∈ b.2, t.InSight p) :
    Separate made batch target suffix := by
  have hk := h.makes.adds.keepsWays.sameLinks
  intro b hb place hplace q hq hwalk
  obtain ⟨b', hb', hq⟩ := List.mem_flatMap.mp hq
  obtain ⟨r, hr, hfragments⟩ := h.apart (hdone ▸ List.ne_nil_of_mem hb) b hb
  obtain ⟨r', hr', hne⟩ := hfragments b' hb' q hq
  -- both would be resolved to the one place, and the check has passed
  apply hne
  rw [(hk.inSight (hsight b hb).1).resolve_eq hplace hr.2,
    (hk.inSight ((hsight b' hb').2 q hq)).resolve_eq hwalk hr'.2]

end

/-- Programs that are separate from the fragments are made of the fragments as they were. -/
theorem MergesAll.bytes {u : FileTree} (h : MergesAll s target suffix u done ws)
    (hg : made.Grounded) (hfills : Fills (Written made batch target suffix) made u)
    (hdone : ∀ b ∈ done, b ∈ batch) (hseparate : Separate made batch target suffix)
    (hfiles : ∀ p ∈ batch.flatMap Prod.snd, ∃ q c, made.HoldsFile p q c) :
    List.Forall₂ (fun b w => mergedBytes s made b.2 = .ok w.2) done ws := by
  induction h with
  | nil => exact .nil
  | @cons u b rest w ws hb _ ih =>
    obtain ⟨-, hput⟩ := hb.fills hg hfills fun hwalk => ⟨b, hdone b List.mem_cons_self, hwalk⟩
    refine .cons (mergedBytes_keeps (fun p hp q c hq => ?_) hb.bytes)
      (ih hput fun b hb => hdone b (List.mem_cons_of_mem _ hb))
    -- the fragment holds what it held: no program goes where it leads
    have hmem := List.mem_flatMap.mpr ⟨b, hdone b List.mem_cons_self, hp⟩
    obtain ⟨q', c', hfile⟩ := hfiles p hmem
    have hsame : u.HoldsFile p q' c' := by
      refine ⟨hfile.plain, hfills.keepsWays.1.walk hfile.walk, ?_⟩
      rw [hfills.node_eq, hfile.node]
      rintro ⟨b', hb', hwalk⟩
      exact hseparate b' hb' q' hwalk p hmem hfile.walk
    obtain ⟨rfl, rfl⟩ := hq.unique hsame
    exact hfile

end Disk

theorem mergedBytes_of_adds (hadds : AddsDirectories t made) {paths : List Path}
    (hfiles : ∀ p ∈ paths, ∃ q c, t.HoldsFile p q c) :
    Disk.mergedBytes s made paths = .ok c ↔ Disk.mergedBytes s t paths = .ok c := by
  have hkeeps : ∀ {p q c}, t.HoldsFile p q c → made.HoldsFile p q c :=
    fun h => ⟨h.plain, hadds.keepsWays.walk h.walk, hadds.node_eq h.node⟩
  constructor
  · refine Disk.mergedBytes_keeps fun p hp q c hq => ?_
    obtain ⟨q', c', hfile⟩ := hfiles p hp
    obtain ⟨rfl, rfl⟩ := hq.unique (hkeeps hfile)
    exact hfile
  · exact Disk.mergedBytes_keeps fun p hp q c hq => hkeeps hq

/-- Every program made of the fragments as they were is read where it was put, and what is gone is
nothing or, if that was asked for, the fragments. -/
structure KeepsPrograms (s : Settings) (t t' : FileTree) (programOf : Group → Path)
    (groups : List Group) (deletes : Bool) : Prop where
  programs : ∀ g ∈ groups, ∃ c, Disk.mergedBytes s t g.paths = .ok c ∧
    ((Disk.read (programOf g) : Action FileTree Bytes).run t').result = .ok c
  gone : ∀ q, (t.node? q ≠ none ∧ t'.node? q = none) ↔
    deletes = true ∧ ∃ g ∈ groups, ∃ p ∈ g.paths, t.walk .entry p = .ok q

def FragmentEntry (t : FileTree) (groups : List Group) (q : Place) : Prop :=
  ∃ g ∈ groups, ∃ p ∈ g.paths, t.walk .entry p = .ok q

theorem fragmentEntry_eq {groups : List Group}
    (h : t.Fragments directory place names ((batchOf groups).flatMap Prod.snd)) :
    FragmentEntry t groups = IsEntry place names := by
  rw [batchOf_sources] at h
  funext q
  refine propext ⟨?_, ?_⟩
  · rintro ⟨g, hg, p, hp, hwalk⟩
    obtain ⟨name, hname, rfl⟩ := List.mem_map.mp (h.paths_eq ▸ List.mem_flatMap.mpr ⟨g, hg, hp⟩)
    obtain ⟨file, c, he⟩ := h.entry name hname
    obtain rfl := Except.ok.inj (he.walk_entry.symm.trans hwalk)
    exact ⟨name, hname, rfl⟩
  · rintro ⟨name, hname, rfl⟩
    obtain ⟨file, c, he⟩ := h.entry name hname
    have hmem : directory.child name ∈ groups.flatMap Group.paths :=
      h.paths_eq ▸ List.mem_map_of_mem hname
    obtain ⟨g, hg, hp⟩ := List.mem_flatMap.mp hmem
    exact ⟨g, hg, _, hp, he.walk_entry⟩

/-- What a merge leaves that ends with zero: the outcome of the batch, without the fragments if they
are deleted. -/
def Leaves (t merged t' : FileTree) (groups : List Group) (deletes : Bool) : Prop :=
  if deletes then Removes (FragmentEntry t groups) merged t' else t' = merged

section
variable {groups : List Group} {deletes : Bool} {programOf : Group → Path}

theorem Leaves.read_iff (hl : Leaves t merged t' groups deletes) (h : merged.HoldsFile p file c)
    {d : Bytes} :
    ((Disk.read p : Action FileTree Bytes).run t').result = .ok d ↔
      d = c ∧ (deletes = true → Bypasses (FragmentEntry t groups) merged p file) := by
  rw [read_result]
  cases deletes with
  | true =>
    rw [Removes.read_iff hl h]
    simp
  | false =>
    obtain rfl : t' = merged := hl
    constructor
    · rintro ⟨q, hq⟩
      exact ⟨(hq.unique h).2, fun hd => nomatch hd⟩
    · rintro ⟨rfl, -⟩
      exact ⟨file, h⟩

theorem Leaves.gone_iff (hl : Leaves t merged t' groups deletes)
    (hran : Disk.Ran s batch target suffix t merged made done ws)
    (hfound : t.Fragments directory place names ((batchOf groups).flatMap Prod.snd)) (q : Place) :
    (t.node? q ≠ none ∧ t'.node? q = none) ↔ deletes = true ∧ FragmentEntry t groups q := by
  have hstays : t.node? q ≠ none → merged.node? q ≠ none := by
    intro hq
    obtain ⟨node, hnode⟩ := Option.ne_none_iff_exists'.mp hq
    rw [hran.node?_eq, hran.makes.adds.node_eq hnode]
    simp
  cases deletes with
  | false =>
    obtain rfl : t' = merged := hl
    simpa using hstays
  | true =>
    have hr : Removes (FragmentEntry t groups) merged t' := hl
    constructor
    · rintro ⟨hq, hgone⟩
      refine ⟨rfl, ?_⟩
      by_contra hnot
      exact hstays hq ((hr.kept q hnot).symm.trans hgone)
    · rintro ⟨-, hq⟩
      refine ⟨?_, hr.gone q hq⟩
      rw [fragmentEntry_eq hfound] at hq
      obtain ⟨name, hname, rfl⟩ := hq
      obtain ⟨file, c, he⟩ := hfound.entry name hname
      obtain ⟨node, hnode, -⟩ := he.node
      simp [hnode]

/-- What is put at last where the program of a group goes is made of the fragments of the group as
they were, and is not taken away with them. -/
def Stays (s : Settings) (t made merged : FileTree) (ws : List (Place × Bytes))
    (programOf : Group → Path) (groups : List Group) (deletes : Bool) (g : Group) : Prop :=
  ∃ place c, made.walk .content (programOf g) = .ok place ∧ ws.reverse.lookup place = some c ∧
    Disk.mergedBytes s t g.paths = .ok c ∧
    (deletes = true → Bypasses (FragmentEntry t groups) merged (programOf g) place)

/-- Programs that go to one place are the same. -/
def Agree (s : Settings) (t made : FileTree) (programOf : Group → Path) (groups : List Group) : Prop :=
  ∀ g ∈ groups, ∀ g' ∈ groups, ∀ place, made.walk .content (programOf g) = .ok place →
    made.walk .content (programOf g') = .ok place →
    Disk.mergedBytes s t g.paths = Disk.mergedBytes s t g'.paths

section
variable (hran : Disk.Ran s (batchOf groups) target suffix t merged made (batchOf groups) ws)
  (hfound : t.Fragments directory place names ((batchOf groups).flatMap Prod.snd))
include hran hfound

theorem keepsPrograms_iff (hl : Leaves t merged t' groups deletes) :
    KeepsPrograms s t t' (fun g => Disk.outputPath target suffix g.name) groups deletes ↔
      ∀ g ∈ groups,
        Stays s t made merged ws (fun g => Disk.outputPath target suffix g.name) groups deletes g := by
  have hread : ∀ g ∈ groups, ∃ place c,
      made.walk .content (Disk.outputPath target suffix g.name) = .ok place ∧
        ws.reverse.lookup place = some c ∧ ∀ d,
          ((Disk.read (Disk.outputPath target suffix g.name) :
            Action FileTree Bytes).run t').result = .ok d ↔
          d = c ∧ (deletes = true →
            Bypasses (FragmentEntry t groups) merged (Disk.outputPath target suffix g.name) place) := by
    intro g hg
    have hb : (g.name, g.paths) ∈ batchOf groups := List.mem_map_of_mem hg
    obtain ⟨place, c, hwalk, hlookup, hfile⟩ := hran.holdsFile hb
    exact ⟨place, c, hwalk, hlookup, fun d => hl.read_iff hfile⟩
  constructor
  · intro hkept g hg
    obtain ⟨place, c, hwalk, hlookup, hiff⟩ := hread g hg
    obtain ⟨d, hbytes, hd⟩ := hkept.programs g hg
    obtain ⟨rfl, hbypasses⟩ := (hiff d).mp hd
    exact ⟨place, d, hwalk, hlookup, hbytes, hbypasses⟩
  · refine fun hstays => ⟨fun g hg => ?_, hl.gone_iff hran hfound⟩
    obtain ⟨place, c, hwalk, hlookup, hiff⟩ := hread g hg
    obtain ⟨place', c', hwalk', hlookup', hbytes, hbypasses⟩ := hstays g hg
    obtain rfl := Except.ok.inj (hwalk.symm.trans hwalk')
    obtain rfl := Option.some.inj (hlookup.symm.trans hlookup')
    exact ⟨c, hbytes, (hiff c).mpr ⟨rfl, hbypasses⟩⟩

theorem Disk.Ran.exists_group (hseparate : Disk.Separate made (batchOf groups) target suffix)
    (hc : ws.reverse.lookup file = some c) :
    ∃ g ∈ groups, made.walk .content (Disk.outputPath target suffix g.name) = .ok file ∧
      Disk.mergedBytes s t g.paths = .ok c := by
  have hadds := hran.makes.adds
  have hbytes := hran.merges.bytes hran.grounded (.refl _ made) (fun _ => id) hseparate fun p hp => by
    obtain ⟨q, c, hfile⟩ := hfound.holdsFile hp
    exact ⟨q, c, hfile.plain, hadds.keepsWays.walk hfile.walk, hadds.node_eq hfile.node⟩
  have hboth := (hran.walks.mp (fun b w hwalk hbytes => And.intro hwalk hbytes) hbytes).flip
  obtain ⟨b, hb, hwalk, hmade⟩ := exists_mem_of_forall₂ hboth (List.mem_reverse.mp (mem_of_lookup hc))
  obtain ⟨g, hg, rfl⟩ := List.mem_map.mp hb
  refine ⟨g, hg, hwalk, (mergedBytes_of_adds hadds fun p hp => ?_).mp hmade⟩
  exact hfound.holdsFile (List.mem_flatMap.mpr ⟨_, hb, hp⟩)

theorem stays_iff_agree (hseparate : Disk.Separate made (batchOf groups) target suffix) :
    (∀ g ∈ groups,
        Stays s t made merged ws (fun g => Disk.outputPath target suffix g.name) groups deletes g) ↔
      Agree s t made (fun g => Disk.outputPath target suffix g.name) groups := by
  constructor
  · intro hstays g hg g' hg' place hplace hplace'
    obtain ⟨q, c, hwalk, hlookup, hbytes, -⟩ := hstays g hg
    obtain ⟨q', c', hwalk', hlookup', hbytes', -⟩ := hstays g' hg'
    obtain rfl := Except.ok.inj (hplace.symm.trans hwalk)
    obtain rfl := Except.ok.inj (hplace'.symm.trans hwalk')
    obtain rfl := Option.some.inj (hlookup.symm.trans hlookup')
    rw [hbytes, hbytes']
  · intro hagree g hg
    have hb : (g.name, g.paths) ∈ batchOf groups := List.mem_map_of_mem hg
    obtain ⟨q, c, hwalk, hlookup, hfile⟩ := hran.holdsFile hb
    -- what is there was put there for some group, whose program is the same
    obtain ⟨g', hg', hwalk', hbytes⟩ := hran.exists_group hfound hseparate hlookup
    refine ⟨q, c, hwalk, hlookup, (hagree g hg g' hg' q hwalk hwalk').trans hbytes, fun _ => ?_⟩
    rw [fragmentEntry_eq hfound]
    refine (hran.fragments hfound).bypasses hran.grounded_after hfile fun p hp hleads => ?_
    exact hseparate _ hb q hwalk p hp (hran.fills.keepsWays.2.walk hleads)

end

/-- A merge that ends with zero has merged every group that it found, and taken away the fragments if
that was asked for. -/
theorem Invocation.execute_leaves {log : LogChoice} {directory : Text} {output : Option Text}
    {extension : Option OptionValue} (ht : t.WellFormed)
    (h : (Invocation.execute s ⟨log, .merge directory output extension deletes⟩ :
      Action FileTree UInt32).Yields t 0 t')
    (hfind : (findFragments s directory extension).Yields t groups t) :
    ∃ merged made ws, Disk.Ran s (batchOf groups) (Path.ofText (targetOf directory output))
        (suffixOf s extension) t merged made (batchOf groups) ws ∧
      Leaves t merged t' groups deletes := by
  obtain ⟨-, place, names, hfound⟩ := findFragments_yields ht hfind
  obtain ⟨-, hmerge⟩ := (Invocation.execute_merge hfind).mp h
  split at hmerge
  · rename_i hempty
    obtain rfl := List.isEmpty_iff.mp hempty
    subst hmerge
    refine ⟨t', t', [], ⟨.refl _ t', ht.grounded, List.prefix_refl _, fun hne => absurd rfl hne,
      .nil _, rfl⟩, ?_⟩
    cases deletes with
    | false => rfl
    | true => exact ⟨rfl, fun q ⟨_, hg, _⟩ => absurd hg List.not_mem_nil, fun _ _ => rfl⟩
  · obtain ⟨sources, merged, hbatch, hdelete⟩ := mergeGroups_yields.mp hmerge
    obtain ⟨rfl, made, ws, hran⟩ := Disk.mergeBatch_yields ht.grounded hbatch
    refine ⟨merged, made, ws, hran, ?_⟩
    cases deletes with
    | false => exact hdelete
    | true =>
      obtain ⟨n, hn⟩ := hdelete
      obtain ⟨u, hu, hr⟩ :=
        Disk.deleteFragments_yields hran.grounded_after (hran.fragments hfound)
      obtain rfl := (hn.unique hu).2
      rwa [Leaves, if_pos rfl, fragmentEntry_eq hfound]

end

/-- A merge that ends with zero takes away nothing but the fragments, and keeps every program
exactly if what is put at last where it goes is this program, and is not taken away with them. Where
no program goes to a fragment this says that programs that go to one place are the same; and none
does if all of them are in sight. -/
theorem programs_kept_iff {log : LogChoice} {directory : Text} {output : Option Text}
    {extension : Option OptionValue} {deletes : Bool} (ht : t.WellFormed)
    (h : (Invocation.execute s ⟨log, .merge directory output extension deletes⟩ :
      Action FileTree UInt32).Yields t 0 t') :
    ∃ groups merged made ws, (findFragments s directory extension).Yields t groups t ∧
      Disk.Ran s (batchOf groups) (Path.ofText (targetOf directory output)) (suffixOf s extension) t
        merged made (batchOf groups) ws ∧
      (∀ q, (t.node? q ≠ none ∧ t'.node? q = none) ↔ deletes = true ∧ FragmentEntry t groups q) ∧
      (KeepsPrograms s t t' (programPath s directory output extension) groups deletes ↔
        ∀ g ∈ groups, Stays s t made merged ws (programPath s directory output extension) groups
          deletes g) ∧
      (Disk.Separate made (batchOf groups) (Path.ofText (targetOf directory output))
          (suffixOf s extension) →
        (KeepsPrograms s t t' (programPath s directory output extension) groups deletes ↔
          Agree s t made (programPath s directory output extension) groups)) ∧
      ((∀ g ∈ groups, t.InSight (programPath s directory output extension g) ∧
          ∀ p ∈ g.paths, t.InSight p) →
        Disk.Separate made (batchOf groups) (Path.ofText (targetOf directory output))
          (suffixOf s extension)) := by
  obtain ⟨groups, hfind⟩ := Invocation.exists_groups h
  obtain ⟨-, place, names, hfound⟩ := findFragments_yields ht hfind
  obtain ⟨merged, made, ws, hran, hl⟩ := Invocation.execute_leaves ht h hfind
  have hkeeps := keepsPrograms_iff hran hfound hl
  refine ⟨groups, merged, made, ws, hfind, hran, hl.gone_iff hran hfound, hkeeps,
    fun hseparate => ?_, fun hsight => ?_⟩
  · exact hkeeps.trans (stays_iff_agree hran hfound hseparate)
  · refine hran.separate rfl fun b hb => ?_
    obtain ⟨g, hg, rfl⟩ := List.mem_map.mp hb
    exact hsight g hg

/-- One fragment of each of two programs, and whatever else is there. -/
def twoPrograms (others : List (Place × Node)) : FileTree where
  entries :=
    (["A-0.nc".toList], .file (Text.encode "(A)\n(T1)\n\nN1 G0 E1\nN2 H1\n".toList)) ::
      (["B-0.nc".toList], .file (Text.encode "(B)\n(T2)\n\nN1 G0 E2\nN2 H2\n".toList)) :: others

def twoGroups : List Group :=
  [⟨"A".toList, [(0, Path.ofText "A-0.nc".toList)]⟩, ⟨"B".toList, [(0, Path.ofText "B-0.nc".toList)]⟩]

/-- The second program is led to the file of the first. -/
def linkedPrograms : FileTree := twoPrograms [(["B.nc".toList], .link "A.nc".toList)]

theorem findFragments_twoPrograms :
    (findFragments {} ".".toList none).Yields (twoPrograms []) twoGroups (twoPrograms []) := by
  have hnames : (Disk.children (Path.ofText ".".toList) : Action FileTree (List Text)).Yields
      (twoPrograms []) ["A-0.nc".toList, "B-0.nc".toList] (twoPrograms []) := ⟨by decide +kernel, rfl⟩
  exact Disk.findGroupsBy_of_sorted ⟨by decide +kernel, rfl⟩ hnames (by decide +kernel)
    ⟨by decide +kernel, rfl⟩

theorem findFragments_linkedPrograms :
    (findFragments {} ".".toList none).Yields linkedPrograms twoGroups linkedPrograms := by
  have hnames : (Disk.children (Path.ofText ".".toList) : Action FileTree (List Text)).Yields
      linkedPrograms ["A-0.nc".toList, "B-0.nc".toList, "B.nc".toList] linkedPrograms :=
    ⟨by decide +kernel, rfl⟩
  exact Disk.findGroupsBy_of_sorted ⟨by decide +kernel, rfl⟩ hnames (by decide +kernel)
    ⟨by decide +kernel, rfl⟩

/-- Both programs are kept when their fragments are deleted. -/
theorem programs_kept_sample :
    (twoPrograms []).WellFormed ∧
    ∃ t', (Invocation.execute {} ⟨{}, .merge ".".toList none none true⟩ :
        Action FileTree UInt32).Yields (twoPrograms []) 0 t' ∧
      ∃ groups, (findFragments {} ".".toList none).Yields (twoPrograms []) groups (twoPrograms []) ∧
        KeepsPrograms {} (twoPrograms []) t' (programPath {} ".".toList none none) groups true := by
  have ht : (twoPrograms []).WellFormed := by decide +kernel
  have h : (Invocation.execute {} ⟨{}, .merge ".".toList none none true⟩ :
      Action FileTree UInt32).Yields (twoPrograms []) 0 _ :=
    Invocation.execute_of_merge rfl findFragments_twoPrograms rfl (by decide +kernel)
  obtain ⟨groups, merged, made, ws, hfind, hran, -, -, hagree, hseparate⟩ := programs_kept_iff ht h
  obtain ⟨rfl, -⟩ := hfind.unique findFragments_twoPrograms
  have hsight : ∀ p, (twoPrograms []).InSight p := inSight_of_no_links (by simp [twoPrograms])
  refine ⟨ht, _, h, twoGroups, hfind,
    (hagree (hseparate fun g _ => ⟨hsight _, fun p _ => hsight p⟩)).mpr ?_⟩
  have hplace : ∀ g ∈ twoGroups,
      (twoPrograms []).walk .content (programPath {} ".".toList none none g) =
        .ok [g.name ++ ".nc".toList] := by decide +kernel
  have hname : ∀ g ∈ twoGroups, ∀ g' ∈ twoGroups, g.name = g'.name → g = g' := by decide +kernel
  intro g hg g' hg' place hwalk hwalk'
  have hk := hran.makes.adds.keepsWays
  have hsame := Except.ok.inj (hwalk.symm.trans (hk.walk (hplace g hg)))
  have hsame' := Except.ok.inj (hwalk'.symm.trans (hk.walk (hplace g' hg')))
  have heq := List.append_cancel_right (List.cons.inj (hsame.symm.trans hsame')).1
  rw [hname g hg g' hg' heq]

/-- Both programs are put into one file, and the first of them is lost. -/
theorem program_lost :
    linkedPrograms.WellFormed ∧
    ∃ t', (Invocation.execute {} ⟨{}, .merge ".".toList none none false⟩ :
        Action FileTree UInt32).Yields linkedPrograms 0 t' ∧
      ∃ groups, (findFragments {} ".".toList none).Yields linkedPrograms groups linkedPrograms ∧
        ¬ KeepsPrograms {} linkedPrograms t' (programPath {} ".".toList none none) groups false := by
  obtain ⟨hmerged, g, hg, hlost⟩ :
      ((mergeGroups {} twoGroups ".".toList ".nc".toList false :
        Action FileTree Unit).run linkedPrograms).result = .ok () ∧
      ∃ g ∈ twoGroups, Disk.mergedBytes {} linkedPrograms g.paths ≠
        ((Disk.read (programPath {} ".".toList none none g) : Action FileTree Bytes).run
          ((mergeGroups {} twoGroups ".".toList ".nc".toList false :
            Action FileTree Unit).run linkedPrograms).state).result := by decide +kernel
  refine ⟨by decide +kernel, _,
    Invocation.execute_of_merge rfl findFragments_linkedPrograms rfl hmerged, twoGroups,
    findFragments_linkedPrograms, fun hkept => ?_⟩
  obtain ⟨c, hbytes, hread⟩ := hkept.programs g hg
  exact hlost (hbytes.trans hread.symm)

end PartProgram
