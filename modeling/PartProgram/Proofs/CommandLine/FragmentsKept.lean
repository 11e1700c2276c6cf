import PartProgram.Proofs.Batch.Halted
import PartProgram.Proofs.CommandLine.Execution

/-! # Fragments kept

No batch writes over a fragment of its own that is in sight together with the programs,
and a merge that is refused has deleted none. What is written over a fragment was put
there through a link that is too far down to be looked up.
-/
namespace PartProgram

open PartProgram.Action FileTree Command
open Text (Bytes)

variable {t t' made : FileTree} {s : Settings} {batch done : Disk.Batch} {directory : Path}
  {extension : Text} {ws : List (Place × Bytes)} {place : Place} {c : Bytes}

/-- What a batch leaves at a place that a fragment points to, where `c` was: the same, unless
something else is put there at last. What is put there was overlooked. -/
structure KeepsFile (s : Settings) (batch : Disk.Batch) (directory : Path) (extension : Text)
    (t t' made : FileTree) (done : Disk.Batch) (ws : List (Place × Bytes)) (p : Path) (place : Place)
    (c : Bytes) : Prop where
  kept_iff : t'.node? place = some (.file c) ↔ ∀ d, ws.reverse.lookup place = some d → d = c
  overlooked : ∀ d, ws.reverse.lookup place = some d → ∃ b ∈ done,
    Disk.Overlooks made s.linkDepth (Disk.outputPath directory extension b.1) p place
  kept : (∀ b ∈ batch, t.InSight (Disk.outputPath directory extension b.1)) → t.InSight p →
    t'.node? place = some (.file c)

theorem Disk.Ran.keepsFile (h : Disk.Ran s batch directory extension t t' made done ws)
    {b : Text × List Path} (hb : b ∈ batch) {p : Path} (hp : p ∈ b.2)
    (hplace : Disk.PointsTo t s.linkDepth p place) (hc : t.node? place = some (.file c)) :
    KeepsFile s batch directory extension t t' made done ws p place c := by
  refine ⟨h.file_iff hc, fun d hd => h.overlooks hb hp hplace hd, fun houtputs hsight => ?_⟩
  rw [h.file_iff hc, h.spared houtputs hb hp hsight hplace]
  simp

/-- The entry that a path names is still there, and still the link that it was or a file. -/
def Remains (t t' : FileTree) (p : Path) : Prop :=
  ∃ place node, t.walk .entry p = .ok place ∧ t'.walk .entry p = .ok place ∧
    t.node? place = some node ∧
    (t'.node? place = some node ∨ ∃ c d, node = .file c ∧ t'.node? place = some (.file d))

theorem Disk.Ran.remains (h : Disk.Ran s batch directory extension t t' made done ws) {p : Path}
    {names : List Text} {paths : List Path} (hfound : t.Fragments p place names paths) {q : Path}
    (hq : q ∈ paths) : Remains t t' q ∧ ∃ file c, t.HoldsFile q file c := by
  obtain ⟨name, hname, rfl⟩ := List.mem_map.mp (hfound.paths_eq ▸ hq)
  obtain ⟨file, c, he⟩ := hfound.entry name hname
  obtain ⟨d, hd⟩ := h.file he.holds.node
  have he' := he.keeps h.keepsWays hd
  obtain ⟨node, hnode, hne⟩ := he.node
  refine ⟨⟨place ++ [name], node, he.walk_entry, he'.walk_entry, hnode, ?_⟩, file, c, he.holds⟩
  cases node with
  | directory => exact absurd rfl hne
  | link target => exact .inl ((h.keepsWays.link _ target).mpr hnode)
  | file e =>
    obtain rfl := he.file_eq hnode
    exact .inr ⟨e, d, rfl, hd⟩

theorem runMerge_refused (ht : t.WellFormed) {directory : Text} {output : Option Text}
    {extension : Option OptionValue} {deletes : Bool}
    (h : ((runMerge s directory output extension deletes : Action FileTree Unit).run t).result ≠
      .ok ()) :
    ((runMerge s directory output extension deletes : Action FileTree Unit).run t).state = t ∨
      ∃ groups, (findFragments s directory extension).Yields t groups t ∧ ∃ made done ws,
        Disk.Ran s (batchOf groups) (Path.ofText (targetOf directory output)) (suffixOf s extension) t
          ((runMerge s directory output extension deletes : Action FileTree Unit).run t).state made done
          ws := by
  rw [runMerge_eq] at h ⊢
  rcases hfind : (findFragments s directory extension).run t with ⟨result, t₁, reports⟩
  have hstate := readsOnly_findFragments s directory extension t
  rw [hfind] at hstate
  obtain rfl : t₁ = t := hstate
  cases result with
  | error fault =>
    rw [run_bind_error _ hfind]
    exact .inl rfl
  | ok groups =>
    have hyields : (findFragments s directory extension).Yields t₁ groups t₁ :=
      ⟨by rw [hfind], by rw [hfind]⟩
    obtain ⟨-, place, names, hfound⟩ := findFragments_yields ht hyields
    rw [run_bind_ok _ hfind] at h ⊢
    dsimp only at h ⊢
    split at h
    · exact absurd rfl h
    · refine .inr ⟨groups, hyields, ?_⟩
      rename_i hempty
      rw [if_neg hempty, mergeGroups_refused ht.grounded hfound h]
      exact Disk.mergeBatch_ran ht.grounded s _ _ _

/-- Whatever becomes of a batch, a file that a fragment points to keeps its content unless a program
that was overlooked is put there; and whatever is asked for on the command line, a merge that does
not end with zero has deleted no fragment that it found, and written over none but so. -/
theorem fragments_unharmed_iff (s : Settings) (ht : t.WellFormed) :
    (∀ (batch : Disk.Batch) (directory : Path) (extension : Text) (t' : FileTree),
      t' = ((Disk.mergeBatch s batch directory extension :
        Action FileTree (List Path)).run t).state →
      ∃ made done ws, Disk.Ran s batch directory extension t t' made done ws ∧
        ∀ b ∈ batch, ∀ p ∈ b.2, ∀ place c, Disk.PointsTo t s.linkDepth p place →
          t.node? place = some (.file c) →
          KeepsFile s batch directory extension t t' made done ws p place c) ∧
    ∀ (log : LogChoice) (directory : Text) (output : Option Text) (extension : Option OptionValue)
      (deletes : Bool) (outcome : Outcome FileTree UInt32),
      outcome = (Invocation.execute s ⟨log, .merge directory output extension deletes⟩ :
        Action FileTree UInt32).run t → outcome.result ≠ .ok 0 →
      outcome.state = t ∨ ∃ groups, (findFragments s directory extension).Yields t groups t ∧
        ∃ made done ws, Disk.Ran s (batchOf groups) (Path.ofText (targetOf directory output))
            (suffixOf s extension) t outcome.state made done ws ∧
          ∀ g ∈ groups, ∀ p ∈ g.paths, Remains t outcome.state p ∧ ∃ place c, t.HoldsFile p place c ∧
            KeepsFile s (batchOf groups) (Path.ofText (targetOf directory output))
              (suffixOf s extension) t outcome.state made done ws p place c := by
  refine ⟨fun batch directory extension t' ht' => ?_, ?_⟩
  · obtain ⟨made, done, ws, hran⟩ := Disk.mergeBatch_ran ht.grounded s batch directory extension
    rw [← ht'] at hran
    exact ⟨made, done, ws, hran, fun b hb p hp place c hplace hc => hran.keepsFile hb hp hplace hc⟩
  · rintro log directory output extension deletes outcome rfl hzero
    rcases Invocation.execute_nonzero hzero with hstate | ⟨hrefused, hstate⟩
    · exact .inl hstate
    · rw [hstate]
      rcases runMerge_refused ht hrefused with hsame | ⟨groups, hyields, made, done, ws, hran⟩
      · exact .inl hsame
      · obtain ⟨-, place, names, hfound⟩ := findFragments_yields ht hyields
        refine .inr ⟨groups, hyields, made, done, ws, hran, fun g hg p hp => ?_⟩
        have hmem : p ∈ (batchOf groups).flatMap Prod.snd := by
          rw [batchOf_sources]
          exact List.mem_flatMap.mpr ⟨g, hg, hp⟩
        obtain ⟨hremains, file, c, hfile⟩ := hran.remains hfound hmem
        exact ⟨hremains, file, c, hfile,
          hran.keepsFile (List.mem_map_of_mem hg) hp (.inl hfile.walk) hfile.node⟩

/-- A fragment beside one that has no tool. -/
def brokenTree : FileTree where
  entries :=
    [(["A-0.nc".toList], .file (Text.encode "(A)\n(T1)\n\nN1 G0 E1\nN2 H1\n".toList)),
      (["B-0.nc".toList], .file (Text.encode "(B)\n".toList))]

def brokenGroups : List Group :=
  [⟨"A".toList, [(0, Path.ofText "A-0.nc".toList)]⟩, ⟨"B".toList, [(0, Path.ofText "B-0.nc".toList)]⟩]

theorem findFragments_brokenTree :
    (findFragments {} ".".toList none).Yields brokenTree brokenGroups brokenTree := by
  have hnames : (Disk.children (Path.ofText ".".toList) : Action FileTree (List Text)).Yields
      brokenTree ["A-0.nc".toList, "B-0.nc".toList] brokenTree := ⟨by decide +kernel, rfl⟩
  exact Disk.findGroupsBy_of_sorted ⟨by decide +kernel, rfl⟩ hnames (by decide +kernel)
    ⟨by decide +kernel, rfl⟩

/-- The first program is written, the second fragment is refused, and both fragments are kept. -/
theorem fragments_unharmed_sample :
    brokenTree.WellFormed ∧
    ∃ outcome, outcome = (Invocation.execute {} ⟨{}, .merge ".".toList none none true⟩ :
        Action FileTree UInt32).run brokenTree ∧ outcome.result ≠ .ok 0 ∧
      (outcome.state = brokenTree ∨
        ∃ groups, (findFragments {} ".".toList none).Yields brokenTree groups brokenTree ∧
          ∃ made done ws, Disk.Ran {} (batchOf groups) (Path.ofText ".".toList) ".nc".toList brokenTree
              outcome.state made done ws ∧
            ∀ g ∈ groups, ∀ p ∈ g.paths, Remains brokenTree outcome.state p ∧
              ∃ place c, brokenTree.HoldsFile p place c ∧
                outcome.state.node? place = some (.file c)) := by
  have ht : brokenTree.WellFormed := by decide +kernel
  have hrefused : ((mergeGroups {} brokenGroups ".".toList ".nc".toList true :
      Action FileTree Unit).run brokenTree).result ≠ .ok () := by decide +kernel
  have hzero : ((Invocation.execute {} ⟨{}, .merge ".".toList none none true⟩ :
      Action FileTree UInt32).run brokenTree).result ≠ .ok 0 := by
    intro hzero
    have hmerge := (Invocation.execute_merge findFragments_brokenTree).mp (yields_of_result hzero)
    exact hrefused hmerge.2.1
  have hsight : ∀ p, brokenTree.InSight p := inSight_of_no_links (by simp [brokenTree])
  refine ⟨ht, _, rfl, hzero, ?_⟩
  refine ((fragments_unharmed_iff {} ht).2 _ _ _ _ _ _ rfl hzero).imp_right ?_
  rintro ⟨groups, hfind, made, done, ws, hran, hkept⟩
  refine ⟨groups, hfind, made, done, ws, hran, fun g hg p hp => ?_⟩
  obtain ⟨hremains, place, c, hfile, hplace⟩ := hkept g hg p hp
  exact ⟨hremains, place, c, hfile, hplace.kept (fun _ _ => hsight _) (hsight p)⟩

/-- A batch puts a program in the place of its fragment and succeeds. -/
theorem fragment_overwritten :
    Disk.farTree.WellFormed ∧
    ∃ b ∈ Disk.farBatch, ∃ p ∈ b.2, ∃ place c, Disk.farTree.walk .content p = .ok place ∧
      Disk.farTree.node? place = some (.file c) ∧
      ((Disk.mergeBatch {} Disk.farBatch Disk.farDirectory ".nc".toList :
        Action FileTree (List Path)).run Disk.farTree).state.node? place ≠ some (.file c) :=
  ⟨by decide +kernel, _, List.mem_cons_self, _, List.mem_cons_self, _, _, by decide +kernel, rfl,
    Disk.farMerge_overwrites.2⟩

end PartProgram
