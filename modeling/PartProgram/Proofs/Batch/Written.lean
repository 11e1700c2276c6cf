import PartProgram.Proofs.Batch.Merged
import PartProgram.Proofs.Files.Resolved
import PartProgram.Proofs.Files.Towards

/-! # What a batch writes

A batch makes a directory, makes sure that no program is resolved to a fragment, and
then fills in one program after the other, each from the fragments as they stand by
then. Where several programs lead to one file the last of them stays.
-/
namespace PartProgram.Disk

open PartProgram.Action FileTree
open Text (Bytes)

variable {t t' made : FileTree} {s : Settings} {batch done : Batch} {directory : Path}
  {extension : Text} {depth : Nat} {place : Place} {c d : Bytes} {fault : Fault}
  {ws : List (Place × Bytes)}

def outputPath (directory : Path) (extension name : Text) : Path := directory.join (name ++ extension)

theorem readsOnly_owner (depth : Nat) (p : Path) (name : Text) :
    (resolve depth p >>= fun q => pure (q, name) : Action FileTree (Path × Text)).ReadsOnly :=
  (readsOnly_resolve depth p).bind fun _ => readsOnly_pure _

theorem owner_yields {p r : Path} {name owner : Text} :
    (resolve depth p >>= fun q => pure (q, name) : Action FileTree (Path × Text)).Yields t (r, owner)
        t' ↔
      (t.Resolves depth p r ∧ owner = name) ∧ t' = t := by
  simp only [yields_bind, resolve_yields, yields_pure, Prod.mk.injEq]
  constructor
  · rintro ⟨_, _, ⟨hr, rfl⟩, ⟨rfl, rfl⟩, rfl⟩
    exact ⟨⟨hr, rfl⟩, rfl⟩
  · rintro ⟨⟨hr, rfl⟩, rfl⟩
    exact ⟨_, _, ⟨hr, rfl⟩, ⟨rfl, rfl⟩, rfl⟩

theorem readsOnly_owners (depth : Nat) (batch : Batch) :
    (owners depth batch : Action FileTree (List (Path × Text))).ReadsOnly :=
  (ReadsOnly.mapM fun b _ => ReadsOnly.mapM fun p _ => readsOnly_owner depth p b.1).bind
    fun _ => readsOnly_pure _

/-- Every fragment has an owner, and nothing else has. -/
theorem owners_yields {owned : List (Path × Text)}
    (h : (owners depth batch : Action FileTree (List (Path × Text))).Yields t owned t') :
    t' = t ∧ (∀ b ∈ batch, ∀ p ∈ b.2, ∃ q, t.Resolves depth p q ∧ (q, b.1) ∈ owned) ∧
      ∀ o ∈ owned, ∃ b ∈ batch, ∃ p ∈ b.2, t.Resolves depth p o.1 := by
  have hreads : ∀ b ∈ batch, (b.2.mapM fun p => do pure (← resolve depth p, b.1) :
      Action FileTree (List (Path × Text))).ReadsOnly :=
    fun b _ => ReadsOnly.mapM fun p _ => readsOnly_owner depth p b.1
  rw [owners, yields_bind] at h
  obtain ⟨all, t₁, hall, h⟩ := h
  obtain ⟨rfl, rfl⟩ := yields_pure.mp h
  obtain rfl := hall.readsOnly (ReadsOnly.mapM hreads)
  refine ⟨rfl, fun b hb p hp => ?_, fun o ho => ?_⟩
  · obtain ⟨those, hthose, hone⟩ := ReadsOnly.mapM_mem hreads hall hb
    obtain ⟨⟨q, owner⟩, ho, howner⟩ :=
      ReadsOnly.mapM_mem (fun p _ => readsOnly_owner depth p b.1) hone hp
    obtain ⟨⟨hq, rfl⟩, -⟩ := owner_yields.mp howner
    exact ⟨q, hq, List.mem_flatten.mpr ⟨those, hthose, ho⟩⟩
  · obtain ⟨those, hthose, ho⟩ := List.mem_flatten.mp ho
    obtain ⟨b, hb, hone⟩ := ReadsOnly.mem_mapM hreads hall hthose
    obtain ⟨p, hp, howner⟩ :=
      ReadsOnly.mem_mapM (fun p _ => readsOnly_owner depth p b.1) hone ho
    exact ⟨b, hb, p, hp, (owner_yields.mp howner).1.1⟩

def checkOutput (depth : Nat) (owned : List (Path × Text)) (output : Text × Path) :
    Action FileTree Unit := do
  match owned.reverse.lookup (← resolve depth output.2) with
  | none => pure ()
  | some owner => throw (Fault.grouping (.overwrites output.2.name output.1 owner))

theorem readsOnly_checkOutput (depth : Nat) (owned : List (Path × Text)) (output : Text × Path) :
    (checkOutput depth owned output).ReadsOnly := by
  refine (readsOnly_resolve depth _).bind fun q => ?_
  split
  · exact readsOnly_pure _
  · exact readsOnly_throw _

theorem checkOutput_yields {owned : List (Path × Text)} {output : Text × Path} :
    (checkOutput depth owned output).Yields t () t' ↔
      (∃ r, t.Resolves depth output.2 r ∧ owned.reverse.lookup r = none) ∧ t' = t := by
  rw [checkOutput, yields_bind]
  constructor
  · rintro ⟨r, t₁, hr, h⟩
    obtain ⟨hr, rfl⟩ := resolve_yields.mp hr
    split at h
    · rename_i hnone
      exact ⟨⟨r, hr, hnone⟩, (yields_pure.mp h).2⟩
    · exact absurd h yields_throw
  · rintro ⟨⟨r, hr, hnone⟩, rfl⟩
    refine ⟨r, t', resolve_yields.mpr ⟨hr, rfl⟩, ?_⟩
    rw [hnone]
    exact yields_pure.mpr ⟨rfl, rfl⟩

theorem checkOutputs_eq (depth : Nat) (owned : List (Path × Text)) (outputs : List (Text × Path)) :
    (checkOutputs depth owned outputs : Action FileTree Unit) =
      outputs.forM (checkOutput depth owned) := rfl

theorem readsOnly_checkOutputs (depth : Nat) (owned : List (Path × Text))
    (outputs : List (Text × Path)) :
    (checkOutputs depth owned outputs : Action FileTree Unit).ReadsOnly :=
  ReadsOnly.forM fun output _ => readsOnly_checkOutput depth owned output

theorem checkOutputs_yields {owned : List (Path × Text)} {outputs : List (Text × Path)}
    (h : (checkOutputs depth owned outputs : Action FileTree Unit).Yields t () t') :
    ∀ output ∈ outputs, ∃ r, t.Resolves depth output.2 r ∧ ∀ o ∈ owned, o.1 ≠ r := by
  intro output houtput
  rw [checkOutputs_eq] at h
  have hone := ReadsOnly.forM_yields (fun output _ => readsOnly_checkOutput depth owned output) h
    output houtput
  obtain ⟨⟨r, hr, hnone⟩, -⟩ := checkOutput_yields.mp hone
  refine ⟨r, hr, fun o ho heq => ?_⟩
  have hne := List.lookup_eq_none_iff.mp hnone o (List.mem_reverse.mpr ho)
  simp [heq] at hne

/-- No program is resolved to a fragment. -/
def Apart (depth : Nat) (t : FileTree) (batch : Batch) (directory : Path) (extension : Text) : Prop :=
  ∀ b ∈ batch, ∃ r, t.Resolves depth (outputPath directory extension b.1) r ∧
    ∀ b' ∈ batch, ∀ p ∈ b'.2, ∃ q, t.Resolves depth p q ∧ q ≠ r

/-- What a batch does before the first group is merged. -/
def prepare (s : Settings) (batch : Batch) (directory : Path) (extension : Text) :
    Action FileTree Unit := do
  makeDirectories s.directoryDepth directory
  checkOutputs s.linkDepth (← owners s.linkDepth batch)
    (batch.map fun b => (b.1, outputPath directory extension b.1))

theorem mergeBatch_eq (s : Settings) (batch : Batch) (directory : Path) (extension : Text) :
    (mergeBatch s batch directory extension : Action FileTree (List Path)) =
      prepare s batch directory extension >>= fun _ =>
        (batch.forM fun b => mergeGroup s b.2 (outputPath directory extension b.1)) >>= fun _ =>
          pure (batch.flatMap Prod.snd) := by
  simp only [prepare, bind_assoc]
  rfl

theorem prepare_yields (h : (prepare s batch directory extension).Yields t () made) :
    Apart s.linkDepth made batch directory extension := by
  obtain ⟨_, t₁, -, h⟩ := yields_bind.mp h
  obtain ⟨owned, t₂, howners, hcheck⟩ := yields_bind.mp h
  obtain ⟨rfl, howned, -⟩ := owners_yields howners
  obtain rfl := hcheck.readsOnly (readsOnly_checkOutputs _ _ _)
  intro b hb
  obtain ⟨r, hr, hne⟩ := checkOutputs_yields hcheck _ (List.mem_map_of_mem hb)
  refine ⟨r, hr, fun b' hb' p hp => ?_⟩
  obtain ⟨q, hq, hmem⟩ := howned b' hb' p hp
  exact ⟨q, hq, hne _ hmem⟩

theorem prepare_preserves {I : FileTree → Prop}
    (h : (makeDirectories s.directoryDepth directory : Action FileTree Unit).Preserves I) :
    (prepare s batch directory extension).Preserves I :=
  h.bind fun _ => (readsOnly_owners _ batch).preserves.bind fun _ =>
    (readsOnly_checkOutputs _ _ _).preserves

def fillAll (t : FileTree) (ws : List (Place × Bytes)) : FileTree :=
  ws.foldl (fun t w => t.put w.1 (.file w.2)) t

/-- The last content filled in at a place stays there. -/
theorem node?_fillAll (hws : ∀ w ∈ ws, w.1 ≠ []) (q : Place) :
    (fillAll t ws).node? q = ((ws.reverse.lookup q).map .file).or (t.node? q) := by
  induction ws generalizing t with
  | nil => rfl
  | cons w rest ih =>
    obtain ⟨r, c⟩ := w
    have hrest := ih (t := t.put r (.file c)) fun w hw => hws w (List.mem_cons_of_mem _ hw)
    have hfill : fillAll t ((r, c) :: rest) = fillAll (t.put r (.file c)) rest := rfl
    rw [hfill, hrest, node?_put (hws (r, c) List.mem_cons_self), List.reverse_cons,
      List.lookup_append]
    cases rest.reverse.lookup q with
    | some c => rfl
    | none =>
      rw [Option.none_or]
      by_cases hq : q = r
      · subst hq
        simp
      · rw [if_neg hq, lookup_cons_of_ne hq, List.lookup_nil]

/-- What the program of a group looks like and where it goes. -/
structure Merges (s : Settings) (t : FileTree) (directory : Path) (extension : Text)
    (b : Text × List Path) (w : Place × Bytes) : Prop where
  plain : (outputPath directory extension b.1).holdsNull = false
  walk : t.walk .content (outputPath directory extension b.1) = .ok w.1
  bytes : mergedBytes s t b.2 = .ok w.2
  free : t.node? w.1 ≠ some .directory

/-- Each group is merged from the fragments as they stand by then, and filled in before the next. -/
inductive MergesAll (s : Settings) (directory : Path) (extension : Text) :
    FileTree → Batch → List (Place × Bytes) → Prop where
  | nil (t : FileTree) : MergesAll s directory extension t [] []
  | cons {t : FileTree} {b : Text × List Path} {rest : Batch} {w : Place × Bytes}
      {ws : List (Place × Bytes)} : Merges s t directory extension b w →
      MergesAll s directory extension (t.put w.1 (.file w.2)) rest ws →
      MergesAll s directory extension t (b :: rest) (w :: ws)

theorem mergesAll_of_yields
    (h : (batch.forM fun b => mergeGroup s b.2 (outputPath directory extension b.1) :
      Action FileTree Unit).Yields t () t') :
    ∃ ws, MergesAll s directory extension t batch ws ∧ t' = fillAll t ws := by
  induction batch generalizing t with
  | nil =>
    obtain ⟨-, rfl⟩ := yields_pure.mp h
    exact ⟨[], .nil _, rfl⟩
  | cons b rest ih =>
    obtain ⟨t₁, hb, hrest⟩ := forM_cons_yields.mp h
    obtain ⟨place, c, hbytes, hplain, hwalk, hd, rfl⟩ := mergeGroup_yields hb
    obtain ⟨ws, hws, rfl⟩ := ih hrest
    exact ⟨(place, c) :: ws, .cons ⟨hplain, walk_content (by decide) hwalk, hbytes, hd⟩ hws, rfl⟩

def Written (t : FileTree) (batch : Batch) (directory : Path) (extension : Text) (q : Place) : Prop :=
  ∃ b ∈ batch, t.walk .content (outputPath directory extension b.1) = .ok q

/-- A program goes where its output led from the start, and leaves the ways as they were. -/
theorem Merges.fills {S : Place → Prop} {b : Text × List Path} {w : Place × Bytes}
    (h : Merges s t directory extension b w) (hg : made.Grounded) (hfills : Fills S made t)
    (hS : made.walk .content (outputPath directory extension b.1) = .ok w.1 → S w.1) :
    made.walk .content (outputPath directory extension b.1) = .ok w.1 ∧
      Fills S made (t.put w.1 (.file w.2)) :=
  ⟨hfills.keepsWays.2.walk h.walk, hfills.write hg h.walk h.free hS w.2⟩

theorem MergesAll.fills {S : Place → Prop} (h : MergesAll s directory extension t batch ws)
    (hg : made.Grounded) (hfills : Fills S made t)
    (hS : ∀ q, Written made batch directory extension q → S q) :
    List.Forall₂ (fun b w => made.walk .content (outputPath directory extension b.1) = .ok w.1)
      batch ws ∧ Fills S made (fillAll t ws) := by
  induction h with
  | nil t => exact ⟨.nil, hfills⟩
  | @cons t b rest w ws hb _ ih =>
    obtain ⟨hwalk, hput⟩ := hb.fills hg hfills fun hwalk => hS _ ⟨b, List.mem_cons_self, hwalk⟩
    obtain ⟨hwalks, hall⟩ := ih hput fun q ⟨b', hb', hq⟩ => hS q ⟨b', List.mem_cons_of_mem _ hb', hq⟩
    exact ⟨.cons hwalk hwalks, hall⟩

/-- What a batch has done by the end, whatever that is. It has made directories and merged the groups
`done`; `ws` is what was filled in. -/
structure Ran (s : Settings) (batch : Batch) (directory : Path) (extension : Text)
    (t t' made : FileTree) (done : Batch) (ws : List (Place × Bytes)) : Prop where
  makes : MakesTowards directory t made
  grounded : made.Grounded
  front : done <+: batch
  apart : done ≠ [] → Apart s.linkDepth made batch directory extension
  merges : MergesAll s directory extension made done ws
  state_eq : t' = fillAll made ws

/-- Refused before the first group, a batch has made directories at most. -/
structure NotBegun (s : Settings) (batch : Batch) (directory : Path) (extension : Text) (t : FileTree)
    (fault : Fault) (t' : FileTree) : Prop where
  refused : (prepare s batch directory extension).RefusedFor t fault t'
  ran : Ran s batch directory extension t t' t' [] []

/-- Refused at the group `b`, a batch has merged the groups before that, and changed nothing but the
files that their outputs lead to. -/
structure HaltedAt (s : Settings) (batch : Batch) (directory : Path) (extension : Text) (t : FileTree)
    (fault : Fault) (t' : FileTree) (done : Batch) (b : Text × List Path) (made : FileTree)
    (ws : List (Place × Bytes)) : Prop where
  batch_eq : ∃ rest, batch = done ++ b :: rest
  prepared : (prepare s batch directory extension).Yields t () made
  ran : Ran s batch directory extension t t' made done ws
  changed : ∀ q, t'.node? q ≠ made.node? q → Written made done directory extension q
  refused : (mergeGroup s b.2 (outputPath directory extension b.1) : Action FileTree Unit).RefusedFor
    t' fault t'

theorem MergesAll.inner (h : MergesAll s directory extension t batch ws) : ∀ w ∈ ws, w.1 ≠ [] := by
  induction h with
  | nil => simp
  | cons hb _ ih =>
    refine List.forall_mem_cons.mpr ⟨fun hnil => hb.free ?_, ih⟩
    rw [hnil, node?_nil]

section
variable (h : Ran s batch directory extension t t' made done ws)
include h

theorem Ran.walks :
    List.Forall₂ (fun b w => made.walk .content (outputPath directory extension b.1) = .ok w.1)
      done ws :=
  (h.merges.fills h.grounded (.refl _ made) fun _ => id).1

theorem Ran.fills : Fills (Written made done directory extension) made t' :=
  h.state_eq ▸ (h.merges.fills h.grounded (.refl _ made) fun _ => id).2

theorem Ran.keepsWays : KeepsWays t t' := h.makes.adds.keepsWays.trans h.fills.keepsWays.1

theorem Ran.grounded_after : t'.Grounded := h.fills.grounded h.grounded

theorem Ran.node?_eq (q : Place) :
    t'.node? q = ((ws.reverse.lookup q).map .file).or (made.node? q) := by
  rw [h.state_eq, node?_fillAll h.merges.inner]

theorem Ran.written (hd : ws.reverse.lookup place = some d) :
    Written made done directory extension place := by
  obtain ⟨b, hb, hwalk⟩ :=
    exists_mem_of_forall₂ h.walks.flip (List.mem_reverse.mp (mem_of_lookup hd))
  exact ⟨b, hb, hwalk⟩

theorem Ran.file (hc : t.node? place = some (.file c)) : ∃ d, t'.node? place = some (.file d) := by
  rw [h.node?_eq, h.makes.adds.node_eq hc]
  cases ws.reverse.lookup place with
  | none => exact ⟨c, rfl⟩
  | some d => exact ⟨d, rfl⟩

/-- A file keeps its content exactly if nothing else was put in its place at last. -/
theorem Ran.file_iff (hc : t.node? place = some (.file c)) :
    t'.node? place = some (.file c) ↔ ∀ d, ws.reverse.lookup place = some d → d = c := by
  rw [h.node?_eq, h.makes.adds.node_eq hc]
  cases ws.reverse.lookup place <;> simp

end

/-- A batch that is refused has not begun, or is halted at a group. -/
theorem mergeBatch_refuses (hg : t.Grounded)
    (h : (mergeBatch s batch directory extension : Action FileTree (List Path)).RefusedFor t fault t') :
    NotBegun s batch directory extension t fault t' ∨
      ∃ done b made ws, HaltedAt s batch directory extension t fault t' done b made ws := by
  have htowards : (prepare s batch directory extension).Preserves _ :=
    prepare_preserves (makeDirectories_towards s.directoryDepth directory t)
  have hgrounded : (prepare s batch directory extension).Preserves _ :=
    prepare_preserves (makeDirectories_grounded s.directoryDepth directory t)
  rw [mergeBatch_eq] at h
  rcases refusedFor_bind.mp h with h | ⟨_, made, hprepare, h⟩
  · have hran := hgrounded t ⟨.refl t, hg⟩
    have hmakes := htowards t (.refl directory t)
    rw [h.2] at hran hmakes
    exact .inl ⟨h, hmakes, hran.2, List.nil_prefix, fun hne => absurd rfl hne, .nil _, rfl⟩
  · rcases refusedFor_bind.mp h with h | ⟨_, _, _, h⟩
    · obtain ⟨done, b, rest, u, rfl, hdone, hb⟩ := forM_refusedFor.mp h
      obtain rfl := mergeGroup_refuses hb
      obtain ⟨ws, hws, rfl⟩ := mergesAll_of_yields hdone
      have hran : Ran s (done ++ b :: rest) directory extension t (fillAll made ws) made done ws :=
        ⟨hprepare.preserves htowards (.refl directory t),
          (hprepare.preserves hgrounded ⟨.refl t, hg⟩).2,
          List.prefix_append _ _, fun _ => prepare_yields hprepare, hws, rfl⟩
      refine .inr ⟨done, b, made, ws, ⟨rest, rfl⟩, hprepare, hran, fun q hq => ?_, hb⟩
      by_contra hnot
      exact hq (hran.fills.node_eq hnot)
    · exact absurd h refusedFor_pure

/-- A batch that succeeds has merged every group. -/
theorem mergeBatch_yields (hg : t.Grounded) {sources : List Path}
    (h : (mergeBatch s batch directory extension : Action FileTree (List Path)).Yields t sources t') :
    sources = batch.flatMap Prod.snd ∧
      ∃ made ws, Ran s batch directory extension t t' made batch ws := by
  rw [mergeBatch_eq] at h
  obtain ⟨_, made, hprepare, h⟩ := yields_bind.mp h
  obtain ⟨_, t₁, hmerge, h⟩ := yields_bind.mp h
  obtain ⟨rfl, rfl⟩ := yields_pure.mp h
  obtain ⟨ws, hws, rfl⟩ := mergesAll_of_yields hmerge
  have htowards := hprepare.preserves
    (prepare_preserves (makeDirectories_towards s.directoryDepth directory t)) (.refl directory t)
  have hgrounded := hprepare.preserves
    (prepare_preserves (makeDirectories_grounded s.directoryDepth directory t)) ⟨.refl t, hg⟩
  exact ⟨rfl, made, ws, htowards, hgrounded.2, List.prefix_refl _, fun _ => prepare_yields hprepare,
    hws, rfl⟩

/-- So much is certain of a batch whatever becomes of it. -/
theorem mergeBatch_ran (hg : t.Grounded) (s : Settings) (batch : Batch) (directory : Path)
    (extension : Text) :
    ∃ made done ws, Ran s batch directory extension t
      ((mergeBatch s batch directory extension : Action FileTree (List Path)).run t).state made done
      ws := by
  cases hresult : ((mergeBatch s batch directory extension : Action FileTree (List Path)).run t).result
    with
  | ok sources =>
    obtain ⟨-, made, ws, hran⟩ := mergeBatch_yields hg (yields_of_result hresult)
    exact ⟨made, batch, ws, hran⟩
  | error fault =>
    rcases mergeBatch_refuses hg (refusedFor_of_result hresult) with h | ⟨done, b, made, ws, h⟩
    · exact ⟨_, [], [], h.ran⟩
    · exact ⟨made, done, ws, h.ran⟩

/-- The path leads to the place, or is resolved to it. -/
def PointsTo (t : FileTree) (depth : Nat) (p : Path) (place : Place) : Prop :=
  t.walk .content p = .ok place ∨ t.resolve depth p = .ok (pathTo place)

/-- The output leads where the fragment points to, but the one is not resolved as the other: a link on
the way of one of them is too far down to be looked up. -/
structure Overlooks (t : FileTree) (depth : Nat) (output fragment : Path) (place : Place) : Prop where
  leads : t.walk .content output = .ok place
  apart : ∃ r q, t.Resolves depth output r ∧ t.Resolves depth fragment q ∧ q ≠ r
  unseen : ¬ t.InSight output ∨ ¬ t.InSight fragment

/-- What is filled in at the place of a fragment was overlooked. -/
theorem Ran.overlooks (h : Ran s batch directory extension t t' made done ws) {b : Text × List Path}
    (hb : b ∈ batch) {p : Path} (hp : p ∈ b.2) (hplace : PointsTo t s.linkDepth p place)
    (hd : ws.reverse.lookup place = some d) :
    ∃ b' ∈ done, Overlooks made s.linkDepth (outputPath directory extension b'.1) p place := by
  obtain ⟨b', hb', hwalk⟩ := h.written hd
  obtain ⟨r, hr, hfragments⟩ := h.apart (List.ne_nil_of_mem hb') b' (h.front.subset hb')
  obtain ⟨q, hq, hne⟩ := hfragments b hb p hp
  refine ⟨b', hb', hwalk, ⟨r, q, hr, hq, hne⟩, ?_⟩
  rw [← not_and_or]
  rintro ⟨houtput, hfragment⟩
  apply hne
  rw [houtput.resolve_eq hwalk hr.2]
  have hk := h.makes.adds.keepsWays
  rcases hplace with hleads | hresolve
  · exact hfragment.resolve_eq (hk.walk hleads) hq.2
  · exact hk.sameLinks.resolve_eq hresolve hq.2

/-- Nothing is put where a fragment points to if that is in sight together with the outputs. -/
theorem Ran.spared (h : Ran s batch directory extension t t' made done ws)
    (houtputs : ∀ b ∈ batch, t.InSight (outputPath directory extension b.1))
    {b : Text × List Path} (hb : b ∈ batch) {p : Path} (hp : p ∈ b.2) (hsight : t.InSight p)
    (hplace : PointsTo t s.linkDepth p place) : ws.reverse.lookup place = none := by
  refine Option.eq_none_iff_forall_ne_some.mpr fun d hd => ?_
  obtain ⟨b', hb', hoverlooks⟩ := h.overlooks hb hp hplace hd
  have hk := h.makes.adds.keepsWays.sameLinks
  rcases hoverlooks.unseen with hunseen | hunseen
  · exact hunseen (hk.inSight (houtputs b' (h.front.subset hb')))
  · exact hunseen (hk.inSight hsight)

end PartProgram.Disk
