import PartProgram.Proofs.Batch.Refused
import PartProgram.Proofs.Batch.Written

/-! # Batches that are refused

A batch is refused before it writes anything, or at one group; then the programs of the
groups before that are written, and nothing else. It is refused for a program in the
place of a fragment exactly if the path of one is resolved as that of the other, which
is where they lead to one place if every link on their ways is seen.
-/
namespace PartProgram

open PartProgram.Action

theorem Action.Tame.not_grouping {σ α : Type} {a : Action σ α} {s s' : σ} {cause : GroupingFault}
    (h : a.Tame s) : ¬ a.RefusedFor s (.grouping cause) s' :=
  fun hr => (h.refused _ hr.1).not_grouping rfl

namespace Disk

open FileTree
open Text (Bytes)

variable {t t' made : FileTree} {s : Settings} {batch : Batch} {directory : Path} {extension : Text}
  {depth : Nat} {fault : Fault}

/-- The output resolves to the path of a fragment. -/
def Overwrites (depth : Nat) (t : FileTree) (batch : Batch) (output : Path) : Prop :=
  ∃ r, t.Resolves depth output r ∧ ∃ b ∈ batch, ∃ p ∈ b.2, t.Resolves depth p r

theorem owners_succeeds (h : ∀ b ∈ batch, ∀ p ∈ b.2, ∃ r, t.Resolves depth p r) :
    ∃ owned, (owners depth batch : Action FileTree (List (Path × Text))).Yields t owned t := by
  have hone : ∀ b ∈ batch, ∃ those, (b.2.mapM fun p => do pure (← resolve depth p, b.1) :
      Action FileTree (List (Path × Text))).Yields t those t := fun b hb =>
    ReadsOnly.mapM_succeeds (fun p _ => readsOnly_owner depth p b.1) fun p hp => by
      obtain ⟨r, hr⟩ := h b hb p hp
      exact ⟨(r, b.1), owner_yields.mpr ⟨⟨hr, rfl⟩, rfl⟩⟩
  obtain ⟨all, hall⟩ := ReadsOnly.mapM_succeeds
    (fun b _ => ReadsOnly.mapM fun p _ => readsOnly_owner depth p b.1) hone
  exact ⟨all.flatten, yields_bind.mpr ⟨all, t, hall, yields_pure.mpr ⟨rfl, rfl⟩⟩⟩

/-- Some output resolves to a fragment, and those before it resolve as well. -/
def OverwritesSoon (depth : Nat) (t : FileTree) (batch : Batch) (outputs : List Path) : Prop :=
  ∃ done output rest, outputs = done ++ output :: rest ∧ (∀ p ∈ done, ∃ r, t.Resolves depth p r) ∧
    Overwrites depth t batch output

theorem overwritesSoon_cons {output : Path} {rest : List Path} :
    OverwritesSoon depth t batch (output :: rest) ↔
      Overwrites depth t batch output ∨
        (∃ r, t.Resolves depth output r) ∧ OverwritesSoon depth t batch rest := by
  constructor
  · rintro ⟨done, p, rest', hl, hdone, hp⟩
    cases done with
    | nil =>
      obtain ⟨rfl, rfl⟩ := List.cons.inj hl
      exact .inl hp
    | cons q done =>
      obtain ⟨rfl, rfl⟩ := List.cons.inj hl
      obtain ⟨hq, hdone⟩ := List.forall_mem_cons.mp hdone
      exact .inr ⟨hq, done, p, rest', rfl, hdone, hp⟩
  · rintro (hp | ⟨hq, done, p, rest', rfl, hdone, hp⟩)
    · exact ⟨[], output, rest, rfl, by simp, hp⟩
    · exact ⟨output :: done, p, rest', rfl, List.forall_mem_cons.mpr ⟨hq, hdone⟩, hp⟩

section
variable {owned : List (Path × Text)}
  (howned : (owners depth batch : Action FileTree (List (Path × Text))).Yields t owned t)
include howned

theorem lookup_owned {r : Path} :
    owned.reverse.lookup r = none ↔ ¬ ∃ b ∈ batch, ∃ p ∈ b.2, t.Resolves depth p r := by
  obtain ⟨-, hcovers, hcovered⟩ := owners_yields howned
  rw [List.lookup_eq_none_iff]
  constructor
  · rintro hnone ⟨b, hb, p, hp, hr⟩
    obtain ⟨q, hq, ho⟩ := hcovers b hb p hp
    obtain rfl := hr.unique hq
    simpa using hnone _ (List.mem_reverse.mpr ho)
  · intro hnone o ho
    rw [bne_iff_ne]
    rintro rfl
    exact hnone (hcovered o (List.mem_reverse.mp ho))

theorem checkOutput_passes {output : Text × Path} :
    (checkOutput depth owned output).Yields t () t ↔
      (∃ r, t.Resolves depth output.2 r) ∧ ¬ Overwrites depth t batch output.2 := by
  rw [checkOutput_yields, and_iff_left rfl]
  simp only [lookup_owned howned]
  constructor
  · rintro ⟨r, hr, hnone⟩
    refine ⟨⟨r, hr⟩, fun ⟨r', hr', hfragment⟩ => hnone ?_⟩
    exact hr.unique hr' ▸ hfragment
  · rintro ⟨⟨r, hr⟩, hnone⟩
    exact ⟨r, hr, fun hfragment => hnone ⟨r, hr, hfragment⟩⟩

theorem checkOutput_grouping {output : Text × Path} :
    (∃ cause, (checkOutput depth owned output).RefusedFor t (.grouping cause) t) ↔
      Overwrites depth t batch output.2 := by
  simp only [checkOutput, refusedFor_bind, (tame_resolve depth _ t).not_grouping, false_or,
    resolve_yields]
  constructor
  · rintro ⟨cause, r, t₁, ⟨hr, rfl⟩, h⟩
    refine ⟨r, hr, ?_⟩
    by_contra hnone
    rw [(lookup_owned howned).mpr hnone] at h
    exact refusedFor_pure h
  · rintro ⟨r, hr, hfragment⟩
    cases hlookup : owned.reverse.lookup r with
    | none => exact absurd hfragment ((lookup_owned howned).mp hlookup)
    | some owner =>
      refine ⟨.overwrites output.2.name output.1 owner, r, t, ⟨hr, rfl⟩, ?_⟩
      rw [hlookup]
      exact refusedFor_throw.mpr ⟨rfl, rfl⟩

theorem checkOutputs_grouping (outputs : List (Text × Path)) :
    (∃ cause, (checkOutputs depth owned outputs : Action FileTree Unit).RefusedFor t
        (.grouping cause) t) ↔
      OverwritesSoon depth t batch (outputs.map Prod.snd) := by
  rw [checkOutputs_eq]
  induction outputs with
  | nil =>
    constructor
    · rintro ⟨cause, h⟩
      exact absurd h refusedFor_pure
    · rintro ⟨done, output, rest, h, -⟩
      simp at h
  | cons output rest ih =>
    rw [List.map_cons, overwritesSoon_cons, ← ih, ← checkOutput_grouping howned]
    change (∃ cause, (checkOutput depth owned output >>= fun _ =>
      rest.forM (checkOutput depth owned)).RefusedFor t (.grouping cause) t) ↔ _
    constructor
    · rintro ⟨cause, h⟩
      rcases refusedFor_bind.mp h with hfirst | ⟨_, t₁, hfirst, hrest⟩
      · exact .inl ⟨cause, hfirst⟩
      · obtain rfl := hfirst.readsOnly (readsOnly_checkOutput depth owned output)
        exact .inr ⟨((checkOutput_passes howned).mp hfirst).1, cause, hrest⟩
    · intro h
      by_cases hover : Overwrites depth t batch output.2
      · obtain ⟨cause, hfirst⟩ := (checkOutput_grouping howned).mpr hover
        exact ⟨cause, refusedFor_bind.mpr (.inl hfirst)⟩
      · rw [checkOutput_grouping howned] at h
        obtain ⟨hresolves, cause, hrest⟩ := h.resolve_left hover
        have hfirst := (checkOutput_passes howned).mpr ⟨hresolves, hover⟩
        exact ⟨cause, refusedFor_bind.mpr (.inr ⟨(), t, hfirst, hrest⟩)⟩

end

theorem mergeBatch_grouping_iff :
    (∃ cause t', (mergeBatch s batch directory extension : Action FileTree (List Path)).RefusedFor t
      (.grouping cause) t') ↔
    ∃ made, (makeDirectories s.directoryDepth directory : Action FileTree Unit).Yields t () made ∧
      (∀ b ∈ batch, ∀ p ∈ b.2, ∃ r, made.Resolves s.linkDepth p r) ∧
      OverwritesSoon s.linkDepth made batch
        (batch.map fun b => outputPath directory extension b.1) := by
  have hmap : (batch.map fun b => (b.1, outputPath directory extension b.1)).map Prod.snd =
      batch.map fun b => outputPath directory extension b.1 := by
    rw [List.map_map]
    rfl
  rw [mergeBatch_eq]
  constructor
  · rintro ⟨cause, t', h⟩
    rcases refusedFor_bind.mp h with hprepare | ⟨_, made, -, hgroups⟩
    · rcases refusedFor_bind.mp hprepare with hmake | ⟨_, made, hmake, hlook⟩
      · exact absurd hmake (tame_makeDirectories _ directory t).not_grouping
      · rcases refusedFor_bind.mp hlook with howners | ⟨owned, made', howners, hcheck⟩
        · exact absurd howners (tame_owners _ batch made).not_grouping
        · obtain ⟨rfl, hcovers, -⟩ := owners_yields howners
          obtain rfl := hcheck.readsOnly (readsOnly_checkOutputs _ _ _)
          have hsoon := (checkOutputs_grouping howners _).mp ⟨cause, hcheck⟩
          refine ⟨_, hmake, fun b hb p hp => ?_, hmap ▸ hsoon⟩
          obtain ⟨r, hr, -⟩ := hcovers b hb p hp
          exact ⟨r, hr⟩
    · rcases refusedFor_bind.mp hgroups with hgroups | ⟨_, _, _, hlast⟩
      · have htame : (batch.forM fun b => mergeGroup s b.2 (outputPath directory extension b.1) :
            Action FileTree Unit).Tame made := confined_forM (fun _ _ u => tame_mergeGroup _ _ u) made
        exact absurd hgroups htame.not_grouping
      · exact absurd hlast refusedFor_pure
  · rintro ⟨made, hmake, hresolves, hsoon⟩
    obtain ⟨owned, howners⟩ := owners_succeeds hresolves
    obtain ⟨cause, hcheck⟩ := (checkOutputs_grouping howners _).mpr (hmap.symm ▸ hsoon)
    have hprepare : (prepare s batch directory extension).RefusedFor t (.grouping cause) made :=
      refusedFor_bind.mpr (.inr ⟨(), made, hmake,
        refusedFor_bind.mpr (.inr ⟨owned, made, howners, hcheck⟩)⟩)
    exact ⟨cause, made, refusedFor_bind.mpr (.inl hprepare)⟩

theorem overwritesSoon_iff (hresolves : ∀ b ∈ batch, ∃ r,
      made.Resolves depth (outputPath directory extension b.1) r) :
    OverwritesSoon depth made batch (batch.map fun b => outputPath directory extension b.1) ↔
      ∃ b ∈ batch, Overwrites depth made batch (outputPath directory extension b.1) := by
  constructor
  · rintro ⟨done, output, rest, hl, -, hover⟩
    have hmem : output ∈ batch.map fun b => outputPath directory extension b.1 := by simp [hl]
    obtain ⟨b, hb, rfl⟩ := List.mem_map.mp hmem
    exact ⟨b, hb, hover⟩
  · rintro ⟨b, hb, hover⟩
    obtain ⟨done, rest, hl⟩ := List.append_of_mem hb
    refine ⟨done.map fun b => outputPath directory extension b.1, _,
      rest.map fun b => outputPath directory extension b.1, by simp [hl], fun p hp => ?_, hover⟩
    obtain ⟨b', hb', rfl⟩ := List.mem_map.mp hp
    exact hresolves b' (by simp [hl, hb'])

/-- Every output and every fragment resolves, leads to some place, and is in sight. -/
def AllFound (depth : Nat) (t : FileTree) (batch : Batch) (directory : Path) (extension : Text) :
    Prop :=
  ∀ b ∈ batch, ∀ p ∈ outputPath directory extension b.1 :: b.2,
    (∃ r, t.Resolves depth p r) ∧ (∃ place, t.walk .content p = .ok place) ∧ t.InSight p

/-- Where everything is found, a path is resolved as another exactly if they lead to one place. -/
theorem AllFound.overwrites_iff (h : AllFound depth made batch directory extension)
    {b : Text × List Path} (hb : b ∈ batch) :
    Overwrites depth made batch (outputPath directory extension b.1) ↔
      ∃ place, made.walk .content (outputPath directory extension b.1) = .ok place ∧
        ∃ b' ∈ batch, ∃ p ∈ b'.2, made.walk .content p = .ok place := by
  obtain ⟨⟨r, hr⟩, ⟨place, hplace⟩, hsight⟩ := h b hb _ List.mem_cons_self
  have hrplace := hsight.resolve_eq hplace hr.2
  constructor
  · rintro ⟨r', hr', b', hb', p, hp, hfragment⟩
    obtain ⟨-, ⟨place', hplace'⟩, hsight'⟩ := h b' hb' p (List.mem_cons_of_mem _ hp)
    have heq := hsight'.resolve_eq hplace' hfragment.2
    rw [← hr.unique hr', hrplace] at heq
    obtain rfl : place = place' := congrArg Path.names heq
    exact ⟨place, hplace, b', hb', p, hp, hplace'⟩
  · rintro ⟨place', hplace', b', hb', p, hp, hfragment⟩
    obtain rfl := Except.ok.inj (hplace.symm.trans hplace')
    obtain ⟨⟨q, hq⟩, -, hsight'⟩ := h b' hb' p (List.mem_cons_of_mem _ hp)
    have heq := (hsight'.resolve_eq hfragment hq.2).trans hrplace.symm
    exact ⟨r, hr, b', hb', p, hp, heq ▸ hq⟩

/-- A batch that is refused has written the programs of the groups before the one it is halted at,
and nothing else; if it has not begun with the groups, it has made directories at most. It is
refused for a program in the place of a fragment exactly if the directory can be made, all fragments
resolve, and an output up to which all outputs resolve is resolved as a fragment: where all resolve,
if some output is; and where all is in sight besides, if some output leads where a fragment does. -/
theorem batch_refused (s : Settings) (batch : Batch) (directory : Path) (extension : Text)
    (ht : t.WellFormed) :
    (∀ fault t', (mergeBatch s batch directory extension : Action FileTree (List Path)).RefusedFor t
        fault t' →
      NotBegun s batch directory extension t fault t' ∨
        ∃ done b made ws, HaltedAt s batch directory extension t fault t' done b made ws) ∧
    ((∃ cause t', (mergeBatch s batch directory extension : Action FileTree (List Path)).RefusedFor t
        (.grouping cause) t') ↔
      ∃ made, (makeDirectories s.directoryDepth directory : Action FileTree Unit).Yields t () made ∧
        (∀ b ∈ batch, ∀ p ∈ b.2, ∃ r, made.Resolves s.linkDepth p r) ∧
        OverwritesSoon s.linkDepth made batch
          (batch.map fun b => outputPath directory extension b.1)) ∧
    ∀ made, (makeDirectories s.directoryDepth directory : Action FileTree Unit).Yields t () made →
      ((∀ b ∈ batch, ∀ p ∈ outputPath directory extension b.1 :: b.2,
          ∃ r, made.Resolves s.linkDepth p r) →
        ((∃ cause t', (mergeBatch s batch directory extension :
            Action FileTree (List Path)).RefusedFor t (.grouping cause) t') ↔
          ∃ b ∈ batch, Overwrites s.linkDepth made batch (outputPath directory extension b.1))) ∧
      (AllFound s.linkDepth made batch directory extension →
        ((∃ cause t', (mergeBatch s batch directory extension :
            Action FileTree (List Path)).RefusedFor t (.grouping cause) t') ↔
          ∃ b ∈ batch, ∃ place,
            made.walk .content (outputPath directory extension b.1) = .ok place ∧
            ∃ b' ∈ batch, ∃ p ∈ b'.2, made.walk .content p = .ok place)) := by
  refine ⟨fun fault t' h => mergeBatch_refuses ht.grounded h, mergeBatch_grouping_iff, ?_⟩
  intro made hmake
  have hresolved : (∀ b ∈ batch, ∀ p ∈ outputPath directory extension b.1 :: b.2,
        ∃ r, made.Resolves s.linkDepth p r) →
      ((∃ cause t', (mergeBatch s batch directory extension :
          Action FileTree (List Path)).RefusedFor t (.grouping cause) t') ↔
        ∃ b ∈ batch, Overwrites s.linkDepth made batch (outputPath directory extension b.1)) := by
    intro hresolves
    rw [mergeBatch_grouping_iff, ← overwritesSoon_iff fun b hb => hresolves b hb _ List.mem_cons_self]
    constructor
    · rintro ⟨made', hmake', -, hsoon⟩
      obtain ⟨-, rfl⟩ := hmake.unique hmake'
      exact hsoon
    · exact fun hsoon =>
        ⟨made, hmake, fun b hb p hp => hresolves b hb p (List.mem_cons_of_mem _ hp), hsoon⟩
  refine ⟨hresolved, fun hfound => ?_⟩
  rw [hresolved fun b hb p hp => (hfound b hb p hp).1]
  exact exists_congr fun b => and_congr_right fun hb => hfound.overwrites_iff hb

/-- Of two programs the fragment of the second is missing. -/
def halfTree : FileTree where
  entries := [(["A-0.nc".toList], .file (Text.encode "(A)\n(T1)\n\nN1 G0 E1\nN2 H1\n".toList))]

def halfBatch : Batch :=
  [("A".toList, [Path.ofText "A-0.nc".toList]), ("B".toList, [Path.ofText "B-0.nc".toList])]

/-- The first program is written. -/
theorem batch_refused_half :
    halfTree.WellFormed ∧
    ∃ t', (mergeBatch {} halfBatch {} ".nc".toList : Action FileTree (List Path)).RefusedFor halfTree
        (.noProgramFile "B-0.nc".toList) t' ∧
      t'.node? ["A.nc".toList] ≠ halfTree.node? ["A.nc".toList] ∧
      ∃ done b made ws, HaltedAt {} halfBatch {} ".nc".toList halfTree
        (.noProgramFile "B-0.nc".toList) t' done b made ws := by
  have ht : halfTree.WellFormed := by decide +kernel
  have h : (mergeBatch {} halfBatch {} ".nc".toList : Action FileTree (List Path)).RefusedFor halfTree
      (.noProgramFile "B-0.nc".toList) _ := refusedFor_of_result (by decide +kernel)
  have hprepare : ((prepare {} halfBatch {} ".nc".toList).run halfTree).result = .ok () := by
    decide +kernel
  refine ⟨ht, _, h, by decide +kernel, ?_⟩
  refine ((batch_refused {} halfBatch {} ".nc".toList ht).1 _ _ h).resolve_left fun hnot => ?_
  rw [hnot.refused.1] at hprepare
  cases hprepare

/-- The working directory is found again through a link that is too many steps up from it to be
looked up by one path. -/
def farTree : FileTree where
  entries :=
    [(["proc".toList], .directory), (["proc".toList, "1".toList], .directory),
      (["proc".toList, "self".toList], .link "1".toList),
      (["proc".toList, "1".toList, "cwd".toList], .link "/work".toList),
      (["work".toList], .directory),
      (["work".toList, "A-0.nc".toList], .file (Text.encode "(A)\n(T1)\n\nN1 G0 E1\nN2 H1\n".toList)),
      (["work".toList, "L".toList], .link (['/'].intercalate (List.replicate 100 ['.', '.'])))]
  current := ["work".toList]

def farDirectory : Path :=
  ⟨[], "L".toList :: List.replicate 1290 ['.', '.'] ++ ["proc".toList, "self".toList, "cwd".toList]⟩

def farBatch : Batch := [("A-0".toList, [Path.ofText "A-0.nc".toList])]

def farMerge : Outcome FileTree (List Path) :=
  (mergeBatch {} farBatch farDirectory ".nc".toList : Action FileTree (List Path)).run farTree

theorem farMerge_overwrites :
    farMerge.result = .ok [Path.ofText "A-0.nc".toList] ∧
      farMerge.state.node? ["work".toList, "A-0.nc".toList] ≠
        farTree.node? ["work".toList, "A-0.nc".toList] := by decide +kernel

/-- All paths resolve and the program leads to the file of its fragment, but the batch succeeds. -/
theorem overwriting_unnoticed :
    farTree.WellFormed ∧
    ∃ t', (mergeBatch {} farBatch farDirectory ".nc".toList : Action FileTree (List Path)).Yields farTree
        [Path.ofText "A-0.nc".toList] t' ∧
      ∃ made ws, Ran {} farBatch farDirectory ".nc".toList farTree t' made farBatch ws ∧
        (∀ b ∈ farBatch, ∀ p ∈ outputPath farDirectory ".nc".toList b.1 :: b.2,
          ∃ r, made.Resolves ({} : Settings).linkDepth p r) ∧
        ∃ b ∈ farBatch, ∃ p ∈ b.2, ∃ place,
          made.walk .content (outputPath farDirectory ".nc".toList b.1) = .ok place ∧
          made.walk .content p = .ok place := by
  have ht : farTree.WellFormed := by decide +kernel
  have hyields : (mergeBatch {} farBatch farDirectory ".nc".toList :
      Action FileTree (List Path)).Yields farTree _ _ := yields_of_result farMerge_overwrites.1
  obtain ⟨-, made, ws, hran⟩ := mergeBatch_yields ht.grounded hyields
  have hfragment : farTree.walk .content (Path.ofText "A-0.nc".toList) =
      .ok ["work".toList, "A-0.nc".toList] := by decide +kernel
  refine ⟨ht, _, hyields, made, ws, hran, fun b hb p hp => ?_, ?_⟩
  · obtain ⟨r, hr, hfragments⟩ := hran.apart (by simp [farBatch]) b hb
    rcases List.mem_cons.mp hp with rfl | hp
    · exact ⟨r, hr⟩
    · obtain ⟨q, hq, -⟩ := hfragments b hb p hp
      exact ⟨q, hq⟩
  · -- the file of the fragment was changed, so the output of a group led there
    obtain ⟨b, hb, houtput⟩ : Written made farBatch farDirectory ".nc".toList
        ["work".toList, "A-0.nc".toList] := by
      by_contra hnot
      have hsame := (hran.fills.node_eq hnot).trans (hran.makes.adds.node_eq rfl)
      exact farMerge_overwrites.2 hsame
    obtain rfl := List.mem_singleton.mp hb
    exact ⟨_, hb, _, List.mem_singleton.mpr rfl, _, houtput, hran.makes.adds.keepsWays.walk hfragment⟩

end Disk

end PartProgram
