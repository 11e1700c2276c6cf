import PartProgram.CommandLine.Execution
import PartProgram.Proofs.Batch.Deleted
import PartProgram.Proofs.Batch.Written

/-! # Merging on the command line

A merge finds the groups of fragments, merges them, and deletes the fragments if it is
asked to. Its exit code is zero just if none of these steps is refused.
-/
namespace PartProgram

open PartProgram.Action FileTree
open Text (Bytes)

variable {t t' : FileTree} {s : Settings} {directory : Text} {output : Option Text}
  {extension : Option OptionValue} {deletes : Bool}

namespace Command

theorem execute_state (s : Settings) (c : Command) (t : FileTree) :
    ((c.execute s : Action FileTree UInt32).run t).state =
      ((c.run s : Action FileTree Unit).run t).state := by
  refine (state_orElse (fun fault => ?_) t).trans ?_
  · split
    · exact readsOnly_throw _
    · exact (readsOnly_report _).bind fun _ => readsOnly_pure _
  · exact state_bind (I := fun u => u = ((c.run s : Action FileTree Unit).run t).state)
      (fun _ _ => rfl) fun _ _ h => h.2.symm

theorem execute_zero {c : Command} :
    (c.execute s : Action FileTree UInt32).Yields t 0 t' ↔
      (c.run s : Action FileTree Unit).Yields t () t' := by
  refine (yields_orElse fun fault u u' h => ?_).trans ?_
  · split at h
    · exact absurd h yields_throw
    · obtain ⟨_, _, -, h⟩ := yields_bind.mp h
      exact absurd (yields_pure.mp h).1 (by decide)
  · rw [yields_bind]
    constructor
    · rintro ⟨_, u, hrun, h⟩
      obtain ⟨-, rfl⟩ := yields_pure.mp h
      exact hrun
    · exact fun hrun => ⟨(), t', hrun, yields_pure.mpr ⟨rfl, rfl⟩⟩

end Command

namespace Invocation

theorem execute_zero {i : Invocation} :
    (i.execute s : Action FileTree UInt32).Yields t 0 t' ↔
      (∃ level, i.log.threshold s = .ok level) ∧
        (i.command.run s : Action FileTree Unit).Yields t () t' := by
  rw [Invocation.execute, yields_bind]
  simp only [Disk.ofExcept_yields, Command.execute_zero]
  constructor
  · rintro ⟨level, _, ⟨hlevel, rfl⟩, h⟩
    exact ⟨⟨level, hlevel⟩, h⟩
  · rintro ⟨⟨level, hlevel⟩, h⟩
    exact ⟨level, t, ⟨hlevel, rfl⟩, h⟩

theorem execute_nonzero {i : Invocation}
    (h : ((i.execute s : Action FileTree UInt32).run t).result ≠ .ok 0) :
    ((i.execute s : Action FileTree UInt32).run t).state = t ∨
      ((i.command.run s : Action FileTree Unit).run t).result ≠ .ok () ∧
      ((i.execute s : Action FileTree UInt32).run t).state =
        ((i.command.run s : Action FileTree Unit).run t).state := by
  have hdef : (i.execute s : Action FileTree UInt32) =
      Disk.ofExcept (i.log.threshold s) >>= fun _ => i.command.execute s := rfl
  cases hlog : i.log.threshold s with
  | error fault =>
    rw [hdef, hlog]
    exact .inl rfl
  | ok level =>
    have hlevel : (Disk.ofExcept (.ok level) >>= fun _ => i.command.execute s :
        Action FileTree UInt32) = i.command.execute s := pure_bind level _
    rw [hdef, hlog, hlevel] at h ⊢
    refine .inr ⟨fun hrun => h ?_, Command.execute_state s i.command t⟩
    exact (Command.execute_zero.mpr ⟨hrun, rfl⟩).1

end Invocation

/-- Fragments stay where they are, whatever a batch puts there. -/
theorem Disk.Ran.fragments {batch done : Disk.Batch} {target p : Path} {suffix : Text}
    {made : FileTree} {ws : List (Place × Bytes)} {place : Place} {names : List Text}
    {paths : List Path} (h : Disk.Ran s batch target suffix t t' made done ws)
    (hfound : t.Fragments p place names paths) : t'.Fragments p place names paths := by
  refine ⟨hfound.paths_eq, hfound.nodup, fun name hname => ?_⟩
  obtain ⟨file, c, he⟩ := hfound.entry name hname
  obtain ⟨d, hd⟩ := h.file he.holds.node
  exact ⟨file, d, he.keeps h.keepsWays hd⟩

namespace Command

/-- The extension of fragments and programs unless another is asked for. -/
def suffixOf (s : Settings) (extension : Option OptionValue) : Text :=
  (extension.bind OptionValue.text?).getD s.extension

def targetOf (directory : Text) : Option Text → Text
  | none | some [] => directory
  | some path => path

def findFragments (s : Settings) (directory : Text) (extension : Option OptionValue) :
    Action FileTree (List Group) :=
  match extension with
  | some .void => Disk.findGroupsBy refuseFile (Path.ofText directory) s.separator
  | _ => Disk.findGroups (Path.ofText directory) (suffixOf s extension) s.separator

def programPath (s : Settings) (directory : Text) (output : Option Text)
    (extension : Option OptionValue) (g : Group) : Path :=
  Disk.outputPath (Path.ofText (targetOf directory output)) (suffixOf s extension) g.name

def batchOf (groups : List Group) : Disk.Batch := groups.map fun g => (g.name, g.paths)

theorem batchOf_sources (groups : List Group) :
    (batchOf groups).flatMap Prod.snd = groups.flatMap Group.paths := by
  rw [batchOf, List.flatMap_map]

theorem runMerge_eq : (runMerge s directory output extension deletes : Action FileTree Unit) =
    findFragments s directory extension >>= fun groups =>
      if groups.isEmpty then
        Disk.log .warning .commandLine s!"No fragment files found in {directory.shown}"
      else mergeGroups s groups (targetOf directory output) (suffixOf s extension) deletes := by
  rcases extension with _ | _ | _ <;> rcases output with _ | _ | _ <;> rfl

theorem takesFiles_refuseFile : Disk.TakesFiles refuseFile := by
  refine ⟨fun p => (readsOnly_isFile p).bind fun isFile => ?_, fun t p t' h => ?_⟩
  · split
    · exact readsOnly_throw _
    · exact readsOnly_pure _
  · obtain ⟨isFile, u, -, h⟩ := yields_bind.mp h
    cases isFile with
    | true => exact absurd h yields_throw
    | false => simp at h

theorem readsOnly_findFragments (s : Settings) (directory : Text) (extension : Option OptionValue) :
    (findFragments s directory extension).ReadsOnly := by
  unfold findFragments
  split
  · exact Disk.readsOnly_findGroupsBy takesFiles_refuseFile _ _
  · exact Disk.readsOnly_findGroupsBy (Disk.takesFiles_isFragmentFile _) _ _

theorem findFragments_yields (ht : t.WellFormed) {groups : List Group}
    (h : (findFragments s directory extension).Yields t groups t') :
    t' = t ∧ ∃ place names,
      t.Fragments (Path.ofText directory) place names ((batchOf groups).flatMap Prod.snd) := by
  rw [batchOf_sources]
  unfold findFragments at h
  split at h
  · exact Disk.findGroupsBy_yields takesFiles_refuseFile ht h
  · exact Disk.findGroupsBy_yields (Disk.takesFiles_isFragmentFile _) ht h

section
variable {groups : List Group} {target suffix : Text} {place : Place} {names : List Text}

theorem printAll_yields {u : PUnit} :
    (groups.forM fun g => print g.name : Action FileTree PUnit).Yields t u t' ↔ t' = t := by
  induction groups with
  | nil => exact ⟨fun h => (yields_pure.mp h).2, fun h => yields_pure.mpr ⟨rfl, h⟩⟩
  | cons g rest ih =>
    rw [forM_cons_yields]
    constructor
    · rintro ⟨u, hprint, hrest⟩
      obtain rfl := yields_report.mp hprint
      exact ih.mp hrest
    · exact fun h => ⟨t, yields_report.mpr rfl, ih.mpr h⟩

theorem mergeGroups_yields :
    (mergeGroups s groups target suffix deletes : Action FileTree Unit).Yields t () t' ↔
      ∃ sources merged, (Disk.mergeBatch s (batchOf groups) (Path.ofText target) suffix :
          Action FileTree (List Path)).Yields t sources merged ∧
        if deletes then
          ∃ n, (Disk.deleteFragments sources : Action FileTree Nat).Yields merged n t'
        else t' = merged := by
  have hdef : (mergeGroups s groups target suffix deletes : Action FileTree Unit) =
      (Disk.mergeBatch s (batchOf groups) (Path.ofText target) suffix :
        Action FileTree (List Path)) >>= fun sources =>
      (groups.forM fun g => print g.name) >>= fun _ =>
        if deletes then Disk.deleteFragments sources >>= fun _ => pure () else pure () := rfl
  rw [hdef, yields_bind]
  refine exists_congr fun sources => exists_congr fun merged => and_congr_right fun _ => ?_
  rw [yields_bind]
  simp only [printAll_yields, exists_eq_left]
  cases deletes with
  | false => simp
  | true =>
    rw [if_pos rfl, if_pos rfl, yields_bind]
    constructor
    · rintro ⟨_, n, u, hdelete, h⟩
      obtain ⟨-, rfl⟩ := yields_pure.mp h
      exact ⟨n, hdelete⟩
    · rintro ⟨n, hdelete⟩
      exact ⟨(), n, t', hdelete, yields_pure.mpr ⟨rfl, rfl⟩⟩

theorem runMerge_yields (h : (findFragments s directory extension).Yields t groups t) :
    (runMerge s directory output extension deletes : Action FileTree Unit).Yields t () t' ↔
      if groups.isEmpty then t' = t
      else (mergeGroups s groups (targetOf directory output) (suffixOf s extension) deletes :
        Action FileTree Unit).Yields t () t' := by
  rw [runMerge_eq, yields_bind]
  have hlog : ∀ message, (Disk.log .warning .commandLine message : Action FileTree Unit).Yields
      t () t' ↔ t' = t := fun _ => yields_report
  constructor
  · rintro ⟨groups', t₁, hfind, hrest⟩
    obtain ⟨rfl, rfl⟩ := hfind.unique h
    split
    · rename_i hempty
      rw [if_pos hempty] at hrest
      exact (hlog _).mp hrest
    · rename_i hempty
      rwa [if_neg hempty] at hrest
  · intro hrest
    refine ⟨groups, t, h, ?_⟩
    split
    · rename_i hempty
      rw [if_pos hempty] at hrest
      exact (hlog _).mpr hrest
    · rename_i hempty
      rwa [if_neg hempty] at hrest

/-- A merge that is refused was refused before anything was deleted. -/
theorem mergeGroups_refused (hg : t.Grounded)
    (hfound : t.Fragments (Path.ofText directory) place names ((batchOf groups).flatMap Prod.snd))
    (h : ((mergeGroups s groups target suffix deletes : Action FileTree Unit).run t).result ≠ .ok ()) :
    ((mergeGroups s groups target suffix deletes : Action FileTree Unit).run t).state =
      ((Disk.mergeBatch s (batchOf groups) (Path.ofText target) suffix :
        Action FileTree (List Path)).run t).state := by
  rcases hmerge : (Disk.mergeBatch s (batchOf groups) (Path.ofText target) suffix :
    Action FileTree (List Path)).run t with ⟨result, merged, reports⟩
  cases result with
  | error fault =>
    have hstate := run_bind_error (fun sources : List Path =>
      (groups.forM fun g => print g.name) >>= fun _ =>
        if deletes then Disk.deleteFragments sources >>= fun _ => pure () else pure ()) hmerge
    exact congrArg Outcome.state hstate
  | ok sources =>
    refine absurd ?_ h
    have hyields : (Disk.mergeBatch s (batchOf groups) (Path.ofText target) suffix :
        Action FileTree (List Path)).Yields t sources merged := ⟨by rw [hmerge], by rw [hmerge]⟩
    obtain ⟨rfl, made, ws, hran⟩ := Disk.mergeBatch_yields hg hyields
    obtain ⟨t', hdelete, -⟩ :=
      Disk.deleteFragments_yields hran.grounded_after (hran.fragments hfound)
    have hrest : ∃ t', if deletes = true then
        ∃ n, (Disk.deleteFragments ((batchOf groups).flatMap Prod.snd) : Action FileTree Nat).Yields
          merged n t'
        else t' = merged := by
      cases deletes with
      | true => exact ⟨t', _, hdelete⟩
      | false => exact ⟨merged, rfl⟩
    obtain ⟨t', hrest⟩ := hrest
    exact (mergeGroups_yields.mpr ⟨_, merged, hyields, hrest⟩).1

end

end Command

theorem Invocation.exists_groups {log : LogChoice}
    (h : (Invocation.execute s ⟨log, .merge directory output extension deletes⟩ :
      Action FileTree UInt32).Yields t 0 t') :
    ∃ groups, (Command.findFragments s directory extension).Yields t groups t := by
  have hrun : (Command.runMerge s directory output extension deletes : Action FileTree Unit).Yields
      t () t' := (execute_zero.mp h).2
  rw [Command.runMerge_eq] at hrun
  obtain ⟨groups, t₁, hfind, -⟩ := yields_bind.mp hrun
  obtain rfl := hfind.readsOnly (Command.readsOnly_findFragments s directory extension)
  exact ⟨groups, hfind⟩

/-- A merge ends with zero just if the groups it finds are merged, and deleted if that is asked. -/
theorem Invocation.execute_merge {log : LogChoice} {groups : List Group}
    (h : (Command.findFragments s directory extension).Yields t groups t) :
    (Invocation.execute s ⟨log, .merge directory output extension deletes⟩ :
        Action FileTree UInt32).Yields t 0 t' ↔
      (∃ level, log.threshold s = .ok level) ∧
        if groups.isEmpty then t' = t
        else (Command.mergeGroups s groups (Command.targetOf directory output)
          (Command.suffixOf s extension) deletes : Action FileTree Unit).Yields t () t' := by
  rw [← Command.runMerge_yields h]
  exact execute_zero

theorem Invocation.execute_of_merge {log : LogChoice} {groups : List Group} {level : Nat}
    (hlevel : log.threshold s = .ok level)
    (hfind : (Command.findFragments s directory extension).Yields t groups t)
    (hne : groups.isEmpty = false)
    (h : ((Command.mergeGroups s groups (Command.targetOf directory output)
      (Command.suffixOf s extension) deletes : Action FileTree Unit).run t).result = .ok ()) :
    (Invocation.execute s ⟨log, .merge directory output extension deletes⟩ :
      Action FileTree UInt32).Yields t 0
        ((Command.mergeGroups s groups (Command.targetOf directory output)
          (Command.suffixOf s extension) deletes : Action FileTree Unit).run t).state := by
  refine (Invocation.execute_merge hfind).mpr ⟨⟨level, hlevel⟩, ?_⟩
  rw [if_neg (by simp [hne])]
  exact yields_of_result h

end PartProgram
