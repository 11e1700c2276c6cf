import PartProgram.Proofs.Batch.Refused
import PartProgram.Proofs.CommandLine.Execution

/-! # Exit codes

A command that is refused ends with the code one and a single error in the log, unless it
is refused for one of the causes that no user is told of. Nothing else stands in the way.
-/
namespace PartProgram

open PartProgram.Action

variable {s : Settings} {t : FileTree} {i : Invocation}

def Fault.entry (fault : Fault) : Report :=
  .log .error .commandLine s!"{fault.kind.title}: {fault.message}"

namespace Command

open FileTree

theorem tame_runAnnotate (file : Text) (output : Option OptionValue) (style : Option Text)
    (t : FileTree) : (runAnnotate s file output style : Action FileTree Unit).Tame t := by
  have hprint : ∀ (line : Text) (u : FileTree),
      (print line : Action FileTree Unit).Tame u := fun _ _ =>
    confined_report (by simp [Report.isRoutine])
  unfold runAnnotate
  dsimp only
  split
  · exact (Disk.tame_annotateTo file style (fun _ => confined_throw (.inl .noOutput)) t).bind
      fun _ u _ => hprint _ u
  · exact (Disk.tame_annotateFile file _ style t).bind fun _ u _ => hprint _ u
  · exact (Disk.tame_annotateFile file none style t).bind fun _ u _ => hprint _ u

theorem tame_refuseFile (p : Path) (t : FileTree) :
    (refuseFile p : Action FileTree Bool).Tame t := by
  refine (tame_isFile p t).bind fun _ _ _ => ?_
  split
  · exact confined_throw (.inl .noExtension)
  · exact confined_pure _

theorem tame_findFragments (directory : Text) (extension : Option OptionValue) (t : FileTree) :
    (findFragments s directory extension).TameAmong t := by
  unfold findFragments
  split
  · exact Disk.tame_findGroupsBy tame_refuseFile _ _ t
  · exact Disk.tame_findGroupsBy (Disk.tame_isFragmentFile _) _ _ t

theorem tame_mergeGroups (groups : List Group) (target suffix : Text) (deletes : Bool)
    (t : FileTree) :
    (mergeGroups s groups target suffix deletes : Action FileTree Unit).TameAmong t := by
  refine (Disk.tame_mergeBatch _ _ _ t).bind fun sources u _ =>
    (confined_forM (fun _ _ _ => confined_report (by simp [Report.isRoutine])) u).bind
      fun _ v _ => ?_
  split
  · exact (Disk.tame_deleteFragments sources v).among.bind fun _ _ _ => confined_pure _
  · exact confined_pure _

theorem tame_run (s : Settings) (c : Command) (t : FileTree) :
    (c.run s : Action FileTree Unit).TameAmong t := by
  cases c with
  | annotate file output style => exact (tame_runAnnotate file output style t).among
  | merge directory output extension deletes =>
    change (runMerge s directory output extension deletes : Action FileTree Unit).TameAmong t
    rw [runMerge_eq]
    refine (tame_findFragments directory extension t).bind fun groups u _ => ?_
    split
    · exact (Disk.tame_log (by decide)).among
    · exact tame_mergeGroups groups _ _ deletes u

variable {c : Command} {t' : FileTree} {reports : List Report} {fault : Fault}

theorem execute_done (h : (c.run s : Action FileTree Unit).run t = ⟨.ok (), t', reports⟩) :
    (c.execute s : Action FileTree UInt32).run t = ⟨.ok 0, t', reports⟩ := by
  have hrun : (c.run s >>= fun _ => pure 0 : Action FileTree UInt32).run t =
      ⟨.ok 0, t', reports⟩ := by
    rw [run_bind_ok _ h]
    simp
  exact run_orElse_ok hrun

theorem execute_refused
    (h : (c.run s : Action FileTree Unit).run t = ⟨.error fault, t', reports⟩) :
    (c.execute s : Action FileTree UInt32).run t =
      if fault.kind = .unexpected then ⟨.error fault, t', reports⟩
      else ⟨.ok 1, t', reports ++ [fault.entry]⟩ := by
  have hrun : (c.run s >>= fun _ => pure 0 : Action FileTree UInt32).run t =
      ⟨.error fault, t', reports⟩ := run_bind_error _ h
  refine (run_orElse_error hrun).trans ?_
  rw [Fault.entry]
  cases fault.kind with
  | unexpected => simp
  | _ => rfl

end Command

namespace Invocation

/-- Why what was asked for was not done, if it was not. -/
def failure? (s : Settings) (i : Invocation) (t : FileTree) : Option Fault :=
  match i.log.threshold s with
  | .error fault => some fault
  | .ok _ =>
    match ((i.command.run s : Action FileTree Unit).run t).result with
    | .error fault => some fault
    | .ok _ => none

def outcome (s : Settings) (i : Invocation) (t : FileTree) : Outcome FileTree UInt32 :=
  (i.execute s : Action FileTree UInt32).run t

/-- The exit code is zero or one, one just if it failed, and the log has the one error that caused
that. -/
structure IsTold (s : Settings) (i : Invocation) (t : FileTree) : Prop where
  code : (i.outcome s t).result = .ok 0 ∨ (i.outcome s t).result = .ok 1
  failed : (i.outcome s t).result = .ok 1 ↔ (i.failure? s t).isSome = true
  errors : (i.outcome s t).reports.filter (!·.isRoutine) =
    ((i.failure? s t).map Fault.entry).toList

theorem isRoutine_entry (fault : Fault) : fault.entry.isRoutine = false := by
  simp [Fault.entry, Report.isRoutine]

theorem filter_routine {reports : List Report} (h : ∀ r ∈ reports, r.isRoutine = true) :
    reports.filter (!·.isRoutine) = [] :=
  List.filter_eq_nil_iff.mpr fun r hr => by simp [h r hr]

theorem threshold_refused {c : LogChoice} {fault : Fault} (h : c.threshold s = .error fault) :
    fault.Escapes := by
  unfold LogChoice.threshold at h
  split at h
  · cases h
  · split at h
    · cases h
    · unfold Settings.threshold at h
      split at h
      · cases h
        exact .notALevel _
      · cases h
  all_goals cases h

theorem failure?_arises {fault : Fault} (h : i.failure? s t = some fault) :
    fault.ArisesAmong := by
  unfold failure? at h
  split at h
  · rename_i hlevel
    obtain rfl := Option.some.inj h
    exact .inl (.inl (threshold_refused hlevel))
  · split at h
    · rename_i hrun
      obtain rfl := Option.some.inj h
      exact (Command.tame_run s i.command t).refused _ hrun
    · cases h

/-- Without a failure the code is zero and the log has no error. With one, that either has a code
and an entry, or it is passed on. -/
theorem outcome_eq (s : Settings) (i : Invocation) (t : FileTree) :
    ∃ reports t', (∀ r ∈ reports, r.isRoutine = true) ∧ i.outcome s t =
      match i.failure? s t with
      | none => ⟨.ok 0, t', reports⟩
      | some fault =>
        if fault.kind = .unexpected then ⟨.error fault, t', reports⟩
        else ⟨.ok 1, t', reports ++ [fault.entry]⟩ := by
  have hdef : (i.execute s : Action FileTree UInt32) =
      Disk.ofExcept (i.log.threshold s) >>= fun _ => i.command.execute s := rfl
  rw [outcome, hdef, failure?]
  cases hlevel : i.log.threshold s with
  | error fault =>
    refine ⟨[], t, by simp, ?_⟩
    dsimp only
    rw [if_pos (threshold_refused hlevel).kind_eq]
    rfl
  | ok level =>
    have hrest : (Disk.ofExcept (.ok level) >>= fun _ => i.command.execute s :
        Action FileTree UInt32) = i.command.execute s := pure_bind level _
    rw [hrest]
    have hreports := (Command.tame_run s i.command t).reports
    rcases hrun : (i.command.run s : Action FileTree Unit).run t with ⟨result, t', reports⟩
    rw [hrun] at hreports
    refine ⟨reports, t', hreports, ?_⟩
    cases result with
    | ok _ => exact Command.execute_done hrun
    | error fault => exact Command.execute_refused hrun

/-- Failures are told of by the exit code and the log, except for those that escape. -/
theorem isTold_iff (s : Settings) (i : Invocation) (t : FileTree) :
    i.IsTold s t ↔ ∀ fault, i.failure? s t = some fault → ¬ fault.Escapes := by
  obtain ⟨reports, t', hreports, houtcome⟩ := outcome_eq s i t
  constructor
  · rintro ⟨hcode, -, -⟩ fault hfault hescapes
    rw [houtcome, hfault] at hcode
    simp [hescapes.kind_eq] at hcode
  · intro hnone
    cases hfailure : i.failure? s t with
    | none =>
      rw [hfailure] at houtcome
      refine ⟨.inl (by rw [houtcome]), ?_, ?_⟩
      · rw [houtcome, hfailure]
        simp
      · rw [houtcome, hfailure]
        exact filter_routine hreports
    | some fault =>
      have hkind : fault.kind ≠ .unexpected :=
        (failure?_arises hfailure).kind_ne (hnone fault hfailure)
      rw [hfailure] at houtcome
      simp only [if_neg hkind] at houtcome
      refine ⟨.inr (by rw [houtcome]), ?_, ?_⟩
      · rw [houtcome, hfailure]
        simp
      · rw [houtcome, hfailure, List.filter_append, filter_routine hreports]
        simp [isRoutine_entry]

/-- A program, and a directory where its copy is asked for. -/
def takenTree : FileTree where
  entries := [(["a.nc".toList], .file (Text.encode "G0\n".toList)), (["d".toList], .directory)]

/-- The file system does not write a file in the place of a directory, and no user is told. -/
theorem untold_directory :
    ofArguments (["annotate", "a.nc", "-o", "d"].map String.toList) =
        .ok ⟨{}, .annotate "a.nc".toList (some (.text "d".toList)) none⟩ ∧
      ¬ IsTold {} ⟨{}, .annotate "a.nc".toList (some (.text "d".toList)) none⟩ takenTree := by
  refine ⟨by decide +kernel, fun h => ?_⟩
  have hcode := h.code
  revert hcode
  decide +kernel

end Invocation

end PartProgram
