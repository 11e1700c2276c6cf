import PartProgram.Proofs.Batch.Merged
import PartProgram.Proofs.Fragment.Refused

/-! # Refusals on a disk

Work on files is refused by the file system, for a path that names no file, or for what
the programs in the files say. Only where files are told apart as fragments and programs
is it refused for that besides.
-/
namespace PartProgram

open PartProgram.Action

/-- Those that work on several files together can meet. -/
def Fault.ArisesAmong (fault : Fault) : Prop := fault.Arises ∨ fault.kind = .grouping

theorem Fault.ArisesAmong.kind_ne {fault : Fault} (h : fault.ArisesAmong) (hne : ¬ fault.Escapes) :
    fault.kind ≠ .unexpected := by
  rcases h with (h | h | h) | h
  · exact absurd h hne
  all_goals simp [h]

theorem Fault.Arises.not_grouping {fault : Fault} (h : fault.Arises) : fault.kind ≠ .grouping := by
  rcases h with h | h | h
  · simp [h.kind_eq]
  all_goals simp [h]

/-- The action reports no error, and is refused only for faults that can arise among files. -/
abbrev Action.TameAmong {σ α : Type} (a : Action σ α) (s : σ) : Prop :=
  a.Confined (Report.isRoutine · = true) Fault.ArisesAmong s

theorem Action.Tame.among {σ α : Type} {a : Action σ α} {s : σ} (h : a.Tame s) : a.TameAmong s :=
  h.mono fun _ => .inl

namespace FileTree

variable {t : FileTree}

theorem tame_refuse {α : Type} (cause : FileFault) (p : Path) (t : FileTree) :
    (refuse cause p : Action FileTree α).Tame t :=
  confined_throw (Fault.arises_file cause p.text)

theorem tame_nullInPath {α : Type} {k : Unit → Action FileTree α} (p : Path)
    (hk : (k ()).Tame t) :
    (do if p.holdsNull then throw Fault.nullInPath
        k () : Action FileTree α).Tame t := by
  dsimp only
  split
  · exact (confined_throw (.inl .nullInPath)).bind fun _ _ h => absurd h yields_throw
  · exact hk

theorem tame_locate (aim : Aim) (p : Path) (t : FileTree) : (locate aim p).Tame t := by
  refine tame_nullInPath (k := fun _ => _) p (confined_get_bind ?_)
  split
  · exact confined_pure _
  · exact tame_refuse _ p t

theorem tame_find (p : Path) (t : FileTree) : (find p).Tame t := by
  refine confined_get_bind ?_
  split
  · exact confined_pure _
  · exact tame_refuse _ p t

theorem tame_isFile (p : Path) (t : FileTree) : (Disk.isFile p : Action FileTree Bool).Tame t :=
  (tame_find p t).bind fun _ _ _ => confined_pure _

theorem tame_isDirectory (p : Path) (t : FileTree) :
    (Disk.isDirectory p : Action FileTree Bool).Tame t :=
  (tame_find p t).bind fun _ _ _ => confined_pure _

theorem tame_exist (p : Path) (t : FileTree) : (Disk.exist p : Action FileTree Bool).Tame t :=
  (tame_find p t).bind fun _ _ _ => confined_pure _

theorem tame_read (p : Path) (t : FileTree) :
    (Disk.read p : Action FileTree Text.Bytes).Tame t := by
  have hdef : (Disk.read p : Action FileTree Text.Bytes) = read p := rfl
  rw [hdef]
  refine (tame_locate _ p t).bind fun _ u _ => confined_get_bind ?_
  split
  · exact confined_pure _
  · exact tame_refuse _ p u
  · exact tame_refuse _ p u

theorem tame_write (p : Path) (content : Text.Bytes) (t : FileTree) :
    (Disk.write p content : Action FileTree Unit).Tame t := by
  have hdef : (Disk.write p content : Action FileTree Unit) = write p content := rfl
  rw [hdef]
  refine (tame_locate _ p t).bind fun _ u _ => confined_get_bind ?_
  split
  · exact tame_refuse _ p u
  · exact confined_modify _

theorem tame_makeDirectory (p : Path) (t : FileTree) :
    (Disk.makeDirectory p : Action FileTree Unit).Tame t := by
  have hdef : (Disk.makeDirectory p : Action FileTree Unit) = makeDirectory p := rfl
  rw [hdef]
  refine (tame_locate _ p t).bind fun _ u _ => confined_get_bind ?_
  split
  · exact tame_refuse _ p u
  · exact confined_modify _

theorem tame_remove (p : Path) (t : FileTree) :
    (Disk.remove p : Action FileTree Unit).Tame t := by
  have hdef : (Disk.remove p : Action FileTree Unit) = remove p := rfl
  rw [hdef]
  refine (tame_locate _ p t).bind fun _ u _ => confined_get_bind ?_
  split
  · exact tame_refuse _ p u
  · exact tame_refuse _ p u
  · exact confined_modify _

theorem tame_children (p : Path) (t : FileTree) :
    (Disk.children p : Action FileTree (List Text)).Tame t := by
  have hdef : (Disk.children p : Action FileTree (List Text)) = list p := rfl
  rw [hdef]
  refine (tame_locate _ p t).bind fun _ u _ => confined_get_bind ?_
  split
  · exact confined_get.bind fun _ _ _ => confined_pure _
  · exact tame_refuse _ p u
  · exact tame_refuse _ p u

theorem unlessCircle_refused {p : Path} {fault : Fault} (h : t.unlessCircle p = .error fault) :
    fault.Arises := by
  rw [unlessCircle] at h
  split at h
  · cases h
    exact .inl (.linkLoop _)
  · cases h

theorem resolve_refused {depth : Nat} {p : Path} {fault : Fault}
    (h : t.resolve depth p = .error fault) : fault.Arises := by
  rw [resolve] at h
  split at h
  · exact unlessCircle_refused h
  · exact unlessCircle_refused h
  · cases h
    exact .inl .linksTooDeep

theorem tame_resolve (depth : Nat) (p : Path) (t : FileTree) :
    (Disk.resolve depth p : Action FileTree Path).Tame t := by
  have hdef : (Disk.resolve depth p : Action FileTree Path) = resolved depth p := rfl
  rw [hdef]
  refine tame_nullInPath (k := fun _ => _) p (confined_get_bind ?_)
  split
  · exact confined_pure _
  · rename_i hfault
    exact confined_throw (resolve_refused hfault)

end FileTree

namespace Disk

open FileTree

variable {t : FileTree}

theorem tame_ofExcept {α : Type} {e : Except Fault α}
    (h : ∀ fault, e = .error fault → fault.Arises) :
    (Disk.ofExcept e : Action FileTree α).Tame t := by
  cases e with
  | ok x => exact confined_pure x
  | error fault => exact confined_throw (h fault rfl)

theorem tame_log {level : Level} {channel : Channel} {message : String}
    (h : level.rank < Level.error.rank) :
    (Disk.log level channel message : Action FileTree Unit).Tame t :=
  Action.tame_log h

theorem tame_perform {σ α : Type} {a : Action σ α} {s : σ} (h : a.Tame s) :
    (perform a s : Action FileTree (α × σ)).Tame t := by
  refine (confined_report h.reports).bind fun _ _ _ => ?_
  split
  · exact confined_pure _
  · rename_i fault hfault
    exact confined_throw (h.refused fault hfault)

theorem tame_makeDirectoryOnce (p : Path) (t : FileTree) :
    (makeDirectoryOnce p : Action FileTree Unit).Tame t := by
  refine (tame_makeDirectory p t).orElse fun fault u hfault => ?_
  split
  · exact confined_throw hfault
  · refine (tame_isDirectory p u).bind fun isThere _ _ => ?_
    split
    · exact confined_pure _
    · exact confined_throw hfault

theorem tame_makeDirectories (depth : Nat) (p : Path) (t : FileTree) :
    (makeDirectories depth p : Action FileTree Unit).Tame t := by
  induction depth generalizing p t with
  | zero => exact confined_throw (.inl .tooDeep)
  | succ depth ih =>
    refine (tame_makeDirectory p t).orElse fun fault u hfault => ?_
    split
    · split
      · exact confined_throw hfault
      · exact (ih p.parent u).bind fun _ v _ => tame_makeDirectoryOnce p v
    · refine (tame_isDirectory p u).bind fun isThere _ _ => ?_
      split
      · exact confined_pure _
      · exact confined_throw hfault

theorem tame_loadProgram (p : Path) (mark : Option Text) (t : FileTree) :
    (loadProgram p mark : Action FileTree Program).Tame t := by
  refine (tame_isFile p t).bind fun isFile u _ => ?_
  dsimp only
  split
  · exact (tame_log (by decide)).bind fun _ v _ => (tame_read p v).bind fun content _ _ =>
      (tame_perform (Program.tame_readLines _ _)).bind fun _ _ _ => confined_pure _
  · exact (confined_throw (.inr (by simp [Fault.kind]))).bind fun _ _ h => absurd h yields_throw

theorem loadProgram_settled {p : Path} {mark : Option Text} {program : Program} {t' : FileTree}
    (h : (loadProgram p mark : Action FileTree Program).Yields t program t') :
    program.Settled := by
  obtain ⟨⟨_, _, _, hread⟩, -⟩ := loadProgram_yields.mp h
  exact (Program.readLines_yields hread).1

theorem tame_writeProgram (program : Program) (p : Path) (t : FileTree) :
    (writeProgram program p : Action FileTree Unit).Tame t :=
  (tame_write _ _ t).bind fun _ _ _ => tame_log (by decide)

end Disk

theorem Path.withName_refused {p : Path} {name : Text} {fault : Fault}
    (h : p.withName name = .error fault) : fault.Arises := by
  unfold Path.withName at h
  split at h
  · cases h
    exact .inl (.namelessPath _)
  · dsimp only at h
    split at h
    · cases h
      exact .inl (.badName _)
    · cases h

theorem splitFragmentName_refused {separator stem : Text} {fault : Fault}
    (h : splitFragmentName separator stem = .error fault) : fault.Arises := by
  unfold splitFragmentName at h
  split at h
  · cases h
  · split at h
    · cases h
      exact .inl (.longNumeral _)
    · cases h

namespace Disk

open FileTree

variable {t : FileTree} {s : Settings}

theorem tame_firstFree (p : Path) (tries i : Nat) (t : FileTree) :
    (firstFree p tries i : Action FileTree Path).Tame t := by
  induction tries generalizing i t with
  | zero => exact tame_ofExcept fun _ h => Path.withName_refused h
  | succ tries ih =>
    refine (tame_ofExcept fun _ h => Path.withName_refused h).bind fun candidate u _ =>
      (tame_exist candidate u).bind fun _ v _ => ?_
    split
    · exact ih (i + 1) v
    · exact confined_pure _

theorem tame_makeUnique (p : Path) (t : FileTree) :
    (makeUnique p : Action FileTree Path).Tame t := by
  refine (tame_exist p t).bind fun _ u _ => ?_
  split
  · exact (tame_ofExcept fun _ h => Path.withName_refused h).bind fun _ v _ =>
      (tame_children _ v).bind fun _ w _ => tame_firstFree p _ _ w
  · exact confined_pure _

theorem tame_annotateTo (path : Text) {target : Action FileTree Path} (style : Option Text)
    (htarget : ∀ t, target.Tame t) (t : FileTree) :
    (annotateTo s path target style : Action FileTree Path).Tame t :=
  (tame_loadProgram _ _ t).bind fun _ _ _ =>
    (tame_perform (Program.tame_annotate _ _ _)).bind fun _ u _ =>
      (htarget u).bind fun _ v _ => (tame_writeProgram _ _ v).bind fun _ _ _ =>
        (tame_log (by decide)).bind fun _ _ _ => confined_pure _

theorem tame_annotateFile (path : Text) (output style : Option Text) (t : FileTree) :
    (annotateFile s path output style : Action FileTree Path).Tame t := by
  unfold annotateFile
  split
  · exact tame_annotateTo path style (fun _ => confined_pure _) t
  · refine tame_annotateTo path style (fun u => ?_) t
    exact (tame_ofExcept fun _ h => Path.withName_refused h).bind fun _ v _ => tame_makeUnique _ v

theorem tame_gather {isFragment : Path → Action FileTree Bool} (hf : ∀ p t, (isFragment p).Tame t)
    (separator : Text) (groups : List Group) (p : Path) (t : FileTree) :
    (gather isFragment separator groups p).TameAmong t := by
  refine (hf p t).among.bind fun _ u _ => ?_
  split
  · refine (tame_ofExcept fun _ h => splitFragmentName_refused h).among.bind fun _ v _ => ?_
    split
    · exact (tame_log (by decide)).among.bind fun _ _ _ => confined_pure _
    · split
      · exact confined_pure _
      · exact confined_throw (.inr rfl)
  · exact confined_pure _

theorem tame_findGroupsBy {isFragment : Path → Action FileTree Bool}
    (hf : ∀ p t, (isFragment p).Tame t) (directory : Path) (separator : Text) (t : FileTree) :
    (findGroupsBy isFragment directory separator).TameAmong t := by
  refine (tame_isDirectory directory t).among.bind fun _ u _ => ?_
  dsimp only
  split
  · exact (tame_children directory u).among.bind fun _ v _ =>
      (confined_foldlM (fun groups p _ => tame_gather hf separator groups p) [] v).bind
        fun _ _ _ => (tame_log (by decide)).among.bind fun _ _ _ => confined_pure _
  · exact (confined_throw (.inl (.inr (.inl rfl)))).bind fun _ _ h => absurd h yields_throw

theorem tame_isFragmentFile (extension : Text) (p : Path) (t : FileTree) :
    (isFragmentFile extension p : Action FileTree Bool).Tame t := by
  refine (tame_isFile p t).bind fun _ _ _ => ?_
  split <;> exact confined_pure _

theorem tame_loadFragments (paths : List Path) (t : FileTree) :
    (loadFragments s paths : Action FileTree (List Program)).Tame t :=
  confined_mapM (fun p _ u => tame_loadProgram p _ u) t

theorem loadFragments_settled {paths : List Path} {fragments : List Program} {t' : FileTree}
    (h : (loadFragments s paths : Action FileTree (List Program)).Yields t fragments t') :
    ∀ p ∈ fragments, p.Settled := by
  obtain ⟨hall, -⟩ :=
    (ReadsOnly.mapM_yields fun p _ => readsOnly_loadProgram p (some s.toolMark)).mp h
  intro p hp
  obtain ⟨i, hi, rfl⟩ := List.mem_iff_getElem.mp hp
  exact loadProgram_settled (hall.get (hall.length_eq ▸ hi) hi)

theorem tame_mergeGroup (paths : List Path) (output : Path) (t : FileTree) :
    (mergeGroup s paths output : Action FileTree Unit).Tame t :=
  (tame_loadFragments paths t).bind fun _ _ hload =>
    (tame_perform (tame_joinFragments (loadFragments_settled hload) _ _)).bind fun _ u _ =>
      (tame_write output _ u).bind fun _ _ _ => tame_log (by decide)

theorem tame_owners (depth : Nat) (batch : Batch) (t : FileTree) :
    (owners depth batch : Action FileTree (List (Path × Text))).Tame t :=
  (confined_mapM (fun _ _ u => confined_mapM
    (fun p _ v => (tame_resolve depth p v).bind fun _ _ _ => confined_pure _) u) t).bind
      fun _ _ _ => confined_pure _

theorem tame_checkOutputs (depth : Nat) (owners : List (Path × Text))
    (outputs : List (Text × Path)) (t : FileTree) :
    (checkOutputs depth owners outputs : Action FileTree Unit).TameAmong t := by
  refine confined_forM (fun output _ u => (tame_resolve depth output.2 u).among.bind fun _ v _ => ?_)
    t
  split
  · exact confined_pure _
  · exact confined_throw (.inr rfl)

theorem tame_mergeBatch (batch : Batch) (directory : Path) (extension : Text) (t : FileTree) :
    (mergeBatch s batch directory extension : Action FileTree (List Path)).TameAmong t :=
  (tame_makeDirectories _ directory t).among.bind fun _ u _ =>
    (tame_owners _ batch u).among.bind fun _ v _ => (tame_checkOutputs _ _ _ v).bind fun _ w _ =>
      (confined_forM (fun _ _ x => (tame_mergeGroup _ _ x).among) w).bind
        fun _ _ _ => confined_pure _

theorem tame_deleteFragments (paths : List Path) (t : FileTree) :
    (deleteFragments paths : Action FileTree Nat).Tame t :=
  (confined_forM (fun p _ u => tame_remove p u) t).bind fun _ _ _ =>
    (tame_log (by decide)).bind fun _ _ _ => confined_pure _

end Disk

end PartProgram
