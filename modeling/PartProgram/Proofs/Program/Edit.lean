import Mathlib.Data.List.Nodup
import Mathlib.Data.List.Perm.Basic
import PartProgram.Program.Edit
import PartProgram.Proofs.Program.Settled
import PartProgram.Proofs.Word.Numbered

/-! # Edits that succeed

Each edit of the sequence changes it as a list and reads the program again, so a
settled program stays settled and no text changes. An edit of a word changes that word
alone.
-/
namespace PartProgram

section
variable {α : Type} {l pre mid post : List α} {a : α} {i j : Nat}

theorem exists_split_of_getElem? (h : l[i]? = some a) :
    ∃ pre post, l = pre ++ a :: post ∧ pre.length = i := by
  obtain ⟨hi, rfl⟩ := List.getElem?_eq_some_iff.mp h
  refine ⟨l.take i, l.drop (i + 1), ?_, List.length_take_of_le (Nat.le_of_lt hi)⟩
  rw [← List.drop_eq_getElem_cons hi, List.take_append_drop]

theorem eraseIdx_split (pre post : List α) (a : α) :
    (pre ++ a :: post).eraseIdx pre.length = pre ++ post := by
  simp [List.eraseIdx_append_of_length_le]

theorem insertIdx_split (pre post : List α) (a : α) :
    (pre ++ post).insertIdx pre.length a = pre ++ a :: post := by
  induction pre with
  | nil => simp
  | cons b pre ih => simpa using ih

theorem getElem?_split (pre post : List α) (a : α) : (pre ++ a :: post)[pre.length]? = some a := by
  simp

theorem moveItem_forward (pre mid post : List α) (a : α) :
    moveItem pre.length (pre.length + 1 + mid.length) (pre ++ a :: (mid ++ post)) =
      pre ++ (mid ++ a :: post) := by
  rw [moveItem, getElem?_split]
  simp only [eraseIdx_split]
  rw [if_pos (by omega), show pre.length + 1 + mid.length - 1 = (pre ++ mid).length by
    rw [List.length_append]; omega, ← List.append_assoc, insertIdx_split, List.append_assoc]

theorem moveItem_backward (pre mid post : List α) (a : α) :
    moveItem (pre.length + mid.length) pre.length (pre ++ (mid ++ a :: post)) =
      pre ++ a :: (mid ++ post) := by
  have hget : (pre ++ (mid ++ a :: post))[pre.length + mid.length]? = some a := by
    rw [← List.append_assoc, ← List.length_append]
    exact getElem?_split _ _ _
  rw [moveItem, hget]
  simp only
  rw [if_neg (by omega), ← List.append_assoc, ← List.length_append, eraseIdx_split,
    List.append_assoc, insertIdx_split]

theorem moveItem_eq_self (h : j = i ∨ j = i + 1) : moveItem i j l = l := by
  cases hl : l[i]? with
  | none => simp only [moveItem, hl]
  | some a =>
    obtain ⟨pre, post, rfl, rfl⟩ := exists_split_of_getElem? hl
    rcases h with rfl | rfl
    · exact moveItem_backward pre [] post a
    · exact moveItem_forward pre [] post a

theorem moveItem_perm (hj : j ≤ l.length) : (moveItem i j l).Perm l := by
  cases hl : l[i]? with
  | none => simp only [moveItem, hl, List.Perm.refl]
  | some a =>
    obtain ⟨hi, rfl⟩ := List.getElem?_eq_some_iff.mp hl
    simp only [moveItem, hl]
    refine (List.perm_insertIdx _ _ ?_).trans (List.getElem_cons_eraseIdx_perm hi)
    rw [List.length_eraseIdx_of_lt hi]
    split <;> omega

end

namespace Program

variable {p p' : Program} {id : BlockId} {index target : Int} {u : Unit} {i : Nat}

theorem yields_checkIndex :
    (checkIndex index).Yields p i p' ↔ (0 ≤ index ∧ index < p.length) ∧ i = index.toNat ∧
      p' = p := by
  simp only [checkIndex, Action.yields_bind, Action.yields_get, and_assoc, exists_and_left,
    exists_eq_left]
  split
  · simp_all
  · rename_i hindex
    simp only [Action.yields_throw, false_iff]
    exact fun h => hindex ⟨h.1, h.2.1⟩

theorem yields_indexOf :
    (indexOf id).Yields p i p' ↔ p.order.idxOf? id = some i ∧ p' = p := by
  simp only [indexOf, Action.yields_bind, Action.yields_get, and_assoc, exists_and_left,
    exists_eq_left]
  cases p.order.idxOf? id with
  | none => simp
  | some j => simp [eq_comm]

theorem split_of_idxOf? {l : List BlockId} (h : l.idxOf? id = some i) :
    ∃ pre post, l = pre ++ id :: post ∧ pre.length = i := by
  apply exists_split_of_getElem?
  rw [List.idxOf?_eq_some_iff] at h
  obtain ⟨hi, hid, -⟩ := h
  rw [List.getElem?_eq_getElem hi, hid]

theorem idxOf?_split {l pre post : List BlockId} (hl : l = pre ++ id :: post) (hn : l.Nodup) :
    l.idxOf? id = some pre.length := by
  subst hl
  rw [List.idxOf?_eq_some_iff]
  refine ⟨by simp, by simp, fun j hj => ?_⟩
  rw [List.getElem_append_left hj]
  have hdisjoint := (List.nodup_append.mp hn).2.2
  exact fun heq => hdisjoint _ (List.getElem_mem hj) id List.mem_cons_self (by simpa using heq)

theorem reorder_yields {order : List BlockId} (hs : ∀ id ∈ order, id < p.store.size)
    (hn : order.Nodup) (h : reread.Yields { p with order } u p') :
    Rereads { p with order } p' ∧ p'.Settled :=
  reread_yields (p := { p with order }) hs hn h

theorem moveBlock_yields (hp : p.Settled) (h : (moveBlock index target).Yields p u p') :
    Rereads { p with order := moveItem index.toNat target.toNat p.order } p' ∧ p'.Settled := by
  simp only [moveBlock, Action.yields_bind, yields_checkIndex, Action.yields_get, and_assoc,
    exists_and_left, exists_eq_left] at h
  obtain ⟨hpos, hlt, h⟩ := h
  by_cases htarget : 0 ≤ target ∧ target ≤ (p.length : Int)
  · rw [if_pos htarget] at h
    split at h
    · rename_i hsame
      rw [Action.yields_pure] at h
      obtain ⟨-, rfl⟩ := h
      rw [moveItem_eq_self (by omega)]
      exact ⟨.refl _, hp⟩
    · simp only [Action.yields_bind, Action.yields_modify, exists_eq_left, exists_const] at h
      have hperm : (moveItem index.toNat target.toNat p.order).Perm p.order :=
        moveItem_perm (by have := htarget.2; simp only [length] at this; omega)
      refine reorder_yields (fun id hid => ?_) (hperm.nodup_iff.mpr hp.nodup) h
      exact hp.reads.stored id (hperm.mem_iff.mp hid)
  · simp [htarget] at h

theorem replaceBlock_yields (hs : ∀ id ∈ p.order, id < p.store.size)
    (hid : id < p.store.size) (hn : (p.order.set index.toNat id).Nodup)
    (h : (replaceBlock index id).Yields p u p') :
    Rereads { p with order := p.order.set index.toNat id } p' ∧ p'.Settled := by
  simp only [replaceBlock, Action.yields_bind, yields_checkIndex, Action.yields_modify, and_assoc,
    exists_and_left, exists_eq_left, exists_const] at h
  refine reorder_yields (fun i hi => ?_) hn h.2.2
  rcases List.mem_or_eq_of_mem_set hi with hi | rfl
  · exact hs i hi
  · exact hid

theorem replaceAdded_yields {text : Text} {c : Option WordId} {p₁ : Program} (hp : p.Settled)
    (hadd : (addBlock text c).Yields p id p₁) (h : (replaceBlock i id).Yields p₁ u p') :
    p'.order = p.order.set i id ∧ (p'.block id).text = text ∧
      (∀ j ∈ p.order, (p'.block j).text = (p.block j).text) ∧
      p'.sections.map Sections.toolMark = p.sections.map Sections.toolMark ∧ p'.Settled := by
  obtain ⟨hadds, hreads⟩ := addBlock_yields hp.reads hadd
  have hstored : ∀ j ∈ p₁.order, j < p₁.store.size := fun j hj =>
    hreads.stored j (List.mem_cons_of_mem _ (hadds.order ▸ hj))
  have hn : (p₁.order.set i id).Nodup := by
    rw [hadds.order]
    exact hp.nodup.set (hadds.notMem hp.reads.stored)
  obtain ⟨hsame, hsettled⟩ :=
    replaceBlock_yields hstored (hreads.stored id List.mem_cons_self)
      (by rwa [Int.toNat_natCast]) h
  refine ⟨?_, (hsame.text id).trans hadds.text_eq, fun j hj => ?_, ?_, hsettled⟩
  · rw [hsame.order, Int.toNat_natCast, hadds.order]
  · exact (hsame.text j).trans (hadds.text j (hp.reads.stored j hj))
  · exact hsame.mark.trans (by rw [hadds.sections])

theorem removeBlock_yields (hp : p.Settled) (h : (removeBlock index).Yields p u p') :
    Rereads { p with order := p.order.eraseIdx index.toNat } p' ∧ p'.Settled := by
  simp only [removeBlock, Action.yields_bind, yields_checkIndex, Action.yields_modify, and_assoc,
    exists_and_left, exists_eq_left, exists_const] at h
  have hsub := List.eraseIdx_sublist p.order index.toNat
  exact reorder_yields (fun i hi => hp.reads.stored i (hsub.subset hi)) (hp.nodup.sublist hsub)
    h.2.2

section
variable {w : WordId} {v : Word} {c : Char} {n : Int} {s : Text}

theorem getElem?_modifyWord (hw : p.graph[w]? = some v) (f : Word → Word) :
    (p.modifyWord w f).graph[w]? = some (f v) := by
  simp only [modifyWord, Array.getElem?_modify, if_true, hw, Option.map_some]

theorem getElem?_modifyWord_of_ne {u : WordId} (hu : u ≠ w) (f : Word → Word) :
    (p.modifyWord w f).graph[u]? = p.graph[u]? := by
  simp only [modifyWord, Array.getElem?_modify, if_neg (Ne.symm hu)]

theorem modifyWord_modifyWord (p : Program) (w : WordId) (f g : Word → Word) :
    (p.modifyWord w f).modifyWord w g = p.modifyWord w fun v => g (f v) := by
  have hsame : (p.graph.modify w f).modify w g = p.graph.modify w fun v => g (f v) := by
    refine Array.ext_getElem? fun i => ?_
    simp only [Array.getElem?_modify]
    split
    · rw [Option.map_map]
      rfl
    · rfl
  exact congrArg (fun graph => { p with graph }) hsame

theorem setWordText_run (hw : p.graph[w]? = some v) (s : Text) :
    (setWordText w s).run p = ⟨(v.setText s).2, p.modifyWord w fun _ => (v.setText s).1, []⟩ := by
  rw [setWordText, Action.run_bind_ok _ (Action.run_get p), hw]
  dsimp only
  rw [Action.run_bind_ok _ (Action.run_modify _ _)]
  cases (v.setText s).2 <;> rfl

theorem setWordText_absent (hw : p.graph[w]? = none) (s : Text) :
    (setWordText w s).run p = ⟨.ok (), p, []⟩ := by
  rw [setWordText, Action.run_bind_ok _ (Action.run_get p), hw]
  rfl

theorem setWordInt_written (hw : p.graph[w]? = some v) (hs : v.numbered n = .ok s) :
    (setWordInt w n).run p = (setWordText w s).run p := by
  rw [setWordInt, Action.run_bind_ok _ (Action.run_get p), hw]
  dsimp only
  rw [hs]
  rfl

theorem setWordInt_refused {fault : Fault} (hw : p.graph[w]? = some v)
    (hs : v.numbered n = .error fault) : (setWordInt w n).run p = ⟨.error fault, p, []⟩ := by
  rw [setWordInt, Action.run_bind_ok _ (Action.run_get p), hw]
  dsimp only
  rw [hs]
  rfl

theorem setWordInt_absent (hw : p.graph[w]? = none) (n : Int) :
    (setWordInt w n).run p = ⟨.ok (), p, []⟩ := by
  rw [setWordInt, Action.run_bind_ok _ (Action.run_get p), hw]
  rfl

theorem setWordInt_run (hw : p.graph[w]? = some v) (hletter : v.letter = [c])
    (hn : Number.digitCount n ≤ Number.digitLimit) :
    (setWordInt w n).run p = ⟨.ok (), p.modifyWord w fun _ => v.withNumber c n, []⟩ := by
  rw [setWordInt_written hw (Word.numbered_eq hletter hn), setWordText_run hw,
    v.setText_number c hn]

/-- A word whose letter is one character takes every number that can be written. -/
theorem setWordInt_yields_iff (hw : p.graph[w]? = some v) (hletter : v.letter = [c]) :
    (setWordInt w n).Yields p u p' ↔ Number.digitCount n ≤ Number.digitLimit ∧
      p' = p.modifyWord w fun _ => v.withNumber c n := by
  by_cases hn : Number.digitCount n ≤ Number.digitLimit
  · simp only [Action.Yields, setWordInt_run hw hletter hn, hn, true_and, eq_comm]
  · simp [Action.Yields, setWordInt_refused hw (Word.numbered_refused hn), hn]

end

end Program

end PartProgram
