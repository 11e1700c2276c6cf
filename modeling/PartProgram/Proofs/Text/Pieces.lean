import PartProgram.Text.Basic
import Mathlib.Data.List.Basic

/-! # Pieces of a text

A text is cut at every separator. Pieces without separators are read back from the text
that has one separator between each two of them.
-/
namespace PartProgram.Text

variable {separator : Char} {s piece : Text}

theorem splitOn_cons_self (separator : Char) (s : Text) :
    splitOn separator (separator :: s) = [] :: splitOn separator s := by
  rw [splitOn, List.foldr_cons, ← splitOn, if_pos rfl]

theorem splitOn_cons_of_ne {c : Char} (h : c ≠ separator) {rest : List Text}
    (hs : splitOn separator s = piece :: rest) :
    splitOn separator (c :: s) = (c :: piece) :: rest := by
  rw [splitOn, List.foldr_cons, ← splitOn, if_neg h, hs]

theorem splitOn_append (h : separator ∉ piece) (s : Text) :
    splitOn separator (piece ++ separator :: s) = piece :: splitOn separator s := by
  induction piece with
  | nil => exact splitOn_cons_self separator s
  | cons c piece ih =>
    obtain ⟨hc, hpiece⟩ := not_or.mp (mt List.mem_cons.mpr h)
    exact splitOn_cons_of_ne (Ne.symm hc) (ih hpiece)

theorem splitOn_of_notMem (h : separator ∉ s) : splitOn separator s = [s] := by
  induction s with
  | nil => rfl
  | cons c s ih =>
    obtain ⟨hc, hs⟩ := not_or.mp (mt List.mem_cons.mpr h)
    exact splitOn_cons_of_ne (Ne.symm hc) (ih hs)

theorem splitOn_intercalate {pieces : List Text} (hne : pieces ≠ [])
    (h : ∀ piece ∈ pieces, separator ∉ piece) :
    splitOn separator ([separator].intercalate pieces) = pieces := by
  induction pieces with
  | nil => exact absurd rfl hne
  | cons piece rest ih =>
    obtain ⟨hpiece, hrest⟩ := List.forall_mem_cons.mp h
    cases rest with
    | nil => simpa using splitOn_of_notMem hpiece
    | cons next rest =>
      rw [List.intercalate_cons_cons]
      rw [List.append_assoc, List.singleton_append, splitOn_append hpiece, ih (by simp) hrest]

theorem mem_splitOn (h : piece ∈ splitOn separator s) : separator ∉ piece := by
  induction s generalizing piece with
  | nil =>
    obtain rfl := List.mem_singleton.mp h
    simp
  | cons c s ih =>
    by_cases hc : c = separator
    · subst hc
      rw [splitOn_cons_self] at h
      rcases List.mem_cons.mp h with rfl | h
      · simp
      · exact ih h
    · cases hs : splitOn separator s with
      | nil =>
        rw [splitOn, List.foldr_cons, ← splitOn, if_neg hc, hs] at h
        obtain rfl := List.mem_singleton.mp h
        simpa using Ne.symm hc
      | cons first rest =>
        rw [splitOn_cons_of_ne hc hs] at h
        rcases List.mem_cons.mp h with rfl | h
        · exact List.not_mem_cons_of_ne_of_not_mem (Ne.symm hc) (ih (by simp [hs]))
        · exact ih (by simp [hs, h])

end PartProgram.Text
