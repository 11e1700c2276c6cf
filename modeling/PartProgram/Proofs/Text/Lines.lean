import PartProgram.Text.Basic

/-! # Lines written and read

A line holds no break. Lines without breaks that are written are read as the same
lines, and a text of no lines as one empty line.
-/
namespace PartProgram.Text

variable {s line : Text} {ls : List Text}

def IsUnbroken (s : Text) : Prop := ∀ c ∈ s, isLineBreak c = false

instance (s : Text) : Decidable (IsUnbroken s) :=
  decidable_of_iff (s.any isLineBreak = false) (by simp [IsUnbroken])

theorem isUnbroken_nil : IsUnbroken [] := by simp [IsUnbroken]

theorem isUnbroken_cons {c : Char} : IsUnbroken (c :: s) ↔ isLineBreak c = false ∧ IsUnbroken s :=
  List.forall_mem_cons

theorem isUnbroken_append {t : Text} : IsUnbroken (s ++ t) ↔ IsUnbroken s ∧ IsUnbroken t :=
  List.forall_mem_append

theorem IsUnbroken.of_subset {t : Text} (ht : IsUnbroken t) (h : s ⊆ t) : IsUnbroken s :=
  fun c hc => ht c (h hc)

theorem IsUnbroken.ne_return {c : Char} (h : isLineBreak c = false) : c ≠ '\r' := by
  rintro rfl
  revert h
  decide

theorem scanLine_of_unbroken {c : Char} (h : isLineBreak c = false) (feed : Bool) :
    scanLine c (line :: ls, feed) = ((c :: line) :: ls, false) := by
  simp [scanLine, IsUnbroken.ne_return h, h]

theorem scanLine_feed (feed : Bool) : scanLine '\n' (ls, feed) = ([] :: ls, true) := by
  have hbreak : isLineBreak '\n' = true := by decide
  simp [scanLine, hbreak]

theorem isUnbroken_scanLine {c : Char} {found : LineScan} (h : ∀ l ∈ found.1, IsUnbroken l) :
    ∀ l ∈ (scanLine c found).1, IsUnbroken l := by
  obtain ⟨lines, feed⟩ := found
  unfold scanLine
  dsimp only
  split
  · exact h
  · split
    · exact List.forall_mem_cons.mpr ⟨isUnbroken_nil, h⟩
    · rename_i hbreak
      have hc : isLineBreak c = false := by simpa using hbreak
      split
      · simpa [isUnbroken_cons, isUnbroken_nil] using hc
      · obtain ⟨hline, hrest⟩ := List.forall_mem_cons.mp h
        exact List.forall_mem_cons.mpr ⟨isUnbroken_cons.mpr ⟨hc, hline⟩, hrest⟩

theorem isUnbroken_of_mem_lines (h : line ∈ lines s) : IsUnbroken line := by
  have key : ∀ l ∈ (s.foldr scanLine ([], false)).1, IsUnbroken l := by
    clear h
    induction s with
    | nil => simp
    | cons c s ih => exact isUnbroken_scanLine ih
  exact key line h

theorem foldr_scanLine (h : IsUnbroken s) (line : Text) (ls : List Text) (feed : Bool) :
    ∃ feed', s.foldr scanLine (line :: ls, feed) = ((s ++ line) :: ls, feed') := by
  induction s with
  | nil => exact ⟨feed, rfl⟩
  | cons c s ih =>
    obtain ⟨hc, hs⟩ := isUnbroken_cons.mp h
    obtain ⟨feed', hscan⟩ := ih hs
    exact ⟨false, by rw [List.foldr_cons, hscan, scanLine_of_unbroken hc, List.cons_append]⟩

theorem ofLines_cons_cons (l m : Text) (ls : List Text) :
    ofLines (l :: m :: ls) = l ++ '\n' :: ofLines (m :: ls) := by
  simp [ofLines, List.intercalate_cons_cons]

theorem lines_ofLines (hne : ls ≠ []) (h : ∀ l ∈ ls, IsUnbroken l) : lines (ofLines ls) = ls := by
  have key : ∃ feed, (ofLines ls).foldr scanLine ([], false) = (ls, feed) := by
    induction ls with
    | nil => exact absurd rfl hne
    | cons l ls ih =>
      obtain ⟨hl, hls⟩ := List.forall_mem_cons.mp h
      cases ls with
      | nil =>
        obtain ⟨feed, hscan⟩ := foldr_scanLine hl [] [] true
        refine ⟨feed, ?_⟩
        rw [show ofLines [l] = l ++ ['\n'] by simp [ofLines], List.foldr_append, List.foldr_cons,
          List.foldr_nil, scanLine_feed, hscan, List.append_nil]
      | cons m ls =>
        obtain ⟨feed, hrest⟩ := ih (by simp) hls
        obtain ⟨feed', hscan⟩ := foldr_scanLine hl [] (m :: ls) true
        refine ⟨feed', ?_⟩
        rw [ofLines_cons_cons, List.foldr_append, List.foldr_cons, hrest, scanLine_feed, hscan,
          List.append_nil]
  obtain ⟨feed, hscan⟩ := key
  rw [lines, hscan]

theorem lines_ofLines_nil : lines (ofLines []) = [[]] := by decide

end PartProgram.Text
