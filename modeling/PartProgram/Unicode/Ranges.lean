/-! # Sorted ranges of code points

A table lists disjoint closed ranges in ascending order, so a look-up may stop at
the first range that begins beyond the code point.
-/
namespace PartProgram.Unicode

abbrev Ranges := List (Nat × Nat)

namespace Ranges

def covers : Ranges → Nat → Bool
  | [], _ => false
  | (low, high) :: rest, n => if n < low then false else n ≤ high || covers rest n

/-- Every range is non-empty and ends before the next one begins. -/
def Ascending : Ranges → Prop
  | [] => True
  | [(low, high)] => low ≤ high
  | (low, high) :: (low', high') :: rest =>
    low ≤ high ∧ high < low' ∧ Ascending ((low', high') :: rest)

theorem Ascending.tail {r : Nat × Nat} {rs : Ranges} (h : Ascending (r :: rs)) : Ascending rs := by
  cases rs with
  | nil => trivial
  | cons s rest => exact h.2.2

theorem Ascending.low_le {r : Nat × Nat} {rs : Ranges} (h : Ascending (r :: rs)) :
    ∀ s ∈ rs, r.2 < s.1 := by
  induction rs generalizing r with
  | nil => simp
  | cons s rest ih =>
    intro t ht
    rcases List.mem_cons.mp ht with rfl | ht
    · exact h.2.1
    · have hs : s.1 ≤ s.2 := by
        cases rest with
        | nil => exact h.2.2
        | cons => exact h.2.2.1
      have := ih h.2.2 t ht
      have := h.2.1
      omega

theorem covers_iff {rs : Ranges} (h : Ascending rs) (n : Nat) :
    covers rs n = true ↔ ∃ r ∈ rs, r.1 ≤ n ∧ n ≤ r.2 := by
  induction rs with
  | nil => simp [covers]
  | cons r rest ih =>
    by_cases hn : n < r.1
    · have hlow : r.1 ≤ r.2 := by
        cases rest with
        | nil => exact h
        | cons => exact h.1
      have hrest : ∀ s ∈ rest, ¬ s.1 ≤ n := fun s hs => by have := h.low_le s hs; omega
      simp only [covers, hn, if_true, List.mem_cons, exists_eq_or_imp, Bool.false_eq_true,
        false_iff]
      rintro (h | ⟨s, hs, h, -⟩)
      · omega
      · exact hrest s hs h
    · simp only [covers, hn, if_false, Bool.or_eq_true, decide_eq_true_eq, ih h.tail, List.mem_cons,
        exists_eq_or_imp]
      constructor
      · rintro (h | h)
        · exact Or.inl ⟨by omega, h⟩
        · exact Or.inr h
      · rintro (h | h)
        · exact Or.inl h.2
        · exact Or.inr h

end Ranges

end PartProgram.Unicode
