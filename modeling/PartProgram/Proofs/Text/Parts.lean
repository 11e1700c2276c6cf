import PartProgram.Text.Basic
import Mathlib.Data.List.Infix

/-! # Parts of a text

A part is a run of neighbouring characters. A part that does not hold the character
between two texts lies in one of them.
-/
namespace PartProgram.Text

variable {α : Type}

theorem prefix_of_prefix_append_cons {x : α} {m a b : List α} (hx : x ∉ m)
    (h : m <+: a ++ x :: b) : m <+: a := by
  induction a generalizing m with
  | nil =>
    cases m with
    | nil => exact List.nil_prefix
    | cons c m =>
      have hc : c = x := (List.cons_prefix_cons.mp h).1
      exact absurd (hc ▸ List.mem_cons_self) hx
  | cons d a ih =>
    cases m with
    | nil => exact List.nil_prefix
    | cons c m =>
      obtain ⟨rfl, hm⟩ := List.cons_prefix_cons.mp h
      exact List.cons_prefix_cons.mpr ⟨rfl, ih (fun hc => hx (List.mem_cons_of_mem _ hc)) hm⟩

theorem infix_append_cons {x : α} {m a b : List α} (hx : x ∉ m) :
    m <:+: a ++ x :: b ↔ m <:+: a ∨ m <:+: b := by
  constructor
  · induction a with
    | nil =>
      intro h
      rcases List.infix_cons_iff.mp h with h | h
      · exact Or.inl (prefix_of_prefix_append_cons (a := []) hx h).isInfix
      · exact Or.inr h
    | cons c a ih =>
      intro h
      rcases List.infix_cons_iff.mp h with h | h
      · exact Or.inl (prefix_of_prefix_append_cons (a := c :: a) hx h).isInfix
      · rcases ih h with h | h
        · exact Or.inl (List.infix_cons h)
        · exact Or.inr h
  · rintro (h | h)
    · exact h.trans (List.prefix_append _ _).isInfix
    · exact h.trans ((List.suffix_cons x b).trans (List.suffix_append a (x :: b))).isInfix

theorem hasPart_iff {s part : Text} : hasPart s part = true ↔ part <:+: s := by
  induction s with
  | nil => simp [hasPart]
  | cons c s ih => simp [hasPart, ih, List.infix_cons_iff]

end PartProgram.Text
