import PartProgram.Number.Decimal
import PartProgram.Unicode.Letter
import PartProgram.Proofs.Text.Trim

/-! # Integers written and read

A written integer holds digits and a sign, neither of which is blank or a letter,
and is read as itself.
-/
namespace PartProgram

open Unicode

theorem isBlank_of_isDigit {c : Char} (h : Number.isDigit c = true) : isBlank c = false := by
  have hc : 48 ≤ c.toNat ∧ c.toNat ≤ 57 := by
    simpa [Number.isDigit, Char.isDigit, UInt32.le_iff_toNat_le] using h
  simp only [isBlank, blankRanges, Ranges.covers]
  grind

theorem isLetter_of_isDigit {c : Char} (h : Number.isDigit c = true) : isLetter c = false := by
  have hc : 48 ≤ c.toNat ∧ c.toNat ≤ 57 := by
    simpa [Number.isDigit, Char.isDigit, UInt32.le_iff_toNat_le] using h
  obtain ⟨rest, hr⟩ : ∃ rest, letterRanges = (0x41, 0x5A) :: rest := ⟨_, rfl⟩
  rw [isLetter, hr, Ranges.covers, if_pos (by omega)]

namespace Number

theorem mem_digits_of_isDigit {c : Char} (h : isDigit c = true) : c ∈ "0123456789".toList := by
  have hc : 48 ≤ c.toNat ∧ c.toNat ≤ 57 := by
    simpa [isDigit, Char.isDigit, UInt32.le_iff_toNat_le] using h
  have key : ∀ n < 58, 48 ≤ n → Char.ofNat n ∈ "0123456789".toList := by decide
  simpa using key c.toNat (by omega) hc.1

theorem mem_text {n : Int} {c : Char} (h : c ∈ text n) : c = '-' ∨ isDigit c = true := by
  cases n with
  | ofNat n => exact Or.inr (isDigit_of_mem_digits h)
  | negSucc n =>
    rcases List.mem_cons.mp h with rfl | h
    · exact Or.inl rfl
    · exact Or.inr (isDigit_of_mem_digits h)

theorem trim_text (n : Int) : (text n).trim = text n := by
  refine Text.trim_eq_self fun c hc => ?_
  rcases mem_text hc with rfl | hc
  · decide
  · exact isBlank_of_isDigit hc

theorem readDigits_digits (negative : Bool) {n : Nat} (h : (digits n).length ≤ digitLimit) :
    readDigits negative (digits n) = .value (signed negative n) := by
  have hall : (digits n).all isDigit = true :=
    List.all_eq_true.mpr fun c hc => isDigit_of_mem_digits hc
  have hne : (digits n).isEmpty = false := by simpa using digits_ne_nil n
  rw [readDigits, hall, hne, if_neg (by simp), if_neg (Nat.not_lt.mpr h), ofDigits_digits]

theorem splitSign_digits (n : Nat) : splitSign (digits n) = (false, digits n) := by
  have hdigits : ∀ c ∈ digits n, isDigit c = true := fun c hc => isDigit_of_mem_digits hc
  cases hd : digits n with
  | nil => rfl
  | cons c rest =>
    have hc := hdigits c (hd ▸ List.mem_cons_self)
    unfold splitSign
    split
    · rename_i heq
      cases heq
      exact absurd hc (by decide)
    · rename_i heq
      cases heq
      exact absurd hc (by decide)
    · rfl

theorem read_text {n : Int} (h : digitCount n ≤ digitLimit) : read (text n) = .value n := by
  cases n with
  | ofNat n =>
    rw [read, text, splitSign_digits]
    exact readDigits_digits false h
  | negSucc n =>
    exact readDigits_digits true h

theorem decimal_digits {s : Text} {negative : Bool} {k : Nat}
    (h : splitSign s = (negative, digits k)) : Decimal.read? s = some ⟨negative, k, 0⟩ := by
  have hwhole : (digits k).takeWhile isDigit = digits k :=
    List.takeWhile_eq_self_iff.mpr fun c => isDigit_of_mem_digits
  have hbehind : (digits k).dropWhile isDigit = [] :=
    List.dropWhile_eq_nil_iff.mpr fun c => isDigit_of_mem_digits
  simp only [Decimal.read?, h, hwhole, hbehind, Option.bind_some]
  simp [digits_ne_nil]

theorem decimal_text (n : Int) :
    Decimal.read? (text n) = some ⟨decide (n < 0), n.natAbs, 0⟩ := by
  cases n with
  | ofNat k =>
    have hsign : ¬ Int.ofNat k < 0 := Int.not_lt.mpr (Int.natCast_nonneg k)
    rw [decide_eq_false hsign]
    exact decimal_digits (splitSign_digits k)
  | negSucc k =>
    rw [decide_eq_true (Int.negSucc_lt_zero k)]
    exact decimal_digits rfl

end Number

end PartProgram
