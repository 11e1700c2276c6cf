import PartProgram.Proofs.Number.Integer
import PartProgram.Proofs.Unicode.Upper
import PartProgram.Word.Basic

/-! # Words with a number

A number that can be written is read back behind any letter, and a letter of one
character stays the letter of the word it is written into.
-/
namespace PartProgram

open Unicode

theorem Numbers.read_text {n : Int} (h : Number.digitCount n ≤ Number.digitLimit) :
    Numbers.read (Number.text n) = .ok ⟨some n, some ⟨decide (n < 0), n.natAbs, 0⟩⟩ := by
  simp only [Numbers.read, Number.trim_text, Number.read_text h, Number.decimal_text]

namespace Word

/-- The word with a number behind the letter `c`. It keeps the words it is tied to. -/
def withNumber (v : Word) (c : Char) (n : Int) : Word :=
  { v with
    address := c
    rest := Number.text n
    numbers := ⟨some n, some ⟨decide (n < 0), n.natAbs, 0⟩⟩
    description := .stale }

variable {v : Word} {c : Char} {n : Int}

theorem numbered_eq (hletter : v.letter = [c]) (hn : Number.digitCount n ≤ Number.digitLimit) :
    v.numbered n = .ok (c :: Number.text n) := by
  rw [numbered, Number.text?, if_pos hn, hletter]
  rfl

theorem numbered_refused (hn : ¬ Number.digitCount n ≤ Number.digitLimit) :
    v.numbered n = .error .unwritableNumber := by
  rw [numbered, Number.text?, if_neg hn]

theorem setText_number (v : Word) (c : Char) (hn : Number.digitCount n ≤ Number.digitLimit) :
    v.setText (c :: Number.text n) = (v.withNumber c n, .ok ()) := by
  rw [setText, Numbers.read_text hn]
  rfl

theorem letter_withNumber (hletter : v.letter = [c]) (n : Int) : (v.withNumber c n).letter = [c] :=
  upper_upper hletter

end Word

end PartProgram
