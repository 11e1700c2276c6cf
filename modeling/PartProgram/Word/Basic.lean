import PartProgram.Action
import PartProgram.Cached
import PartProgram.Number.Decimal
import PartProgram.Unicode.Case

/-! # Words

A word is an address, most often a letter, and what follows it, most often a
number. It knows the command word that governs it and the words it governs,
which are named by their place in the graph they belong to.
-/
namespace PartProgram

open Number Unicode

abbrev WordId := Nat

/-- The numbers that what follows an address reads as. -/
structure Numbers where
  int? : Option Int := none
  real? : Option Decimal := none
  deriving DecidableEq, Repr, Inhabited

/-- Blanks around the number do not count. Every integer is a real number too. -/
def Numbers.read (s : Text) : Except Fault Numbers :=
  let number := s.trim
  match Number.read number with
  | .tooLong count => .error (.longNumeral count)
  | .value i => .ok ⟨some i, Decimal.read? number⟩
  | .absent => .ok ⟨none, Decimal.read? number⟩

structure Word where
  address : Char
  rest : Text
  numbers : Numbers
  /-- The word is a whole block kept as it stands. -/
  verbatim : Bool
  governing : Option WordId
  dependents : Array WordId
  description : Cached Text
  deriving Inhabited

namespace Word

def text (w : Word) : Text := w.address :: w.rest

/-- The address in upper case, which may be several characters. -/
def letter (w : Word) : Text := upper w.address

def label (w : Word) : String := s!"GcodeWord({w.text.quoted.shown})"

def int? (w : Word) : Option Int := w.numbers.int?

def real? (w : Word) : Option Decimal := w.numbers.real?

def isCommand (w : Word) : Bool := w.letter = ['G'] || w.letter = ['M']

/-- The words after this one, up to the next that governs, depend on it. -/
def governs (w : Word) : Bool := w.isCommand && !w.verbatim

def isRapid (w : Word) : Bool := w.letter = ['G'] && w.int? = some 0

def ofText (s : Text) (governing : Option WordId) (verbatim : Bool) : Except Fault Word :=
  match s with
  | [] => .error .emptyWord
  | address :: rest =>
    (Numbers.read rest).map fun numbers =>
      ⟨address, rest, numbers, verbatim, governing, #[], .stale⟩

/-- The word under its new text. A number too long to be read is refused only after the text was
taken over, and then neither the numbers nor the description follow it. -/
def setText (w : Word) (s : Text) : Word × Except Fault Unit :=
  match s with
  | [] => (w, .error .emptyWord)
  | address :: rest =>
    let written := { w with address, rest }
    match Numbers.read rest with
    | .error fault => (written, .error fault)
    | .ok numbers => ({ written with numbers, description := .stale }, .ok ())

def numbered (w : Word) (i : Int) : Except Fault Text :=
  match Number.text? i with
  | none => .error .unwritableNumber
  | some number => .ok (w.letter ++ number)

theorem text_ne_nil (w : Word) : w.text ≠ [] := by simp [text]

theorem ofText_eq_ok {s : Text} {governing : Option WordId} {verbatim : Bool} {w : Word}
    (h : ofText s governing verbatim = .ok w) :
    ∃ address rest numbers, s = address :: rest ∧ Numbers.read rest = .ok numbers ∧
      w = ⟨address, rest, numbers, verbatim, governing, #[], .stale⟩ := by
  cases s with
  | nil => simp [ofText] at h
  | cons address rest =>
    cases hr : Numbers.read rest with
    | error fault => simp [ofText, hr, Except.map] at h
    | ok numbers =>
      simp only [ofText, hr, Except.map, Except.ok.injEq] at h
      exact ⟨address, rest, numbers, rfl, hr, h.symm⟩

end Word

/-- All words made so far, in the order of their making. -/
abbrev WordGraph := Array Word

namespace WordGraph

/-- Adds a word and enters it last among the dependents of the word that governs it. -/
def register (g : WordGraph) (w : Word) : WordGraph :=
  let id := g.size
  match w.governing with
  | none => g.push w
  | some command => (g.push w).modify command fun c => { c with dependents := c.dependents.push id }

theorem size_register (g : WordGraph) (w : Word) : (g.register w).size = g.size + 1 := by
  unfold register
  split <;> simp

/-- The first dependent with the given letter, in the order of entry. -/
def dependent? (g : WordGraph) (w : Word) (letter : Text) : Option WordId :=
  w.dependents.find? fun id => g[id]?.map Word.letter = some (upperText letter)

/-- The number of the first dependent with the given letter, if that is an integer. -/
def dependentInt? (g : WordGraph) (w : Word) (letter : Text) : Option Int :=
  (g.dependent? w letter).bind fun id => g[id]?.bind Word.int?

end WordGraph

end PartProgram
