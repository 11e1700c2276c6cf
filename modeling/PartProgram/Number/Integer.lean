import PartProgram.Text.Basic

/-! # Integers in text

An integer is written with an optional sign and decimal digits. Texts of more
than `digitLimit` digits are neither read nor written.
-/
namespace PartProgram.Number

def isDigit (c : Char) : Bool := c.isDigit

def digitLimit : Nat := 4300

def ofDigits (digits : Text) : Nat := Nat.ofDigitChars 10 digits 0

def digits (n : Nat) : Text := Nat.toDigits 10 n

@[simp] theorem ofDigits_digits (n : Nat) : ofDigits (digits n) = n :=
  Nat.ofDigitChars_toDigits (by decide) (by decide)

theorem isDigit_of_mem_digits {n : Nat} {c : Char} (h : c ∈ digits n) : isDigit c = true :=
  Nat.isDigit_of_mem_toDigits (by decide) (by decide) h

theorem digits_ne_nil (n : Nat) : digits n ≠ [] := Nat.toDigits_ne_nil

def text : Int → Text
  | .ofNat n => digits n
  | .negSucc n => '-' :: digits (n + 1)

def digitCount (i : Int) : Nat := (digits i.natAbs).length

/-- `none` for a number that is too long to be written. -/
def text? (i : Int) : Option Text := if digitCount i ≤ digitLimit then some (text i) else none

/-- A sign, if there is one, and what follows it; the flag says minus. -/
def splitSign : Text → Bool × Text
  | '+' :: rest => (false, rest)
  | '-' :: rest => (true, rest)
  | s => (false, s)

def signed (negative : Bool) (n : Nat) : Int := if negative then -(n : Int) else n

/-- The outcome of looking for an integer in a text. -/
inductive Reading where
  | value (i : Int)
  | tooLong (count : Nat)
  | absent
  deriving DecidableEq, Repr

def readDigits (negative : Bool) (ds : Text) : Reading :=
  if ds.isEmpty || !ds.all isDigit then .absent
  else if digitLimit < ds.length then .tooLong ds.length
  else .value (signed negative (ofDigits ds))

def read (s : Text) : Reading :=
  let (negative, ds) := splitSign s
  readDigits negative ds

end PartProgram.Number
