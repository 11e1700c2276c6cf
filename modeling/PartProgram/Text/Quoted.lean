import PartProgram.Text.Basic
import PartProgram.Unicode.Printable

/-! # Quoted text

Text as messages show it: between quotes, on one line, with hidden characters
written as their code point in hexadecimal.
-/
namespace PartProgram.Text

open Unicode

def hex (width n : Nat) : Text :=
  let digits := Nat.toDigits 16 n
  List.replicate (width - digits.length) '0' ++ digits

/-- Two, four or eight digits, the least that hold the code point. -/
def escapeCode (n : Nat) : Text :=
  if n < 0x100 then '\\' :: 'x' :: hex 2 n
  else if n < 0x10000 then '\\' :: 'u' :: hex 4 n
  else '\\' :: 'U' :: hex 8 n

def escape (quote c : Char) : Text :=
  if c = quote ∨ c = '\\' then ['\\', c]
  else if c = '\n' then ['\\', 'n']
  else if c = '\r' then ['\\', 'r']
  else if c = '\t' then ['\\', 't']
  else if isPrintable c then [c]
  else escapeCode c.toNat

/-- Single quotes, unless the text holds one and no double quote. -/
def quoteFor (s : Text) : Char := if '\'' ∈ s ∧ '"' ∉ s then '"' else '\''

def quoted (s : Text) : Text :=
  let quote := quoteFor s
  quote :: s.flatMap (escape quote) ++ [quote]

end PartProgram.Text
