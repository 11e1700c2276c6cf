import PartProgram.Number.Integer

/-! # Decimal fractions

A number written with an optional sign, digits and at most one point, kept
exactly: its digits as one natural number and the count of digits after the point.
-/
namespace PartProgram.Number

structure Decimal where
  negative : Bool
  digits : Nat
  scale : Nat
  deriving DecidableEq, Repr, Inhabited

namespace Decimal

/-- Digits with a point among them, before them, after them, or none. The point alone is no
number. -/
def read? (s : Text) : Option Decimal :=
  let (negative, unsigned) := splitSign s
  let whole := unsigned.takeWhile isDigit
  let fraction? := match unsigned.dropWhile isDigit with
    | [] => some []
    | '.' :: rest => some rest
    | _ => none
  fraction?.bind fun fraction =>
    if !fraction.all isDigit || (whole.isEmpty && fraction.isEmpty) then none
    else some ⟨negative, ofDigits (whole ++ fraction), fraction.length⟩

end Decimal

end PartProgram.Number
