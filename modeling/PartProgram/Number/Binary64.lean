import PartProgram.Number.Decimal

/-! # Binary floating point

The nearest double of an exact decimal, as its 64 bits. A quotient is rounded
once, half-way cases to the even neighbour, so no step loses anything twice.
-/
namespace PartProgram.Number

/-- The natural number nearest to `num / den`; of two equally near the even one. -/
def roundDiv (num den : Nat) : Nat :=
  let q := num / den
  let r := num % den
  if 2 * r < den then q
  else if den < 2 * r then q + 1
  else q + q % 2

theorem roundDiv_near {num den : Nat} (h : 0 < den) :
    2 * (roundDiv num den * den) ≤ 2 * num + den ∧
      2 * num ≤ 2 * (roundDiv num den * den) + den := by
  have hq := Nat.div_add_mod num den
  have hr := Nat.mod_lt num h
  rw [Nat.mul_comm] at hq
  have hp : (num / den + 1) * den = num / den * den + den := by rw [Nat.add_mul, Nat.one_mul]
  unfold roundDiv
  dsimp only
  split
  · omega
  · split
    · rw [hp]; omega
    · rcases Nat.mod_two_eq_zero_or_one (num / den) with he | he
      · rw [he, Nat.add_zero]; omega
      · rw [he, hp]; omega

namespace Binary64

def infinity : Nat := 0x7FF <<< 52

/-- The exponent of the unit in the last place of `num / den`: it leaves 53 binary digits before
the point, and is never below that of the smallest double. -/
def unitExponent (num den : Nat) : Int :=
  let guess : Int := (num.log2 : Int) - den.log2 - 52
  let fits := if 0 ≤ guess then den <<< (guess.toNat + 52) ≤ num
    else den <<< 52 ≤ num <<< (-guess).toNat
  max (-1074) (if fits then guess else guess - 1)

def scaled (num den : Nat) (e : Int) : Nat :=
  if 0 ≤ e then roundDiv num (den <<< e.toNat) else roundDiv (num <<< (-e).toNat) den

/-- The bits of a quotient without the sign. The implicit leading digit carries into the exponent
field, and so does a quotient that rounds up to the next power of two. -/
def ofQuotient (num den : Nat) : Nat :=
  if num = 0 then 0
  else
    let e := unitExponent num den
    min infinity ((e + 1074).toNat <<< 52 + scaled num den e)

def ofDecimal (d : Decimal) : UInt64 :=
  let magnitude := ofQuotient d.digits (Nat.pow 10 d.scale)
  (if d.negative then 1 <<< 63 + magnitude else magnitude).toUInt64

end Binary64

end PartProgram.Number
