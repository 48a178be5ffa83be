/-!
# Decimal numbers

A decimal is a natural coefficient times a power of ten; the sign is kept beside it, because zero
has two signs. This module also says how a decimal becomes a float: to nearest, ties to even.
-/

namespace UnitCalc

/-- The number `coefficient × 10 ^ exponent`. -/
structure Decimal where
  /-- The digits, read as one natural number. -/
  coefficient : Nat
  /-- The power of ten that the last digit stands for. -/
  exponent : Int
  deriving Repr, DecidableEq, Inhabited

namespace Decimal

/-- Removes the zeros at the end of a coefficient, so that each number has one form. -/
def stripZeros (n : Nat) (e : Int) : Decimal :=
  if h : n ≠ 0 ∧ n % 10 = 0 then
    have : n / 10 < n := Nat.div_lt_self (Nat.pos_of_ne_zero h.1) (by decide)
    stripZeros (n / 10) (e + 1)
  else ⟨n, e⟩
termination_by n

/-- The form of a decimal whose coefficient does not end in a zero. -/
def normalize (d : Decimal) : Decimal := stripZeros d.coefficient d.exponent

/-- An integer that is at most the leading exponent: the coefficient times its power of ten is at
least ten to that exponent. -/
def magnitudeBelow (d : Decimal) : Int :=
  (d.coefficient.log2 * 30102 / 100000 : Nat) + d.exponent

/-- An integer that is above the leading exponent: the coefficient times its power of ten is less
than ten to that exponent. -/
def magnitudeAbove (d : Decimal) : Int :=
  ((d.coefficient.log2 + 1) * 30103 / 100000 + 1 : Nat) + d.exponent

/-- The float nearest to a decimal. From `10 ^ 309` on the float is infinite, and below `10 ^ -325`
it is zero; there the power of ten is not formed. -/
def toFloat (d : Decimal) : Float :=
  let d := d.normalize
  if d.coefficient = 0 then 0.0
  else if 309 ≤ d.magnitudeBelow then 1.0 / 0.0
  else if d.magnitudeAbove ≤ -325 then 0.0
  else if d.exponent < 0 then Float.ofScientific d.coefficient true d.exponent.natAbs
  else Float.ofScientific d.coefficient false d.exponent.toNat

/-- A zero at the end of the coefficient can be moved into the exponent. -/
theorem stripZeros_mul_ten (n : Nat) (e : Int) (h : n ≠ 0) :
    stripZeros (n * 10) e = stripZeros n (e + 1) := by
  rw [stripZeros]
  have : n * 10 ≠ 0 ∧ n * 10 % 10 = 0 := ⟨by omega, by omega⟩
  simp only [dif_pos this, Nat.mul_div_cancel n (show 0 < 10 by decide)]

end Decimal

end UnitCalc
