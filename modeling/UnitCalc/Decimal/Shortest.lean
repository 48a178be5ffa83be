import UnitCalc.Decimal.Basic

/-!
# The fewest digits that read back

A finite float stands for `mantissa × 2 ^ exponent`, and the reals that round to it form an interval
around that value whose ends belong to it exactly when the mantissa is even. The number written for
the float lies in this interval on the coarsest grid of powers of ten that has a point there; of two
such points the nearer is taken, and a `Tie` settles the case that both are equally near. All
comparisons are between natural numbers, so nothing is lost to rounding.
-/

namespace UnitCalc

/-- A finite float without its sign: the number `mantissa × 2 ^ exponent`. -/
structure Binary where
  /-- The digits in base two, read as one natural number. -/
  mantissa : Nat
  /-- The power of two that the last digit stands for. -/
  exponent : Int
  /-- Whether the next smaller float is only half as far away as the next greater one. -/
  narrowBelow : Bool
  deriving Repr, DecidableEq

/-- What a float stands for. -/
inductive FloatValue where
  /-- Not a number. -/
  | nan
  /-- An infinity, with its sign. -/
  | infinite (negative : Bool)
  /-- A finite number, with its sign. -/
  | finite (negative : Bool) (magnitude : Binary)
  deriving Repr, DecidableEq

/-- What the bits of a float stand for: a sign, eleven bits of exponent, fifty-two of fraction. -/
def FloatValue.ofBits (bits : Nat) : FloatValue :=
  let negative := bits / Nat.pow 2 63 % 2 == 1
  let exponent : Nat := bits / Nat.pow 2 52 % Nat.pow 2 11
  let fraction := bits % Nat.pow 2 52
  if exponent = Nat.pow 2 11 - 1 then
    if fraction = 0 then .infinite negative else .nan
  else if exponent = 0 then
    .finite negative ⟨fraction, -1074, false⟩
  else
    .finite negative
      ⟨Nat.pow 2 52 + fraction, (exponent : Int) - 1075, fraction == 0 && exponent != 1⟩

/-- What a float stands for. -/
def FloatValue.ofFloat (x : Float) : FloatValue := ofBits x.toBits.toNat

/-- The side to take when two decimals are equally near. -/
inductive Tie where
  /-- The greater one. -/
  | up
  /-- The one whose last digit is even. -/
  | toEven
  deriving Repr, DecidableEq

/-- A float against the multiples of one power of ten. In units of a quarter of the float's last
binary digit the float is `4 * mantissa`; a number `n` of these units and a number `c` of grid steps
are compared as `n * unit` and `c * step`. -/
structure Grid where
  /-- The power of ten. -/
  exponent : Int
  /-- The factor of a quarter of the last binary digit. -/
  unit : Nat
  /-- The factor of the power of ten. -/
  step : Nat

namespace Grid

/-- The grid of the multiples of `10 ^ e`, for floats whose last binary digit is `2 ^ q`. -/
def of (q e : Int) : Grid where
  exponent := e
  unit := Nat.pow 2 (q - 2).toNat * Nat.pow 10 (-e).toNat
  step := Nat.pow 2 (2 - q).toNat * Nat.pow 10 e.toNat

/-- Whether the grid's point `c` rounds to the float `v`. -/
def roundsTo (g : Grid) (v : Binary) (c : Nat) : Bool :=
  let low := (4 * v.mantissa - if v.narrowBelow then 1 else 2) * g.unit
  let high := (4 * v.mantissa + 2) * g.unit
  if v.mantissa % 2 = 0 then low ≤ c * g.step && c * g.step ≤ high
  else low < c * g.step && c * g.step < high

/-- Of the neighbours `c` and `c + 1` of `v` on the grid, the one that is nearer. -/
def nearer (g : Grid) (tie : Tie) (v : Binary) (c : Nat) : Nat :=
  match compare (2 * (4 * v.mantissa * g.unit)) ((2 * c + 1) * g.step) with
  | .lt => c
  | .gt => c + 1
  | .eq =>
    match tie with
    | .up => c + 1
    | .toEven => if c % 2 = 0 then c else c + 1

/-- The nearest point of the grid that rounds to `v`, if one of `v`'s two neighbours does. -/
def point? (g : Grid) (tie : Tie) (v : Binary) : Option Decimal :=
  let c := 4 * v.mantissa * g.unit / g.step
  match g.roundsTo v c, g.roundsTo v (c + 1) with
  | true, true => some ⟨g.nearer tie v c, g.exponent⟩
  | true, false => some ⟨c, g.exponent⟩
  | false, true => some ⟨c + 1, g.exponent⟩
  | false, false => none

end Grid

namespace Binary

/-- A power of ten above the number: the logarithm of two, rounded up to five places, times the
number of binary digits in front of the point. -/
def ceilingExponent (v : Binary) : Int :=
  ((v.mantissa.log2 + 1 : Nat) + v.exponent) * 30103 / 100000 + 1

/-- The decimal that is written for a finite float. Seventeen digits always suffice, and the first
grid is at most two digits too coarse, so the search looks at twenty grids. -/
def shortest (tie : Tie) (v : Binary) : Decimal :=
  if v.mantissa = 0 then ⟨0, 0⟩
  else
    let top := v.ceilingExponent
    let found := (List.range 20).findSome? fun (i : Nat) =>
      (Grid.of v.exponent (top - i)).point? tie v
    (found.getD ⟨0, 0⟩).normalize

end Binary

end UnitCalc
