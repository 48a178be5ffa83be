import UnitCalc.Decimal.Shortest

/-!
# Layouts of decimal numbers

A `Layout` gathers the decisions of one format: which numbers are written with the point in its
place and which with an exponent, and how each of the two looks. The digits come from
`Binary.shortest`.
-/

namespace UnitCalc

/-- The decisions of a decimal format. -/
structure Layout where
  /-- Whether a number with this leading exponent is written with the point in its place. -/
  positional : Int → Bool
  /-- Whether a whole number written that way keeps a fraction of one zero. -/
  wholeFraction : Bool
  /-- The sign in front of an exponent that is not negative. -/
  plus : List Char
  /-- The side to take when two shortest decimals are equally near. -/
  tie : Tie

/-- Coefficients have the point in its place from `0.0001` up to sixteen digits in front of the
point, and whole ones keep `.0`. -/
def Layout.coefficient : Layout := ⟨fun e => -4 ≤ e && e ≤ 15, true, [], .up⟩

/-- Exponents of base units always have the point in its place, and whole ones have no fraction. -/
def Layout.exponent : Layout := ⟨fun _ => true, false, [], .up⟩

/-- Numbers in JSON have the point in its place from `0.00001` up to sixteen digits in front of the
point, whole ones keep `.0`, and an exponent always has a sign. -/
def Layout.json : Layout := ⟨fun e => -5 ≤ e && e ≤ 15, true, ['+'], .toEven⟩

namespace Decimal

/-- The digits of the coefficient, without a zero in front. -/
def digits (d : Decimal) : List Char := Nat.toDigits 10 d.coefficient

/-- The power of ten that the first digit stands for. -/
def leadingExponent (d : Decimal) : Int := d.exponent + (d.digits.length : Int) - 1

/-- The number with the point in its place. -/
def positionalText (wholeFraction : Bool) (d : Decimal) : List Char :=
  if 0 ≤ d.exponent then
    d.digits ++ List.replicate d.exponent.toNat '0' ++ (if wholeFraction then ['.', '0'] else [])
  else
    let behind := d.exponent.natAbs
    let padded := List.replicate (behind + 1 - d.digits.length) '0' ++ d.digits
    let front := padded.length - behind
    padded.take front ++ '.' :: padded.drop front

/-- The number with one digit in front of the point and an exponent. -/
def scientificText (plus : List Char) (d : Decimal) : List Char :=
  let e := d.leadingExponent
  let fraction := d.digits.drop 1
  d.digits.take 1 ++ (if fraction.isEmpty then [] else '.' :: fraction) ++
    'e' :: (if e < 0 then ['-'] else plus) ++ Nat.toDigits 10 e.natAbs

/-- The number as a layout wants it. -/
def text (l : Layout) (d : Decimal) : List Char :=
  if l.positional d.leadingExponent then d.positionalText l.wholeFraction
  else d.scientificText l.plus

end Decimal

/-- The text of a float, with the sign of a negative zero. -/
def Layout.floatText (l : Layout) (x : Float) : String :=
  match FloatValue.ofFloat x with
  | .nan => "NaN"
  | .infinite negative => if negative then "-inf" else "inf"
  | .finite negative v =>
    String.ofList ((if negative then ['-'] else []) ++ (v.shortest l.tie).text l)

end UnitCalc
