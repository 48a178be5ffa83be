import UnitCalc.Decimal.Basic
import UnitCalc.Text.Split

/-!
# Reading numbers

A literal is an optional sign and then a number: digits with an optional point, at least one digit
in all, and an optional exponent; or one of the words `inf`, `infinity` and `nan` in any case. Only
the ten digits of ASCII count. The whole text has to be the literal.
-/

namespace UnitCalc

open Text

/-- The value of a digit of ASCII. -/
def digitValue (c : Char) : Nat := c.toNat - '0'.toNat

/-- The natural number that digits spell. -/
def digitsValue (cs : List Char) : Nat := cs.foldl (fun n c => 10 * n + digitValue c) 0

/-- Reads an integer: an optional sign and at least one digit. -/
def readInteger? (cs : List Char) : Option Int :=
  let (sign, digits) := splitSign cs
  if digits.isEmpty || !digits.all Char.isDigit then none
  else if sign = ['-'] then some (-(digitsValue digits : Int))
  else some (digitsValue digits)

namespace Decimal

/-- Reads what stands behind the digits of a number: nothing, or an exponent. -/
def readExponent? : List Char → Option Int
  | [] => some 0
  | c :: cs => if c = 'e' ∨ c = 'E' then readInteger? cs else none

/-- The decimal with these digits in front of and behind the point, times a power of ten. -/
def ofDigits (whole fraction : List Char) (exponent : Int) : Decimal :=
  ⟨digitsValue (whole ++ fraction), exponent - fraction.length⟩

/-- Reads a number without a sign. -/
def read? (cs : List Char) : Option Decimal :=
  let (whole, rest) := splitWhile Char.isDigit cs
  match rest with
  | '.' :: behind =>
    let (fraction, rest) := splitWhile Char.isDigit behind
    if whole.isEmpty && fraction.isEmpty then none
    else (readExponent? rest).map (ofDigits whole fraction)
  | rest => if whole.isEmpty then none else (readExponent? rest).map (ofDigits whole [])

end Decimal

/-- The words for values that are not finite, in small letters. -/
def readWord? (cs : List Char) : Option Float :=
  let word := cs.map Char.toLower
  if word = "inf".toList ∨ word = "infinity".toList then some (1.0 / 0.0)
  else if word = "nan".toList then some (0.0 / 0.0)
  else none

/-- Reads a literal; the float nearest to it, infinite when the literal is too large. -/
def readFloat? (cs : List Char) : Option Float :=
  let (sign, rest) := splitSign cs
  let magnitude := readWord? rest <|> (Decimal.read? rest).map Decimal.toFloat
  magnitude.map fun x => if sign = ['-'] then -x else x

end UnitCalc
