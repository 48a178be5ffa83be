import UnitCalc.Text.Blank
import UnitCalc.Decimal.Layout
import UnitCalc.Decimal.Literal

/-!
# Numbers of expressions and databases

Coefficients and exponents are floats that have to stay finite: a literal that is too large and an
operation without a finite result are errors, each with the text it is about.
-/

namespace UnitCalc

/-- Why there is no finite number. -/
inductive NumberError where
  /-- The text is not a number. -/
  | malformed (text : String)
  /-- The text is a number, but too large, or a word for a value that is not finite. -/
  | overflow (text : String)
  /-- The operation that the text describes has no finite result. -/
  | nonFinite (what : String)
  deriving Repr, DecidableEq

/-- The wording of an error. -/
def NumberError.message : NumberError → String
  | .malformed text => s!"invalid number format: {text}"
  | .overflow text => s!"overflow: {text} does not fit in a 64-bit float"
  | .nonFinite what => s!"{what} has no finite value"

/-- Reads a number, with blanks at either end allowed. -/
def readNumber (text : String) : Except NumberError Float :=
  let literal := Text.trim text.toList
  match readFloat? literal with
  | none => .error (.malformed (String.ofList literal))
  | some x => if x.isFinite then .ok x else .error (.overflow (String.ofList literal))

/-- A finite number itself; otherwise an error about what produced it. -/
def checkFinite (x : Float) (what : String) : Except NumberError Float :=
  if x.isFinite then .ok x else .error (.nonFinite what)

/-- The number, with zero instead of negative zero. -/
def unsignedZero (x : Float) : Float := if x == 0.0 then 0.0 else x

/-- The written form of a coefficient. -/
def coefficientText (x : Float) : String := Layout.coefficient.floatText (unsignedZero x)

/-- The written form of an exponent. -/
def exponentText (x : Float) : String := Layout.exponent.floatText (unsignedZero x)

/-- A power of floats. Whatever is raised to zero is one, and one raised to anything is one; this
holds of values that are not finite too. -/
def raise (x e : Float) : Float :=
  if e == 0.0 then 1.0 else if x == 1.0 then 1.0 else Float.pow x e

end UnitCalc
