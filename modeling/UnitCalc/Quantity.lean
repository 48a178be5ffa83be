import UnitCalc.Dimension
import UnitCalc.Failure

/-!
# Quantities

A quantity is a coefficient times a product of powers of base units. Products, quotients and powers
of quantities have to be finite, in the coefficient and in every exponent; a result that is not
finite is an error that shows the operation.
-/

namespace UnitCalc

/-- A coefficient over base units. -/
structure Quantity where
  /-- The exponents of the base units. -/
  dimension : Dimension
  /-- The number in front of the base units. -/
  coefficient : Float

namespace Quantity

/-- A plain number. -/
def scalar (x : Float) : Quantity := ⟨.dimensionless, x⟩

/-- Whether a quantity is a plain number. -/
def isDimensionless (q : Quantity) : Bool := q.dimension.isDimensionless

/-- Whether the coefficient and every exponent are finite. -/
def isFinite (q : Quantity) : Bool := q.coefficient.isFinite && q.dimension.isFinite

/-- The written form of a quantity. A plain number is written without base units. -/
def text (q : Quantity) : String :=
  if q.isDimensionless then coefficientText q.coefficient
  else coefficientText q.coefficient ++ " " ++ q.dimension.text

/-- The product: coefficients are multiplied. -/
def multiply (a b : Quantity) : Except ConversionError Quantity :=
  let product : Quantity := ⟨a.dimension.multiply b.dimension, a.coefficient * b.coefficient⟩
  if product.isFinite then .ok product
  else .error (.numeric (.nonFinite s!"({a.text}) * ({b.text})"))

/-- The quotient: coefficients are divided. A divisor whose coefficient is zero is refused. -/
def divide (a b : Quantity) : Except ConversionError Quantity :=
  if b.coefficient == 0.0 then .error (.evaluation .divisionByZero)
  else
    let quotient : Quantity := ⟨a.dimension.divide b.dimension, a.coefficient / b.coefficient⟩
    if quotient.isFinite then .ok quotient
    else .error (.numeric (.nonFinite s!"({a.text}) / ({b.text})"))

/-- The power: the coefficient is raised and the exponents are scaled. Only a plain number can be an
exponent; the message about a power shows it as it is, with the sign of a negative zero. -/
def power (a b : Quantity) : Except ConversionError Quantity :=
  if !b.isDimensionless then .error (.evaluation (.dimensionedExponent b.text))
  else
    let e := b.coefficient
    let result : Quantity := ⟨a.dimension.power e, raise a.coefficient e⟩
    if result.isFinite then .ok result
    else .error (.numeric (.nonFinite s!"({a.text})^{Layout.exponent.floatText e}"))

end Quantity

end UnitCalc
