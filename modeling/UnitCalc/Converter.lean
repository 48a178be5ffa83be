import UnitCalc.Catalogue.Basic
import UnitCalc.Expression.Evaluation
import UnitCalc.Expression.Power
import UnitCalc.Expression.Reading

/-!
# Converters

A converter reduces expressions to base units: it reads an expression, groups its powers and
evaluates the tree. Reading and grouping obey one nesting limit, so no tree deeper than the limit is
ever evaluated.
-/

namespace UnitCalc

/-- The greatest nesting limit that a converter takes. -/
def greatestNestingLimit : Nat := 512

/-- Reads an expression and groups its powers, under one limit. -/
def parseGrouped (limit : Nat) (expression : String) : Except SyntaxError Node := do
  match ← Node.parse limit expression with
  | .group [] => .error .emptyExpression
  | node => node.groupPowers limit

/-- Reduces an expression to base units, under a limit. -/
def convertUnder (limit : Nat) (units : Catalogue) (expression : String) :
    Except ConversionError Quantity :=
  match parseGrouped limit expression with
  | .error error => .error (.badSyntax error)
  | .ok node => node.eval units.lookup?

/-- Reduces an expression to base units, under the default limit. -/
def convert (units : Catalogue) (expression : String) : Except ConversionError Quantity :=
  convertUnder defaultNestingLimit units expression

/-- A catalogue with a nesting limit. -/
structure Converter where
  /-- The units that expressions can use. -/
  units : Catalogue
  /-- The number of levels of groups that is allowed. -/
  limit : Nat := defaultNestingLimit

namespace Converter

/-- The same units under another limit; one that is too great is lowered. -/
def withLimit (c : Converter) (limit : Nat) : Converter :=
  { c with limit := min limit greatestNestingLimit }

/-- Reads an expression and groups its powers. -/
def parse (c : Converter) (expression : String) : Except SyntaxError Node :=
  parseGrouped c.limit expression

/-- Reduces an expression to base units. -/
def convert (c : Converter) (expression : String) : Except ConversionError Quantity :=
  convertUnder c.limit c.units expression

end Converter

end UnitCalc
