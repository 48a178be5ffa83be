import UnitCalc.Json.Encoding

/-!
# Showing results

A quantity is shown as its coefficient over its base units, a failure as its message. In JSON each
of them is one object: a quantity has all seven exponents by name, and a failure is its report.
-/

namespace UnitCalc

open Json

/-- The exponents of a dimension by name, as JSON, without negative zeros. -/
def Dimension.membersJson (d : Dimension) : Json :=
  ofMembers (BaseUnit.all.map fun u => (u.symbol, ofFloat (unsignedZero (d.exponent u))))

namespace Format

/-- A quantity in a format. -/
def render (format : Format) (q : Quantity) : String :=
  match format with
  | text => s!"Coefficient: {coefficientText q.coefficient}\nBase Units:\n{q.dimension.text}"
  | json =>
    String.ofList (ofMembers [("coefficient", ofFloat (unsignedZero q.coefficient)),
      ("exponents", q.dimension.membersJson), ("dimensionless", bool q.isDimensionless)]).text

/-- A failure in a format. -/
def renderError (format : Format) (error : ConversionError) : String :=
  match format with
  | text => s!"Error: {error.message}"
  | json => String.ofList error.report.toJson.text

/-- Either outcome in a format. -/
def renderOutcome (format : Format) : Except ConversionError Quantity → String
  | .ok q => format.render q
  | .error error => format.renderError error

end Format

end UnitCalc
