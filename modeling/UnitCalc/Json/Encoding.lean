import UnitCalc.Catalogue.Basic
import UnitCalc.Expression.Node
import UnitCalc.Format
import UnitCalc.Json.Basic
import UnitCalc.Json.Numeral
import UnitCalc.Json.Quoted

/-!
# Values as JSON

A record is an object with one member for each part, in order; a choice without content is its name,
and a choice with content is an object with that one member. What is absent is left out.
-/

namespace UnitCalc

namespace Json

/-- A text as a string. -/
def ofText (s : String) : Json := string (escape s.toList)

/-- A float as a number; `null` for one that is not finite. -/
def ofFloat (x : Float) : Json :=
  match floatText? x with
  | some literal => number literal
  | none => null

/-- An object with the given members. -/
def ofMembers (members : List (String × Json)) : Json :=
  object (members.map fun (name, j) => (escape name.toList, j))

/-- A member for what may be absent. -/
def optionalMember (name : String) (value : Option String) : List (String × Json) :=
  (value.map fun s => (name, ofText s)).toList

end Json

open Json

/-- The name of an operator. -/
def Operator.name : Operator → String
  | multiply => "Mul"
  | divide => "Div"
  | power => "Pow"

/-- An operator as JSON. -/
def Operator.toJson (op : Operator) : Json := ofText op.name

/-- A token as JSON. -/
def Token.toJson : Token → Json
  | number text => ofMembers [("Number", ofText text)]
  | unit text => ofMembers [("Unit", ofText text)]
  | operator op => ofMembers [("Operator", op.toJson)]

namespace Node

mutual

/-- A tree as JSON. -/
def toJson : Node → Json
  | token t => ofMembers [("Token", t.toJson)]
  | group children => ofMembers [("Group", array (childrenToJson children))]

/-- Trees in order as JSON. -/
def childrenToJson : List Node → List Json
  | [] => []
  | c :: cs => c.toJson :: childrenToJson cs

end

end Node

/-- A dimension as JSON. -/
def Dimension.toJson (d : Dimension) : Json :=
  ofMembers [("exponents", array (d.exponents.map ofFloat))]

/-- A quantity as JSON. -/
def Quantity.toJson (q : Quantity) : Json :=
  ofMembers [("dimension", q.dimension.toJson), ("coefficient", ofFloat q.coefficient)]

/-- A unit definition as JSON. -/
def UnitDefinition.toJson (d : UnitDefinition) : Json :=
  ofMembers (("symbol", ofText d.symbol) :: optionalMember "alternate" d.alternate ++
    [("record", d.quantity.toJson)])

/-- A report as JSON. -/
def FailureReport.toJson (report : FailureReport) : Json :=
  ofMembers ([("kind", ofText report.kind.name), ("code", ofText report.code),
    ("message", ofText report.message)] ++ optionalMember "suggestion" report.suggestion)

/-- A format as JSON. -/
def Format.toJson (format : Format) : Json := ofText format.name

end UnitCalc
