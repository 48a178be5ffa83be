import UnitCalc.Json.Encoding
import UnitCalc.Json.Reader

/-!
# Values from JSON

A record can be an object with its members in any order or an array of its parts in order. Members
that nobody asks for are ignored; one that is there twice is refused. What may be absent can be left
out of an object or be `null`. A choice without content can also be an object with that one member,
whose value is `null`. Values can be nested up to a number of levels, and values that are ignored do
not count.
-/

namespace UnitCalc

namespace Json

/-- The number of levels of arrays and objects that a value can have. -/
def levelLimit : Nat := 127

/-- Reads a value of JSON that may have a number of levels. -/
abbrev Decoder (α : Type) : Type := Nat → Json → Option α

/-- The number of levels that are left inside an array or object. -/
def enter? : Nat → Option Nat
  | 0 => none
  | levels + 1 => some levels

/-- Reads a string. -/
def text? : Decoder String := fun _ j =>
  match j with
  | string body => (unescape? body).map String.ofList
  | _ => none

/-- Reads a number. -/
def float? : Decoder Float := fun _ j =>
  match j with
  | number literal => toFloat? literal
  | _ => none

/-- The members of an object with their names. -/
def named? : List (List Char × Json) → Option (List (String × Json))
  | [] => some []
  | (key, j) :: members => do
    let name ← unescape? key
    let rest ← named? members
    pure ((String.ofList name, j) :: rest)

/-- The value of a member that may be absent; none when it is there twice. -/
def member? (members : List (String × Json)) (name : String) : Option (Option Json) :=
  match members.filter fun m => m.1 == name with
  | [] => some none
  | [m] => some (some m.2)
  | _ => none

/-- The parts of a record and the levels left inside it. -/
def parts? (names : List String) : Decoder (Nat × List (Option Json)) := fun levels j => do
  let inner ← enter? levels
  match j with
  | array items => if items.length = names.length then pure (inner, items.map some) else none
  | object members =>
    let members ← named? members
    let parts ← names.mapM (member? members)
    pure (inner, parts)
  | _ => none

/-- Reads a part that has to be there. -/
def required? {α : Type} (decode : Decoder α) (levels : Nat) (part : Option Json) : Option α := do
  decode levels (← part)

/-- Reads a part that may be absent. -/
def optional? {α : Type} (decode : Decoder α) (levels : Nat) : Option Json → Option (Option α)
  | none => some none
  | some null => some none
  | some j => (decode levels j).map some

/-- Reads a choice without content. -/
def choice? {α : Type} (ofName : String → Option α) : Decoder α := fun levels j =>
  match j with
  | string body => do ofName (String.ofList (← unescape? body))
  | object [(key, null)] => do
    let _ ← enter? levels
    ofName (String.ofList (← unescape? key))
  | _ => none

/-- The name and the content of a choice, with the levels left inside it. -/
def tagged? : Decoder (Nat × String × Json) := fun levels j =>
  match j with
  | object [(key, content)] => do
    let inner ← enter? levels
    pure (inner, String.ofList (← unescape? key), content)
  | _ => none

end Json

open Json

/-- The operator with a name. -/
def Operator.ofName? (s : String) : Option Operator :=
  [multiply, divide, power].find? fun op => op.name == s

/-- Reads an operator. -/
def Operator.decode : Decoder Operator := choice? Operator.ofName?

/-- Reads a token. -/
def Token.decode : Decoder Token := fun levels j => do
  let (inner, name, content) ← tagged? levels j
  if name = "Number" then (text? inner content).map number
  else if name = "Unit" then (text? inner content).map unit
  else if name = "Operator" then (Operator.decode inner content).map operator
  else none

namespace Node

mutual

/-- Reads a tree. -/
def decode (levels : Nat) : Json → Option Node
  | object [(key, array items)] => do
    let inner ← enter? levels
    if (← unescape? key) = "Group".toList then
      let innermost ← enter? inner
      (decodeAll innermost items).map group
    else none
  | object [(key, content)] => do
    let inner ← enter? levels
    if (← unescape? key) = "Token".toList then
      (Token.decode inner content).map token
    else none
  | _ => none

/-- Reads trees in order. -/
def decodeAll (levels : Nat) : List Json → Option (List Node)
  | [] => some []
  | j :: js => do
    let c ← decode levels j
    let cs ← decodeAll levels js
    pure (c :: cs)

end

end Node

/-- The dimension with the given exponents, of which there have to be seven. -/
def Dimension.ofExponents? : List Float → Option Dimension
  | [second, metre, kilogram, mole, coulomb, kelvin, candela] =>
    some ⟨second, metre, kilogram, mole, coulomb, kelvin, candela⟩
  | _ => none

/-- Reads a dimension. -/
def Dimension.decode : Decoder Dimension := fun levels j => do
  match ← parts? ["exponents"] levels j with
  | (inner, [some (array items)]) =>
    let innermost ← enter? inner
    Dimension.ofExponents? (← items.mapM (float? innermost))
  | _ => none

/-- Reads a quantity. -/
def Quantity.decode : Decoder Quantity := fun levels j => do
  match ← parts? ["dimension", "coefficient"] levels j with
  | (inner, [dimension, coefficient]) =>
    pure ⟨← required? Dimension.decode inner dimension, ← required? float? inner coefficient⟩
  | _ => none

/-- Reads a unit definition. -/
def UnitDefinition.decode : Decoder UnitDefinition := fun levels j => do
  match ← parts? ["symbol", "alternate", "record"] levels j with
  | (inner, [symbol, alternate, quantity]) =>
    pure ⟨← required? text? inner symbol, ← optional? text? inner alternate,
      ← required? Quantity.decode inner quantity⟩
  | _ => none

/-- The kind of failure with a name. -/
def FailureKind.ofName? (s : String) : Option FailureKind :=
  [badSyntax, evaluation, numeric].find? fun kind => kind.name == s

/-- Reads a report. -/
def FailureReport.decode : Decoder FailureReport := fun levels j => do
  match ← parts? ["kind", "code", "message", "suggestion"] levels j with
  | (inner, [kind, code, message, suggestion]) =>
    pure ⟨← required? (choice? FailureKind.ofName?) inner kind, ← required? text? inner code,
      ← required? text? inner message, ← optional? text? inner suggestion⟩
  | _ => none

/-- Reads a format. -/
def Format.decode : Decoder Format :=
  choice? fun s => [Format.text, Format.json].find? fun format => format.name == s

/-- Reads a whole text as one value. -/
def Json.decodeText {α : Type} (decode : Decoder α) (text : String) : Option α := do
  decode levelLimit (← read? text.toList)

end UnitCalc
