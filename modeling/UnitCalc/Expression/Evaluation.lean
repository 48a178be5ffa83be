import UnitCalc.Expression.Node
import UnitCalc.Quantity

/-!
# Evaluating an expression

A sequence is evaluated strictly from left to right: neighbours without an operator between them are
multiplied, and a power is one more operator here, since grouping has already set it apart. Units
are looked up by a function, so nothing here depends on how a catalogue is kept.
-/

namespace UnitCalc

/-- Applies an operator to two quantities. -/
def Operator.apply (op : Operator) (a b : Quantity) : Except ConversionError Quantity :=
  match op with
  | multiply => a.multiply b
  | divide => a.divide b
  | power => a.power b

/-- The error about an operator that lacks a value on one side. -/
def Operator.lone (op : Operator) : ConversionError := .evaluation (.loneOperator op.symbol)

/-- The quantity that a token stands for. -/
def Token.eval (lookup : String → Option Quantity) : Token → Except ConversionError Quantity
  | number text =>
    match readNumber text with
    | .ok x => .ok (.scalar x)
    | .error error => .error (.numeric error)
  | unit text =>
    match lookup text with
    | some q => .ok q
    | none => .error (.evaluation (.unknownUnit text))
  | operator op => .error op.lone

namespace Node

mutual

/-- The quantity that a tree stands for. -/
def eval (lookup : String → Option Quantity) : Node → Except ConversionError Quantity
  | token t => t.eval lookup
  | group children => evalSequence lookup children

/-- The quantity that a sequence stands for. -/
def evalSequence (lookup : String → Option Quantity) :
    List Node → Except ConversionError Quantity
  | [] => .error (.badSyntax .emptyExpression)
  | c :: cs => do
    let first ← eval lookup c
    evalAfter lookup first cs

/-- Goes on with the rest of a sequence from the value of what stands before it. -/
def evalAfter (lookup : String → Option Quantity) (value : Quantity) :
    List Node → Except ConversionError Quantity
  | [] => .ok value
  | [token (.operator op)] => .error op.lone
  | token (.operator _) :: token (.operator op) :: _ => .error op.lone
  | token (.operator op) :: c :: cs => do
    let operand ← eval lookup c
    let value ← op.apply value operand
    evalAfter lookup value cs
  | c :: cs => do
    let operand ← eval lookup c
    let value ← value.multiply operand
    evalAfter lookup value cs

end

end Node

end UnitCalc
