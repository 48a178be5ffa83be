import UnitCalc.Expression.Node
import UnitCalc.Failure

/-!
# Grouping powers

`^` binds closer than the other operators, and a chain of powers is read from the left. Grouping
puts each base, its `^` and its exponent into a group of three, so that afterwards every sequence
can be evaluated from left to right. A group of three counts against the limit with everything in
it; brackets are not counted again.
-/

namespace UnitCalc

namespace Node

mutual

/-- Groups the powers inside one tree that lies `depth` groups below the root. -/
def groupInside (limit depth : Nat) : Node → Except SyntaxError Node
  | token t => .ok (token t)
  | group children => (groupSequence limit (depth + 1) children).map group

/-- Groups the powers of a sequence `depth` groups below the root. -/
def groupSequence (limit depth : Nat) : List Node → Except SyntaxError (List Node)
  | [] => .ok []
  | token (.operator .power) :: _ => .error (.loneOperator Operator.power.symbol)
  | c :: cs => do
    let c ← groupInside limit depth c
    groupAfter limit depth c cs

/-- Groups the rest of a sequence behind `held`, which is still open to become a base. -/
def groupAfter (limit depth : Nat) (held : Node) : List Node → Except SyntaxError (List Node)
  | [] => .ok [held]
  | [token (.operator .power)] => .error (.loneOperator Operator.power.symbol)
  | token (.operator .power) :: e :: cs => do
    let e ← groupInside limit depth e
    let triple := powerTriple held e
    if limit < depth + triple.height then
      .error (.nestingTooDeep limit)
    else
      groupAfter limit depth triple cs
  | c :: cs => do
    let c ← groupInside limit depth c
    let rest ← groupAfter limit depth c cs
    pure (held :: rest)

end

/-- Groups the powers of a whole expression under a limit. -/
def groupPowers (limit : Nat) : Node → Except SyntaxError Node
  | token t => .ok (token t)
  | group children => (groupSequence limit 0 children).map group

end Node

end UnitCalc
