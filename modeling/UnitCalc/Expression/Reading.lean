import UnitCalc.Expression.Bracket
import UnitCalc.Expression.Node
import UnitCalc.Failure

/-!
# Reading an expression

`Node.parse` turns a text into a group of tokens and of groups, one for each pair of brackets.
Inside a text, `Node.sequence` reads piece after piece; at an opening bracket it looks for the
closing one first and then reads what stands between them. A fault knows positions only; the text
that the message shows is taken from the whole expression.
-/

namespace UnitCalc

open Text

/-- The number of levels of groups that is allowed when nothing else is said. -/
def defaultNestingLimit : Nat := 64

/-- The number of characters of the expression that a message shows. -/
def excerptLength : Nat := 20

/-- What is wrong with a text, with positions counted from the start of the expression. -/
inductive ReadingFault where
  /-- The closing bracket at `position` does not pair. The message shows the text from `shown`. -/
  | mismatched (position shown : Nat)
  /-- The bracket at `position` is never closed. -/
  | unclosed (position : Nat)
  /-- No token starts at `position`. -/
  | noToken (position : Nat)
  /-- More levels of brackets than allowed. -/
  | tooDeep
  /-- Nothing stands in the brackets that open at `position`. -/
  | emptyGroup (position : Nat)
  deriving Repr, DecidableEq

/-- The part of an expression that a message shows. -/
def excerpt (expression : List Char) (position : Nat) : String :=
  String.ofList ((expression.drop position).take excerptLength)

/-- The error that a fault is in an expression read under a limit. -/
def ReadingFault.toError (limit : Nat) (expression : List Char) : ReadingFault → SyntaxError
  | mismatched position shown => .mismatchedBrackets position (excerpt expression shown)
  | unclosed position => .unclosedBracket position (excerpt expression position)
  | noToken position => .noToken position (excerpt expression position)
  | tooDeep => .nestingTooDeep limit
  | emptyGroup position => .emptyGroup position

namespace Node

/-- Reads the text `cs`, which starts at `position` of the expression and lies inside `depth`
brackets, as tokens and groups. -/
def sequence (limit depth position : Nat) (cs : List Char) : Except ReadingFault (List Node) :=
  match _starts : dropBlanks cs with
  | [] => .ok []
  | c :: rest =>
    let position := position + (cs.takeWhile isBlank).length
    match Bracket.ofOpener? c with
    | some b =>
      match b.closer? rest with
      | .error .unclosed => .error (.unclosed position)
      | .error (.mismatched index) => .error (.mismatched (position + 1 + index) position)
      | .ok index =>
        if limit ≤ depth then .error .tooDeep
        else
          match sequence limit (depth + 1) (position + 1) (rest.take index) with
          | .error fault => .error fault
          | .ok [] => .error (.emptyGroup position)
          | .ok inner =>
            (sequence limit depth (position + index + 2) (rest.drop (index + 1))).map
              (group inner :: ·)
    | none =>
      if (Bracket.ofCloser? c).isSome then .error (.mismatched position position)
      else
        match _found : Token.scan? (c :: rest) with
        | none => .error (.noToken position)
        | some (t, behind) =>
          (sequence limit depth (position + t.text.length) behind).map (token t :: ·)
termination_by cs.length
decreasing_by
  all_goals
    have shorter := length_dropBlanks_le cs
    rw [_starts, List.length_cons] at shorter
  · rw [List.length_take]; omega
  · rw [List.length_drop]; omega
  · have := Token.length_lt_of_scan? _found
    rw [List.length_cons] at this
    omega

/-- Reads an expression under a limit on its brackets. The result is a group, empty when the text is
blank. -/
def parse (limit : Nat) (expression : String) : Except SyntaxError Node :=
  match sequence limit 0 0 expression.toList with
  | .ok children => .ok (group children)
  | .error fault => .error (fault.toError limit expression.toList)

end Node

end UnitCalc
