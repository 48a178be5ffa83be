import UnitCalc.Expression.Token

/-!
# Expression trees

A tree is a token or a group of trees in order. Groups come from brackets and, after grouping, from
powers. The depth of a tree counts the groups below its root; it is what nesting limits bound.
-/

namespace UnitCalc

/-- An expression as a tree. -/
inductive Node where
  /-- A token. -/
  | token (t : Token)
  /-- A group of trees, in order. -/
  | group (children : List Node)
  deriving Repr, Inhabited

namespace Node

mutual

/-- The written form of a tree: groups in round brackets, neighbours separated by a space. -/
def text : Node → String
  | token t => t.text
  | group children => "(" ++ textOfChildren children ++ ")"

/-- The written forms of trees in order, separated by spaces. -/
def textOfChildren : List Node → String
  | [] => ""
  | [c] => c.text
  | c :: d :: cs => c.text ++ " " ++ textOfChildren (d :: cs)

end

mutual

/-- The number of groups on the longest way down from the root, the root included. -/
def height : Node → Nat
  | token _ => 0
  | group children => 1 + maxHeight children

/-- The greatest height of some trees. -/
def maxHeight : List Node → Nat
  | [] => 0
  | c :: cs => max c.height (maxHeight cs)

end

/-- The number of groups on the longest way down below the root. -/
def nestingDepth : Node → Nat
  | token _ => 0
  | group children => maxHeight children

/-- The tree that is only the operator `^`. -/
abbrev caret : Node := token (.operator .power)

/-- The group of a base, the operator `^` and an exponent. -/
def powerTriple (base exponent : Node) : Node := group [base, caret, exponent]

theorem toList_text_group (children : List Node) :
    (group children).text.toList = '(' :: ((textOfChildren children).toList ++ [')']) := by
  simp [text]

@[simp]
theorem maxHeight_nil : maxHeight [] = 0 := rfl

@[simp]
theorem maxHeight_cons (c : Node) (cs : List Node) :
    maxHeight (c :: cs) = max c.height (maxHeight cs) := rfl

theorem maxHeight_append (cs ds : List Node) :
    maxHeight (cs ++ ds) = max (maxHeight cs) (maxHeight ds) := by
  induction cs with
  | nil => simp
  | cons c cs ih => rw [List.cons_append, maxHeight_cons, ih, maxHeight_cons, Nat.max_assoc]

theorem height_group (children : List Node) :
    (group children).height = 1 + (group children).nestingDepth := by
  simp only [height, nestingDepth]

end Node

end UnitCalc
