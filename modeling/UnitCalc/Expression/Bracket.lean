/-!
# Brackets

Three kinds of brackets group an expression. `Bracket.closer?` finds the bracket that closes an open
one: it walks over the text behind the opening bracket and keeps the kinds of the brackets that are
still open, the innermost first.
-/

namespace UnitCalc

/-- The kinds of brackets. -/
inductive Bracket where
  /-- `(` and `)`. -/
  | round
  /-- `[` and `]`. -/
  | square
  /-- The braces. -/
  | curly
  deriving Repr, DecidableEq

/-- Why no bracket closes the one that was opened. -/
inductive BracketFault where
  /-- The closing bracket at this index does not pair with the innermost open one. -/
  | mismatched (index : Nat)
  /-- The text ends before the bracket is closed. -/
  | unclosed
  deriving Repr, DecidableEq

namespace Bracket

/-- The kind that a character opens. -/
def ofOpener? (c : Char) : Option Bracket :=
  if c = '(' then some round
  else if c = '[' then some square
  else if c = '\x7b' then some curly
  else none

/-- The kind that a character closes. -/
def ofCloser? (c : Char) : Option Bracket :=
  if c = ')' then some round
  else if c = ']' then some square
  else if c = '\x7d' then some curly
  else none

/-- The index of the bracket that closes the outermost of the pending ones, which are listed from
the innermost on. `index` is the index of the first character of the text. -/
def closerFrom (pending : List Bracket) (index : Nat) : List Char → Except BracketFault Nat
  | [] => .error .unclosed
  | c :: cs =>
    match ofOpener? c with
    | some b => closerFrom (b :: pending) (index + 1) cs
    | none =>
      match ofCloser? c, pending with
      | none, _ => closerFrom pending (index + 1) cs
      | some _, [] => .error (.mismatched index)
      | some b, innermost :: outer =>
        if b ≠ innermost then .error (.mismatched index)
        else if outer.isEmpty then .ok index
        else closerFrom outer (index + 1) cs

/-- The index, in the text behind an opening bracket, of the bracket that closes it. -/
def closer? (b : Bracket) (cs : List Char) : Except BracketFault Nat := closerFrom [b] 0 cs

/-- No character both opens and closes. -/
theorem ofCloser?_eq_none_of_ofOpener? {c : Char} {b : Bracket} (h : ofOpener? c = some b) :
    ofCloser? c = none := by
  simp only [ofOpener?] at h
  split at h
  · subst_vars; rfl
  · split at h
    · subst_vars; rfl
    · split at h
      · subst_vars; rfl
      · cases h

end Bracket

end UnitCalc
