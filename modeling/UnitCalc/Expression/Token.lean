import UnitCalc.Text.Blank
import UnitCalc.Text.Digit
import UnitCalc.Text.Split

/-!
# Tokens of an expression

A token is a number, a unit or an operator. A number keeps the text it was written with; what number
it is, is decided when the expression is evaluated. `Token.scan?` takes the longest token that
stands at the start of a text. The three kinds of token start with different characters, so the
order in which they are tried does not matter.
-/

namespace UnitCalc

open Text

/-- The operators between quantities. -/
inductive Operator where
  /-- The product, `*`. -/
  | multiply
  /-- The quotient, `/`. -/
  | divide
  /-- The power, `^`. -/
  | power
  deriving Repr, DecidableEq

namespace Operator

/-- The operator with a symbol. -/
def ofSymbol? (c : Char) : Option Operator :=
  if c = '*' then some multiply
  else if c = '/' then some divide
  else if c = '^' then some power
  else none

/-- The symbol of an operator. -/
def symbol : Operator → Char
  | multiply => '*'
  | divide => '/'
  | power => '^'

@[simp]
theorem ofSymbol?_symbol (op : Operator) : ofSymbol? op.symbol = some op := by
  cases op <;> rfl

theorem symbol_of_ofSymbol? {c : Char} {op : Operator} (h : ofSymbol? c = some op) :
    op.symbol = c := by
  simp only [ofSymbol?] at h
  split at h
  · cases h; simp_all [symbol]
  · split at h
    · cases h; simp_all [symbol]
    · split at h
      · cases h; simp_all [symbol]
      · cases h

end Operator

/-- A token of an expression. -/
inductive Token where
  /-- A number, as it was written. -/
  | number (text : String)
  /-- A unit's symbol. -/
  | unit (text : String)
  /-- An operator. -/
  | operator (op : Operator)
  deriving Repr, DecidableEq

namespace Token

/-- The written form of a token. -/
def text : Token → String
  | number text => text
  | unit text => text
  | operator op => op.symbol.toString

/-- Whether a character can stand in the name of a unit: a letter of ASCII, the micro sign, the
small mu or the capital omega. -/
def isUnitLetter (c : Char) : Bool :=
  c.isAlpha || c.toNat == 0xB5 || c.toNat == 0x3BC || c.toNat == 0x3A9

/-- The digits at the start of a text, and the rest. -/
def splitDigits (cs : List Char) : List Char × List Char := splitWhile isDecimalDigit cs

/-- The longest number without sign and exponent at the start of a text, and the rest: digits with
an optional fraction, or a point and digits. -/
def splitMantissa? (cs : List Char) : Option (List Char × List Char) :=
  let (whole, rest) := splitDigits cs
  match rest with
  | c :: behind =>
    if c = '.' then
      let (fraction, rest) := splitDigits behind
      if whole.isEmpty && fraction.isEmpty then none
      else some (whole ++ '.' :: fraction, rest)
    else if whole.isEmpty then none
    else some (whole, c :: behind)
  | [] => if whole.isEmpty then none else some (whole, [])

/-- The exponent at the start of a text, and the rest. Without a digit there is no exponent, and
nothing is taken. -/
def splitExponent : List Char → List Char × List Char
  | c :: cs =>
    if c = 'e' ∨ c = 'E' then
      let (sign, behind) := splitSign cs
      let (digits, rest) := splitDigits behind
      if digits.isEmpty then ([], c :: cs) else (c :: (sign ++ digits), rest)
    else ([], c :: cs)
  | [] => ([], [])

/-- The longest number at the start of a text, and the rest. -/
def splitNumber? (cs : List Char) : Option (List Char × List Char) :=
  let (sign, behind) := splitSign cs
  match splitMantissa? behind with
  | none => none
  | some (mantissa, rest) =>
    let (exponent, rest) := splitExponent rest
    some (sign ++ mantissa ++ exponent, rest)

/-- The degree sign at the start of a text, and the rest. -/
def splitDegree : List Char → List Char × List Char
  | c :: cs => if c.toNat = 0xB0 then ([c], cs) else ([], c :: cs)
  | [] => ([], [])

/-- The longest unit at the start of a text, and the rest: letters, with an optional degree sign in
front of them. -/
def splitUnit? (cs : List Char) : Option (List Char × List Char) :=
  let (degree, behind) := splitDegree cs
  let (letters, rest) := splitWhile isUnitLetter behind
  if letters.isEmpty then none else some (degree ++ letters, rest)

/-- The token at the start of a text, and the rest. -/
def scan? (cs : List Char) : Option (Token × List Char) :=
  match splitNumber? cs with
  | some (text, rest) => some (number (String.ofList text), rest)
  | none =>
    match splitUnit? cs with
    | some (text, rest) => some (unit (String.ofList text), rest)
    | none =>
      match cs with
      | c :: rest => (Operator.ofSymbol? c).map fun op => (operator op, rest)
      | [] => none

/-! ## Nothing is lost -/

theorem splitDigits_append (cs : List Char) : (splitDigits cs).1 ++ (splitDigits cs).2 = cs :=
  splitWhile_append isDecimalDigit cs

theorem splitExponent_append (cs : List Char) :
    (splitExponent cs).1 ++ (splitExponent cs).2 = cs := by
  cases cs with
  | nil => rfl
  | cons c cs =>
    simp only [splitExponent]
    split
    · split
      · rfl
      · have sign := splitSign_append cs
        have digits := splitDigits_append (splitSign cs).2
        simp only [List.cons_append, List.append_assoc, digits, sign]
    · rfl

theorem splitMantissa?_append {cs text rest : List Char}
    (h : splitMantissa? cs = some (text, rest)) : text ++ rest = cs ∧ text ≠ [] := by
  have whole := splitDigits_append cs
  revert h
  simp only [splitMantissa?]
  split
  · rename_i c behind heq
    rw [heq] at whole
    split
    · rename_i point
      split
      · simp
      · intro h
        simp only [Option.some.injEq, Prod.mk.injEq] at h
        obtain ⟨rfl, rfl⟩ := h
        have fraction := splitDigits_append behind
        simp only [List.append_assoc, List.cons_append, fraction, ← point, whole]
        simp
    · split
      · simp
      · rename_i nonempty
        intro h
        simp only [Option.some.injEq, Prod.mk.injEq] at h
        obtain ⟨rfl, rfl⟩ := h
        exact ⟨whole, by simpa using nonempty⟩
  · rename_i heq
    rw [heq] at whole
    split
    · simp
    · rename_i nonempty
      intro h
      simp only [Option.some.injEq, Prod.mk.injEq] at h
      obtain ⟨rfl, rfl⟩ := h
      exact ⟨whole, by simpa using nonempty⟩

theorem splitNumber?_append {cs text rest : List Char}
    (h : splitNumber? cs = some (text, rest)) : text ++ rest = cs ∧ text ≠ [] := by
  simp only [splitNumber?] at h
  split at h
  · cases h
  · rename_i mantissa behind heq
    simp only [Option.some.injEq, Prod.mk.injEq] at h
    obtain ⟨rfl, rfl⟩ := h
    have exponent := splitExponent_append behind
    obtain ⟨front, nonempty⟩ := splitMantissa?_append heq
    refine ⟨?_, by simp [nonempty]⟩
    rw [List.append_assoc, List.append_assoc, exponent, front, splitSign_append]

theorem splitDegree_append (cs : List Char) : (splitDegree cs).1 ++ (splitDegree cs).2 = cs := by
  cases cs with
  | nil => rfl
  | cons c cs => simp only [splitDegree]; split <;> rfl

theorem splitUnit?_append {cs text rest : List Char}
    (h : splitUnit? cs = some (text, rest)) : text ++ rest = cs ∧ text ≠ [] := by
  simp only [splitUnit?, Option.ite_none_left_eq_some, Option.some.injEq, Prod.mk.injEq] at h
  obtain ⟨nonempty, rfl, rfl⟩ := h
  refine ⟨?_, by simp_all⟩
  rw [List.append_assoc, splitWhile_append, splitDegree_append]

/-- A token is the start of the text it is taken from, and not empty. -/
theorem text_append_of_scan? {cs rest : List Char} {t : Token} (h : scan? cs = some (t, rest)) :
    t.text.toList ++ rest = cs ∧ t.text.toList ≠ [] := by
  simp only [scan?] at h
  split at h
  · rename_i text behind heq
    simp only [Option.some.injEq, Prod.mk.injEq] at h
    obtain ⟨rfl, rfl⟩ := h
    simpa [Token.text] using splitNumber?_append heq
  · split at h
    · rename_i text behind heq
      simp only [Option.some.injEq, Prod.mk.injEq] at h
      obtain ⟨rfl, rfl⟩ := h
      simpa [Token.text] using splitUnit?_append heq
    · split at h
      · simp only [Option.map_eq_some_iff, Prod.mk.injEq] at h
        obtain ⟨op, heq, rfl, rfl⟩ := h
        simp [Token.text, Operator.symbol_of_ofSymbol? heq]
      · cases h

/-- What is left behind a token is shorter than the text. -/
theorem length_lt_of_scan? {cs rest : List Char} {t : Token} (h : scan? cs = some (t, rest)) :
    rest.length < cs.length :=
  length_lt_of_append (text_append_of_scan? h).1 (text_append_of_scan? h).2

end Token

end UnitCalc
