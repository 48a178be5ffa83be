import UnitCalc.Decimal.Layout
import UnitCalc.Decimal.Literal
import UnitCalc.Text.Split

/-!
# Numbers of JSON

A number is an integer without a zero in front, an optional fraction and an optional exponent. When
it is read, the digits that fit into sixty-four bits form its significand, further digits only
count, and the significand is scaled by one power of ten; a number that is too large is refused.
Floats that are not finite are written as `null`.
-/

namespace UnitCalc.Json

open Text

/-- The greatest significand. -/
def greatestSignificand : Nat := Nat.pow 2 64 - 1

/-- The greatest exponent of a power of ten that is a float. -/
def greatestTenPower : Nat := 308

/-- Takes digits into a significand as long as it stays small enough, and gives those left over. -/
def absorb (significand : Nat) : List Char → Nat × List Char
  | [] => (significand, [])
  | c :: cs =>
    let next := significand * 10 + digitValue c
    if next ≤ greatestSignificand then absorb next cs else (significand, c :: cs)

/-- Scales a float by a power of ten. The float is multiplied or divided once when the power is a
float, and divided in several steps when the exponent is too small for that. -/
def scaleByTen (x : Float) (e : Int) : Option Float :=
  if 0 ≤ e then
    if e ≤ greatestTenPower then
      let y := x * Float.ofScientific 1 false e.toNat
      if y.isInf then none else some y
    else if x == 0.0 then some x
    else none
  else if -greatestTenPower ≤ e then some (x / Float.ofScientific 1 false e.natAbs)
  else if x == 0.0 then some x
  else scaleByTen (x / Float.ofScientific 1 false greatestTenPower) (e + greatestTenPower)
termination_by e.natAbs
decreasing_by
  simp only [greatestTenPower] at *
  omega

/-- The parts of a number. -/
structure Numeral where
  /-- Whether a minus stands in front. -/
  negative : Bool
  /-- The digits in front of the point. -/
  whole : List Char
  /-- The digits behind the point. -/
  fraction : List Char
  /-- The exponent. -/
  exponent : Option Int

/-- The digits at the start of a text, and the rest. -/
def splitDigits (cs : List Char) : List Char × List Char := splitWhile Char.isDigit cs

/-- The minus at the start of a text, and the rest. -/
def splitMinus : List Char → List Char × List Char
  | c :: cs => if c = '-' then ([c], cs) else ([], c :: cs)
  | [] => ([], [])

/-- The fraction at the start of a text with its point, and the rest; a point without a digit behind
it is refused. -/
def splitFraction? : List Char → Option (List Char × List Char)
  | c :: cs =>
    if c = '.' then
      let (digits, rest) := splitDigits cs
      if digits.isEmpty then none else some (c :: digits, rest)
    else some ([], c :: cs)
  | [] => some ([], [])

/-- The exponent at the start of a text with its letter, and the rest; a letter without a digit
behind it is refused. -/
def splitExponent? : List Char → Option (List Char × List Char)
  | c :: cs =>
    if c = 'e' ∨ c = 'E' then
      let (sign, behind) := splitSign cs
      let (digits, rest) := splitDigits behind
      if digits.isEmpty then none else some (c :: (sign ++ digits), rest)
    else some ([], c :: cs)
  | [] => some ([], [])

/-- The number at the start of a text, and the rest. -/
def splitNumber? (cs : List Char) : Option (List Char × List Char) := do
  let (minus, behind) := splitMinus cs
  let (whole, rest) := splitDigits behind
  if whole.isEmpty || (whole.length != 1 && whole.head? == some '0') then
    none
  else
    let (fraction, rest) ← splitFraction? rest
    let (exponent, rest) ← splitExponent? rest
    pure (minus ++ whole ++ fraction ++ exponent, rest)

/-- The parts of a number that is written correctly. -/
def Numeral.ofLiteral (literal : List Char) : Numeral :=
  let (minus, behind) := splitMinus literal
  let (whole, rest) := splitDigits behind
  let (fraction, rest) := (splitFraction? rest).getD ([], [])
  ⟨!minus.isEmpty, whole, fraction.drop 1, readInteger? (rest.drop 1)⟩

/-- The size of a number without its sign. -/
def Numeral.magnitude? (n : Numeral) : Option Float :=
  let (front, left) := absorb 0 n.whole
  let (significand, unread) := absorb front n.fraction
  let value := Float.ofNat significand
  if left.isEmpty && n.fraction.isEmpty && n.exponent.isNone then some value
  else
    let behind := n.fraction.length - unread.length
    scaleByTen value ((left.length : Int) - behind + n.exponent.getD 0)

/-- The float that a number spells. -/
def toFloat? (literal : List Char) : Option Float :=
  let n := Numeral.ofLiteral literal
  n.magnitude?.map fun x => if n.negative then -x else x

/-! ## Nothing is lost -/

theorem splitMinus_append (cs : List Char) : (splitMinus cs).1 ++ (splitMinus cs).2 = cs := by
  cases cs with
  | nil => rfl
  | cons c cs => simp only [splitMinus]; split <;> rfl

theorem splitFraction?_append {cs text rest : List Char}
    (h : splitFraction? cs = some (text, rest)) : text ++ rest = cs := by
  cases cs with
  | nil => cases h; rfl
  | cons c cs =>
    simp only [splitFraction?] at h
    split at h
    · split at h
      · cases h
      · cases h
        rw [List.cons_append, splitDigits, splitWhile_append]
    · cases h
      rfl

theorem splitExponent?_append {cs text rest : List Char}
    (h : splitExponent? cs = some (text, rest)) : text ++ rest = cs := by
  cases cs with
  | nil => cases h; rfl
  | cons c cs =>
    simp only [splitExponent?] at h
    split at h
    · split at h
      · cases h
      · cases h
        rw [List.cons_append, List.append_assoc, splitDigits, splitWhile_append, splitSign_append]
    · cases h
      rfl

/-- A number is the start of the text it is taken from, and not empty. -/
theorem splitNumber?_append {cs literal rest : List Char}
    (h : splitNumber? cs = some (literal, rest)) : literal ++ rest = cs ∧ literal ≠ [] := by
  simp only [splitNumber?] at h
  split at h
  · cases h
  · rename_i valid
    simp only [Bool.or_eq_true, not_or, List.isEmpty_iff] at valid
    simp only [bind, Option.bind_eq_some_iff, pure, Option.some.injEq, Prod.mk.injEq,
      Prod.exists] at h
    obtain ⟨fraction, behind, first, exponent, left, second, rfl, rfl⟩ := h
    refine ⟨?_, by simp [valid.1]⟩
    rw [List.append_assoc, List.append_assoc, List.append_assoc, splitExponent?_append second,
      splitFraction?_append first, splitDigits, splitWhile_append, splitMinus_append]

/-! ## Writing -/

/-- The written form of a finite float; `null` for the others. -/
def floatText? (x : Float) : Option (List Char) :=
  if x.isFinite then some (Layout.json.floatText x).toList else none

end UnitCalc.Json
