/-!
# Strings of JSON

Between its quotes a string writes the quote, the backslash and the control characters as escapes
and every other character as it is. An escape with a hexadecimal number stands for a sixteen-bit
unit; two of them can form a pair that stands for one character. Half of such a pair is allowed
where nobody reads the string, but it spells no text.
-/

namespace UnitCalc.Json

/-- The digits of hexadecimal numbers. -/
def hexDigit (n : Nat) : Char := Char.ofNat (if n < 10 then '0'.toNat + n else 'a'.toNat + (n - 10))

/-- The value of a digit of a hexadecimal number, in small or capital letters. -/
def hexValue? (c : Char) : Option Nat :=
  if '0' ≤ c ∧ c ≤ '9' then some (c.toNat - '0'.toNat)
  else if 'a' ≤ c ∧ c ≤ 'f' then some (c.toNat - 'a'.toNat + 10)
  else if 'A' ≤ c ∧ c ≤ 'F' then some (c.toNat - 'A'.toNat + 10)
  else none

/-- The sixteen-bit unit that four digits spell. -/
def hexUnit? (a b c d : Char) : Option Nat := do
  pure ((((← hexValue? a) * 16 + (← hexValue? b)) * 16 + (← hexValue? c)) * 16 + (← hexValue? d))

/-- A character as it is written between quotes. -/
def escapeChar (c : Char) : List Char :=
  if c = '"' then ['\\', '"']
  else if c = '\\' then ['\\', '\\']
  else if c = '\n' then ['\\', 'n']
  else if c = '\t' then ['\\', 't']
  else if c = '\r' then ['\\', 'r']
  else if c = '\x08' then ['\\', 'b']
  else if c = '\x0c' then ['\\', 'f']
  else if c.toNat < 0x20 then
    ['\\', 'u', '0', '0', hexDigit (c.toNat / 16), hexDigit (c.toNat % 16)]
  else [c]

/-- A text as it is written between quotes. -/
def escape (cs : List Char) : List Char := cs.flatMap escapeChar

/-- The character that a backslash and a letter stand for. -/
def shortEscape? (c : Char) : Option Char :=
  if c = '"' ∨ c = '\\' ∨ c = '/' then some c
  else if c = 'b' then some '\x08'
  else if c = 'f' then some '\x0c'
  else if c = 'n' then some '\n'
  else if c = 'r' then some '\r'
  else if c = 't' then some '\t'
  else none

/-- Whether a unit is the first half of a pair. -/
def isLeading (unit : Nat) : Bool := 0xD800 ≤ unit && unit ≤ 0xDBFF

/-- Whether a unit is the second half of a pair. -/
def isTrailing (unit : Nat) : Bool := 0xDC00 ≤ unit && unit ≤ 0xDFFF

/-- The character that a pair stands for. -/
def pairChar (leading trailing : Nat) : Char :=
  Char.ofNat (0x10000 + (leading - 0xD800) * 0x400 + (trailing - 0xDC00))

/-- The text that the writing between quotes spells. -/
def unescape? : List Char → Option (List Char)
  | [] => some []
  | c :: cs =>
    if c = '\\' then
      match cs with
      | 'u' :: a :: b :: d :: e :: rest =>
        match hexUnit? a b d e with
        | none => none
        | some unit =>
          if isLeading unit then
            match rest with
            | '\\' :: 'u' :: a :: b :: d :: e :: rest =>
              match hexUnit? a b d e with
              | none => none
              | some second =>
                if isTrailing second then (unescape? rest).map (pairChar unit second :: ·) else none
            | _ => none
          else if isTrailing unit then none
          else (unescape? rest).map (Char.ofNat unit :: ·)
      | e :: rest =>
        match shortEscape? e with
        | none => none
        | some c => (unescape? rest).map (c :: ·)
      | [] => none
    else (unescape? cs).map (c :: ·)

/-- Takes the writing of a string up to its closing quote, and gives what stands behind that.
Control characters and unknown escapes are refused. -/
def splitBody? : List Char → Option (List Char × List Char)
  | [] => none
  | c :: cs =>
    if c = '"' then some ([], cs)
    else if c = '\\' then
      match cs with
      | 'u' :: a :: b :: d :: e :: rest =>
        if (hexUnit? a b d e).isSome then
          (splitBody? rest).map fun (body, rest) => (c :: 'u' :: a :: b :: d :: e :: body, rest)
        else none
      | e :: rest =>
        if (shortEscape? e).isSome then
          (splitBody? rest).map fun (body, rest) => (c :: e :: body, rest)
        else none
      | [] => none
    else if c.toNat < 0x20 then none
    else (splitBody? cs).map fun (body, rest) => (c :: body, rest)

/-- What stands behind a string is shorter than the text that starts with the string. -/
theorem length_lt_of_splitBody? {cs body rest : List Char}
    (h : splitBody? cs = some (body, rest)) : rest.length < cs.length := by
  fun_induction splitBody? cs generalizing body rest <;>
    simp only [Option.map_eq_some_iff, Option.some.injEq, Prod.mk.injEq, Prod.exists,
      reduceCtorEq] at h
  case case2 => obtain ⟨-, rfl⟩ := h; simp
  all_goals
    obtain ⟨body, rest, found, rfl, rfl⟩ := h
    rename_i ih
    have := ih found
    simp only [List.length_cons]
    omega

end UnitCalc.Json
