import UnitCalc.Json.Basic
import UnitCalc.Json.Numeral
import UnitCalc.Json.Quoted

/-!
# Reading JSON

A text is read as one value with blanks around its parts. Each function reads from the start of a
text and gives the rest, which is shorter.
-/

namespace UnitCalc.Json

/-- Whether a character can stand between the parts of a value. -/
def isSpace (c : Char) : Bool := c = ' ' || c = '\n' || c = '\t' || c = '\r'

/-- The text without the blanks in front of it. -/
def skipSpace (cs : List Char) : List Char := cs.dropWhile isSpace

theorem length_skipSpace_le (cs : List Char) : (skipSpace cs).length ≤ cs.length :=
  (List.dropWhile_sublist _).length_le

theorem length_lt_of_skipSpace {cs rest : List Char} {c : Char} (h : skipSpace cs = c :: rest) :
    rest.length < cs.length := by
  have := length_skipSpace_le cs
  rwa [h] at this

/-- What was read from the start of a text, and the rest of the text. -/
abbrev Parsed (α : Type) (cs : List Char) : Type :=
  Option (α × { rest : List Char // rest.length < cs.length })

/-- The word at the start of a text for the value it stands for. -/
def word? (word : String) (j : Json) (cs : List Char) : Option (Json × List Char) :=
  if word.toList.isPrefixOf cs then some (j, cs.drop word.toList.length) else none

/-- The value that is neither array nor object at the start of a text, and the rest. -/
def leaf? (cs : List Char) : Option (Json × List Char) :=
  match cs with
  | '"' :: rest => (splitBody? rest).map fun (body, rest) => (string body, rest)
  | 'n' :: _ => word? "null" null cs
  | 't' :: _ => word? "true" (bool true) cs
  | 'f' :: _ => word? "false" (bool false) cs
  | _ => (splitNumber? cs).map fun (literal, rest) => (number literal, rest)

theorem length_lt_of_word? {word : String} {j k : Json} {cs rest : List Char}
    (nonempty : word.toList ≠ []) (h : word? word j cs = some (k, rest)) :
    rest.length < cs.length := by
  simp only [word?, Option.ite_none_right_eq_some, Option.some.injEq, Prod.mk.injEq] at h
  obtain ⟨start, -, rfl⟩ := h
  have := (List.isPrefixOf_iff_prefix.1 start).length_le
  have := List.length_pos_iff.2 nonempty
  rw [List.length_drop]
  omega

theorem length_lt_of_leaf? {cs rest : List Char} {j : Json} (h : leaf? cs = some (j, rest)) :
    rest.length < cs.length := by
  simp only [leaf?] at h
  split at h
  · simp only [Option.map_eq_some_iff, Prod.exists, Prod.mk.injEq] at h
    obtain ⟨body, behind, found, -, rfl⟩ := h
    exact Nat.lt_succ_of_lt (length_lt_of_splitBody? found)
  · exact length_lt_of_word? (by decide) h
  · exact length_lt_of_word? (by decide) h
  · exact length_lt_of_word? (by decide) h
  · simp only [Option.map_eq_some_iff, Prod.exists, Prod.mk.injEq] at h
    obtain ⟨literal, behind, found, -, rfl⟩ := h
    exact Text.length_lt_of_append (splitNumber?_append found).1 (splitNumber?_append found).2

mutual

/-- Reads a value. -/
def value? (cs : List Char) : Parsed Json cs :=
  match starts : skipSpace cs with
  | '[' :: inner =>
    have inside := length_lt_of_skipSpace starts
    match first : skipSpace inner with
    | ']' :: rest =>
      some (array [], ⟨rest, Nat.lt_trans (length_lt_of_skipSpace first) inside⟩)
    | _ =>
      match items? inner with
      | none => none
      | some (items, ⟨rest, shorter⟩) => some (array items, ⟨rest, Nat.lt_trans shorter inside⟩)
  | '\x7b' :: inner =>
    have inside := length_lt_of_skipSpace starts
    match first : skipSpace inner with
    | '\x7d' :: rest =>
      some (object [], ⟨rest, Nat.lt_trans (length_lt_of_skipSpace first) inside⟩)
    | _ =>
      match members? inner with
      | none => none
      | some (members, ⟨rest, shorter⟩) =>
        some (object members, ⟨rest, Nat.lt_trans shorter inside⟩)
  | other =>
    match found : leaf? other with
    | none => none
    | some (j, rest) =>
      some (j, ⟨rest, Nat.lt_of_lt_of_le (length_lt_of_leaf? found)
        (starts ▸ length_skipSpace_le cs)⟩)
termination_by (cs.length, 0)

/-- Reads the items of an array, at least one, and its end. -/
def items? (cs : List Char) : Parsed (List Json) cs :=
  match value? cs with
  | none => none
  | some (j, ⟨behind, shorter⟩) =>
    match next : skipSpace behind with
    | ']' :: rest => some ([j], ⟨rest, Nat.lt_trans (length_lt_of_skipSpace next) shorter⟩)
    | ',' :: more =>
      have inside := Nat.lt_trans (length_lt_of_skipSpace next) shorter
      match items? more with
      | none => none
      | some (items, ⟨rest, shorter⟩) => some (j :: items, ⟨rest, Nat.lt_trans shorter inside⟩)
    | _ => none
termination_by (cs.length, 1)

/-- Reads the members of an object, at least one, and its end. -/
def members? (cs : List Char) : Parsed (List (List Char × Json)) cs :=
  match first : skipSpace cs with
  | '"' :: named =>
    match found : splitBody? named with
    | none => none
    | some (key, unnamed) =>
      have keyed := Nat.lt_trans (length_lt_of_splitBody? found) (length_lt_of_skipSpace first)
      match colon : skipSpace unnamed with
      | ':' :: held =>
        have inside := Nat.lt_trans (length_lt_of_skipSpace colon) keyed
        match value? held with
        | none => none
        | some (j, ⟨behind, shorter⟩) =>
          have passed := Nat.lt_trans shorter inside
          match next : skipSpace behind with
          | '\x7d' :: rest =>
            some ([(key, j)], ⟨rest, Nat.lt_trans (length_lt_of_skipSpace next) passed⟩)
          | ',' :: more =>
            have further := Nat.lt_trans (length_lt_of_skipSpace next) passed
            match members? more with
            | none => none
            | some (members, ⟨rest, shorter⟩) =>
              some ((key, j) :: members, ⟨rest, Nat.lt_trans shorter further⟩)
          | _ => none
      | _ => none
  | _ => none
termination_by (cs.length, 1)

end

/-- Reads a text that is one value. -/
def read? (cs : List Char) : Option Json :=
  match value? cs with
  | some (j, ⟨rest, _⟩) => if (skipSpace rest).isEmpty then some j else none
  | none => none

end UnitCalc.Json
