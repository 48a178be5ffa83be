/-!
# JSON

A value of JSON keeps its numbers and strings as they are written; what they stand for is the matter
of `Json.Numeral` and `Json.Quoted`. The written form is compact: no blank stands between its parts.
-/

namespace UnitCalc

/-- A value of JSON. -/
inductive Json where
  /-- The value `null`. -/
  | null
  /-- A truth value. -/
  | bool (b : Bool)
  /-- A number, as it is written. -/
  | number (literal : List Char)
  /-- A string, as it is written between its quotes. -/
  | string (body : List Char)
  /-- An array. -/
  | array (items : List Json)
  /-- An object; a key is a string, as it is written between its quotes. -/
  | object (members : List (List Char × Json))
  deriving Inhabited

namespace Json

/-- A string in its quotes, in front of a text. -/
def quoted (body rest : List Char) : List Char := '"' :: (body ++ '"' :: rest)

mutual

/-- The written form of a value, in front of a text. -/
def write : Json → List Char → List Char
  | null, rest => "null".toList ++ rest
  | bool true, rest => "true".toList ++ rest
  | bool false, rest => "false".toList ++ rest
  | number literal, rest => literal ++ rest
  | string body, rest => quoted body rest
  | array [], rest => '[' :: ']' :: rest
  | array (j :: js), rest => '[' :: write j (writeItems js rest)
  | object [], rest => '\x7b' :: '\x7d' :: rest
  | object ((key, j) :: ms), rest => '\x7b' :: quoted key (':' :: write j (writeMembers ms rest))

/-- The written form of the further items of an array, to its end, in front of a text. -/
def writeItems : List Json → List Char → List Char
  | [], rest => ']' :: rest
  | j :: js, rest => ',' :: write j (writeItems js rest)

/-- The written form of the further members of an object, to its end, in front of a text. -/
def writeMembers : List (List Char × Json) → List Char → List Char
  | [], rest => '\x7d' :: rest
  | (key, j) :: ms, rest => ',' :: quoted key (':' :: write j (writeMembers ms rest))

end

/-- The written form of a value. -/
def text (j : Json) : List Char := write j []

end Json

end UnitCalc
