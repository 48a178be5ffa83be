/-!
# Well-formed UTF-8

Whether bytes are well-formed UTF-8 is answered by `String.fromUTF8?`. What this module adds is the
place of the fault: the length of the longest prefix made of whole, well-formed characters. A
character of several bytes is described by the range of its second byte and the number of bytes
after that one, each of which lies between 0x80 and 0xBF.
-/

namespace UnitCalc.Text

/-- How a character of several bytes goes on after its first byte. -/
structure Continuation where
  /-- The least second byte. -/
  least : UInt8
  /-- The greatest second byte. -/
  greatest : UInt8
  /-- The number of bytes after the second. -/
  further : Nat

/-- What follows a first byte: `none` when the byte starts no character of several bytes. The ranges
of the second byte leave out overlong forms, surrogates and numbers above U+10FFFF. -/
def Continuation.ofFirst? (b : UInt8) : Option Continuation :=
  if 0xC2 ≤ b && b ≤ 0xDF then some ⟨0x80, 0xBF, 0⟩
  else if b == 0xE0 then some ⟨0xA0, 0xBF, 1⟩
  else if b == 0xED then some ⟨0x80, 0x9F, 1⟩
  else if 0xE1 ≤ b && b ≤ 0xEF then some ⟨0x80, 0xBF, 1⟩
  else if b == 0xF0 then some ⟨0x90, 0xBF, 2⟩
  else if 0xF1 ≤ b && b ≤ 0xF3 then some ⟨0x80, 0xBF, 2⟩
  else if b == 0xF4 then some ⟨0x80, 0x8F, 2⟩
  else none

/-- The state between two bytes: the bytes in whole characters so far, the bytes of the character
under way, and what that character still needs. -/
structure Utf8Scan where
  /-- The number of bytes in the characters that are complete. -/
  complete : Nat
  /-- The number of bytes of the character under way. -/
  started : Nat
  /-- What the character under way needs; `none` between characters. -/
  needs : Option Continuation

/-- One more byte: `none` when it cannot stand there. -/
def Utf8Scan.next? (s : Utf8Scan) (b : UInt8) : Option Utf8Scan :=
  match s.needs with
  | none =>
    if b < 0x80 then some ⟨s.complete + 1, 0, none⟩
    else (Continuation.ofFirst? b).map fun k => ⟨s.complete, 1, some k⟩
  | some k =>
    if k.least ≤ b && b ≤ k.greatest then
      match k.further with
      | 0 => some ⟨s.complete + s.started + 1, 0, none⟩
      | n + 1 => some ⟨s.complete, s.started + 1, some ⟨0x80, 0xBF, n⟩⟩
    else none

/-- The complete characters' bytes when the scan goes on over these bytes as far as it can. -/
def Utf8Scan.run (s : Utf8Scan) : List UInt8 → Nat
  | [] => s.complete
  | b :: bs =>
    match s.next? b with
    | none => s.complete
    | some s' => s'.run bs

/-- The number of bytes in front of the first byte that belongs to no well-formed character. -/
def wellFormedLength (bs : List UInt8) : Nat := Utf8Scan.run ⟨0, 0, none⟩ bs

/-- The message about bytes that are not UTF-8. -/
def notUtf8 : String := "stream did not contain valid UTF-8"

/-- The text that the bytes spell, or the number of bytes in front of the fault. -/
def decodeUtf8 (bs : List UInt8) : Except Nat String :=
  match String.fromUTF8? bs.toByteArray with
  | some s => .ok s
  | none => .error (wellFormedLength bs)

end UnitCalc.Text
