/-!
# Blank characters

Blanks separate the pieces of an expression and surround the cells of a sheet and the values of
settings. A character is blank when it has the Unicode property White_Space; the zero-width space,
the byte order mark and the separators U+001C to U+001F do not have it.
-/

namespace UnitCalc.Text

/-- Whether a character has the Unicode property White_Space. -/
def isBlank (c : Char) : Bool :=
  let n := c.toNat
  (0x09 ≤ n && n ≤ 0x0D) || n == 0x20 || n == 0x85 || n == 0xA0 || n == 0x1680 ||
    (0x2000 ≤ n && n ≤ 0x200A) || n == 0x2028 || n == 0x2029 || n == 0x202F || n == 0x205F ||
    n == 0x3000

/-- The text without the blanks in front of it. -/
def dropBlanks (cs : List Char) : List Char := cs.dropWhile isBlank

/-- The text without the blanks at either end. -/
def trim (cs : List Char) : List Char := (dropBlanks (dropBlanks cs).reverse).reverse

/-- The string without the blanks at either end. -/
def trimString (s : String) : String := String.ofList (trim s.toList)

/-- Whether a byte is one of the blanks that can be seen before bytes are read as a text: the space,
the tab, the line feed, the form feed and the carriage return, but not the vertical tab. -/
def isBlankByte (b : UInt8) : Bool :=
  b == 0x20 || b == 0x09 || b == 0x0A || b == 0x0C || b == 0x0D

/-- The bytes without the blank bytes at either end. -/
def trimBytes (bs : List UInt8) : List UInt8 :=
  ((bs.dropWhile isBlankByte).reverse.dropWhile isBlankByte).reverse

/-- Every white-space character of ASCII is blank. -/
theorem isBlank_of_isWhitespace {c : Char} (h : c.isWhitespace = true) : isBlank c = true := by
  simp only [Char.isWhitespace, Bool.or_eq_true, decide_eq_true_eq] at h
  rcases h with ((rfl | rfl) | rfl) | rfl <;> decide

/-- A blank byte spells a blank character, so a trimmed text stays the same when blank bytes are
taken off first. -/
theorem isBlank_of_isBlankByte {b : UInt8} (h : isBlankByte b = true) :
    isBlank (Char.ofNat b.toNat) = true := by
  simp only [isBlankByte, Bool.or_eq_true, beq_iff_eq] at h
  rcases h with (((rfl | rfl) | rfl) | rfl) | rfl <;> decide

/-- Dropping blanks never makes a text longer. -/
theorem length_dropBlanks_le (cs : List Char) : (dropBlanks cs).length ≤ cs.length := by
  induction cs with
  | nil => simp [dropBlanks]
  | cons c cs ih =>
    simp only [dropBlanks, List.dropWhile_cons] at ih ⊢
    split
    · exact Nat.le_succ_of_le ih
    · exact Nat.le_refl _

end UnitCalc.Text
