/-!
# Sheets

A sheet is a text of rows of cells: a comma ends a cell, a line feed or a carriage return ends a
row, and between rows line ends are skipped. A cell that starts with a quote goes on to the next
quote that is not doubled, and what follows the closing quote is taken as it is. The reader takes
one byte at a time, so a row knows where the reader stood when it began to look for it: right behind
the byte that ended the row before.
-/

namespace UnitCalc

/-- Where the reader began to look for a row. -/
structure Place where
  /-- The number of rows before this one. -/
  record : Nat
  /-- One more than the number of line feeds before. -/
  line : Nat
  /-- The number of bytes before. -/
  byte : Nat
  deriving Repr, DecidableEq

/-- A row of a sheet. -/
structure Row where
  /-- Where the reader began to look for the row. -/
  place : Place
  /-- The bytes of its cells, without the quotes around them. -/
  cells : List (List UInt8)
  deriving Repr, DecidableEq

namespace Sheet

/-- The comma. -/
def comma : UInt8 := 0x2C

/-- The quote. -/
def quote : UInt8 := 0x22

/-- The line feed. -/
def lineFeed : UInt8 := 0x0A

/-- The carriage return. -/
def carriageReturn : UInt8 := 0x0D

/-- Whether a byte ends a row. -/
def isLineEnd (b : UInt8) : Bool := b == lineFeed || b == carriageReturn

/-- Where in a row the reader is. -/
inductive Phase where
  /-- Between two rows. -/
  | betweenRows
  /-- At the start of a cell. -/
  | cellStart
  /-- In a cell, outside quotes. -/
  | plain
  /-- In a cell, inside quotes. -/
  | quoted
  /-- Behind a quote that was met inside quotes. -/
  | afterQuote
  deriving Repr, DecidableEq

/-- What the reader knows. Lists are kept with the newest item first. -/
structure Reader where
  /-- Where in a row the reader is. -/
  phase : Phase
  /-- The rows that are complete. -/
  rows : List Row
  /-- Where the reader began to look for the present row. -/
  place : Place
  /-- The complete cells of the present row. -/
  cells : List (List UInt8)
  /-- The bytes of the present cell. -/
  cell : List UInt8
  /-- One more than the number of line feeds taken. -/
  line : Nat
  /-- The number of bytes taken. -/
  byte : Nat

namespace Reader

/-- The reader at the start of a sheet, with a number of bytes already skipped. -/
def start (skipped : Nat) : Reader := ⟨.betweenRows, [], ⟨0, 1, 0⟩, [], [], 1, skipped⟩

/-- Counts a byte. -/
def count (r : Reader) (b : UInt8) : Reader :=
  { r with line := if b == lineFeed then r.line + 1 else r.line, byte := r.byte + 1 }

/-- Adds a byte to the present cell and goes on in a phase. -/
def put (r : Reader) (b : UInt8) (phase : Phase) : Reader :=
  { r with phase, cell := b :: r.cell }

/-- Ends the present cell. -/
def endCell (r : Reader) : Reader :=
  { r with phase := .cellStart, cells := r.cell.reverse :: r.cells, cell := [] }

/-- Ends the present cell and the present row. -/
def endRow (r : Reader) : Reader :=
  let r := r.endCell
  { r with
    phase := .betweenRows
    rows := ⟨r.place, r.cells.reverse⟩ :: r.rows
    place := ⟨r.place.record + 1, r.line, r.byte⟩
    cells := [] }

/-- What a byte does outside quotes when it is no quote of its own. -/
def stepPlain (r : Reader) (b : UInt8) : Reader :=
  if b == comma then r.endCell else if isLineEnd b then r.endRow else r.put b .plain

/-- Takes one byte. -/
def step (r : Reader) (b : UInt8) : Reader :=
  let r := r.count b
  match r.phase with
  | .betweenRows =>
    if isLineEnd b then r
    else if b == quote then { r with phase := .quoted }
    else r.stepPlain b
  | .cellStart => if b == quote then { r with phase := .quoted } else r.stepPlain b
  | .plain => r.stepPlain b
  | .quoted => if b == quote then { r with phase := .afterQuote } else r.put b .quoted
  | .afterQuote => if b == quote then r.put b .quoted else r.stepPlain b

/-- The rows at the end of the text; a row that is under way ends there. -/
def finish (r : Reader) : List Row :=
  match r.phase with
  | .betweenRows => r.rows.reverse
  | _ => r.endRow.rows.reverse

end Reader

/-- The bytes of a byte order mark. -/
def byteOrderMark : List UInt8 := [0xEF, 0xBB, 0xBF]

/-- The rows of a sheet. A byte order mark in front is skipped; its bytes are counted. -/
def rows (bytes : List UInt8) : List Row :=
  if byteOrderMark.isPrefixOf bytes then
    ((bytes.drop byteOrderMark.length).foldl Reader.step (Reader.start byteOrderMark.length)).finish
  else
    (bytes.foldl Reader.step (Reader.start 0)).finish

end Sheet

end UnitCalc
