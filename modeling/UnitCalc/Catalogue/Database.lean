import UnitCalc.Catalogue.Basic
import UnitCalc.Catalogue.Sheet
import UnitCalc.Text.Utf8

/-!
# Unit databases

A database is a sheet whose first row names the columns. Columns with a name that is not known are
ignored, a blank number is zero, and a blank alternate spelling is none. Rows are read in order, and
the first fault ends the reading: cells that are no text, then a row of the wrong shape, then a
missing symbol, then the numbers in the order of the base units, the coefficient last. A row whose
cells are all blank is skipped.
-/

namespace UnitCalc

open Text

/-- The columns that have a meaning. -/
inductive Column where
  /-- The primary symbol. -/
  | symbol
  /-- Another spelling. -/
  | alternate
  /-- The exponent of a base unit. -/
  | exponent (u : BaseUnit)
  /-- The coefficient. -/
  | coefficient
  deriving Repr, DecidableEq

namespace Column

/-- The columns that have a meaning. -/
def all : List Column := symbol :: alternate :: BaseUnit.all.map exponent ++ [coefficient]

/-- The name of a column. -/
def name : Column → String
  | symbol => "Symbol"
  | alternate => "Alternate Symbol"
  | exponent u => u.symbol
  | coefficient => "COEFF"

/-- The column with a name. -/
def ofName? (s : String) : Option Column := all.find? fun c => c.name == s

end Column

/-- A fault of a sheet that concerns no single number. -/
inductive SheetError where
  /-- A cell is not well-formed UTF-8 at this offset. -/
  | notText (place : Place) (cell offset : Nat)
  /-- The row has fewer cells than the header. -/
  | shortRow (place : Place)
  /-- The header names a column twice. -/
  | repeatedColumn (place : Place) (column : Column)
  deriving Repr, DecidableEq

/-- The wording of a fault of a sheet. -/
def SheetError.message : SheetError → String
  | notText p cell offset =>
    s!"CSV parse error: record {p.record} (line {p.line}, field: {cell}, byte: {p.byte}): " ++
      s!"invalid utf-8: invalid UTF-8 in field {cell} near byte index {offset}"
  | shortRow p =>
    s!"CSV deserialize error: record {p.record} (line: {p.line}, byte: {p.byte}): " ++
      "expected field, but got end of row"
  | repeatedColumn p column =>
    s!"CSV deserialize error: record {p.record} (line: {p.line}, byte: {p.byte}): " ++
      "duplicate field \x60" ++ column.name ++ "\x60"

/-- Why a database cannot be loaded. -/
inductive DatabaseError where
  /-- The file cannot be read. -/
  | unreadable (path reason : String)
  /-- The sheet is at fault. -/
  | sheet (error : SheetError)
  /-- A row has no symbol. -/
  | missingSymbol (line : Nat)
  /-- A cell is not a finite number. -/
  | badNumber (line : Nat) (column : Column) (source : NumberError)
  deriving Repr, DecidableEq

/-- The wording of a failed load. -/
def DatabaseError.message : DatabaseError → String
  | unreadable path reason => s!"failed to read unit database {path}: {reason}"
  | sheet error => s!"failed to parse CSV: {error.message}"
  | missingSymbol line => s!"line {line}: missing symbol"
  | badNumber line column source => s!"line {line}: field '{column.name}': {source.message}"

namespace Database

/-- The cells of a row as texts, without the blanks around them; `index` is the index of the first
of them in its row. -/
def texts (place : Place) (index : Nat) : List (List UInt8) → Except SheetError (List String)
  | [] => .ok []
  | cell :: cells =>
    match decodeUtf8 cell with
    | .error offset => .error (.notText place index offset)
    | .ok s => (texts place (index + 1) cells).map (trimString s :: ·)

/-- Gives the cells of a row to the columns of the header, which are walked in order. `given` holds
the columns that have their cell. -/
def assign (place : Place) (given : List (Column × String)) :
    List String → List String → Except SheetError (List (Column × String))
  | [], _ => .ok given
  | name :: names, cells =>
    match Column.ofName? name with
    | some column =>
      if given.any fun g => g.1 = column then .error (.repeatedColumn place column)
      else
        match cells with
        | [] => .error (.shortRow place)
        | cell :: cells => assign place ((column, cell) :: given) names cells
    | none =>
      match cells with
      | [] => .error (.shortRow place)
      | _ :: cells => assign place given names cells

/-- The cell of a column; a column that is not there has blank cells. -/
def cellOf (given : List (Column × String)) (column : Column) : String :=
  (given.lookup column).getD ""

/-- The number in a column. -/
def numberOf (line : Nat) (given : List (Column × String)) (column : Column) :
    Except DatabaseError Float :=
  let cell := cellOf given column
  if cell.isEmpty then .ok 0.0
  else
    match readNumber cell with
    | .ok x => .ok x
    | .error source => .error (.badNumber line column source)

/-- The unit that a row defines. -/
def definition (line : Nat) (given : List (Column × String)) :
    Except DatabaseError UnitDefinition := do
  let symbol := cellOf given .symbol
  if symbol.isEmpty then
    .error (.missingSymbol line)
  else
    let dimension ← Dimension.ofFnExcept fun u => numberOf line given (.exponent u)
    let coefficient ← numberOf line given .coefficient
    let alternate := cellOf given .alternate
    pure ⟨symbol, if alternate.isEmpty then none else some alternate, ⟨dimension, coefficient⟩⟩

/-- The unit that the texts of a row define under a header; none when all of them are blank. -/
def definition? (header : List String) (place : Place) (cells : List String) :
    Except DatabaseError (Option UnitDefinition) :=
  if cells.all String.isEmpty then .ok none
  else
    match assign place [] header cells with
    | .error error => .error (.sheet error)
    | .ok given => (definition place.line given).map some

/-- The units that rows define under a header. The blank bytes around a cell are taken off before it
is read as a text, so the offset of a fault counts from the first byte that is not blank. -/
def definitions (header : List String) : List Row → Except DatabaseError (List UnitDefinition)
  | [] => .ok []
  | row :: rows =>
    match texts row.place 0 (row.cells.map trimBytes) with
    | .error error => .error (.sheet error)
    | .ok cells => do
      let unit? ← definition? header row.place cells
      let rest ← definitions header rows
      pure (unit?.toList ++ rest)

/-- The catalogue that the rows of a sheet define, the first of which is the header. The header's
cells are read as texts with all their bytes. -/
def ofRows : List Row → Except DatabaseError Catalogue
  | [] => .ok .empty
  | header :: rows =>
    match texts header.place 0 header.cells with
    | .error error => .error (.sheet error)
    | .ok names => (definitions names rows).map Catalogue.ofList

end Database

namespace Catalogue

/-- Loads a catalogue from the bytes of a sheet. -/
def ofBytes (bytes : List UInt8) : Except DatabaseError Catalogue :=
  Database.ofRows (Sheet.rows bytes)

/-- Loads a catalogue from a text. One byte order mark in front of it is dropped. -/
def ofText (text : String) : Except DatabaseError Catalogue :=
  match text.toList with
  | '\ufeff' :: cs => ofBytes (String.ofList cs).toUTF8.toList
  | _ => ofBytes text.toUTF8.toList

/-- Loads a catalogue from a file, of which either the content or the reason is known why it cannot
be read. The whole file has to be UTF-8. -/
def ofFile (path : String) (content : Except String ByteArray) : Except DatabaseError Catalogue :=
  match content with
  | .error reason => .error (.unreadable path reason)
  | .ok bytes =>
    match String.fromUTF8? bytes with
    | none => .error (.unreadable path notUtf8)
    | some text => ofText text

end Catalogue

end UnitCalc
