import Std.Data.HashMap
import UnitCalc.Quantity

/-!
# Catalogues of units

A catalogue is a list of unit definitions together with an index from spellings to positions in the
list. Where two definitions claim a spelling, the earlier one has it, and the primary symbol of a
definition claims before its alternate.
-/

namespace UnitCalc

/-- One unit: its spellings and what it stands for. -/
structure UnitDefinition where
  /-- The primary symbol. -/
  symbol : String
  /-- Another spelling, if there is one. -/
  alternate : Option String
  /-- The unit in base units. -/
  quantity : Quantity

/-- The spellings of a unit, the primary symbol first. -/
def UnitDefinition.spellings (d : UnitDefinition) : List String := d.symbol :: d.alternate.toList

/-- A list of units with an index of their spellings. -/
structure Catalogue where
  /-- The definitions, in order. -/
  definitions : List UnitDefinition
  /-- The position of the definition that has a spelling. -/
  index : Std.HashMap String Nat

namespace Catalogue

/-- Claims spellings for a position; those that are taken stay as they are. -/
def claim (index : Std.HashMap String Nat) (position : Nat) (spellings : List String) :
    Std.HashMap String Nat :=
  spellings.foldl (fun index spelling => index.insertIfNew spelling position) index

/-- Claims the spellings of definitions in order, the first of which has the given position. -/
def claimAll (index : Std.HashMap String Nat) (position : Nat) :
    List UnitDefinition → Std.HashMap String Nat
  | [] => index
  | d :: ds => claimAll (claim index position d.spellings) (position + 1) ds

/-- The catalogue of a list of definitions. -/
def ofList (definitions : List UnitDefinition) : Catalogue :=
  ⟨definitions, claimAll ∅ 0 definitions⟩

/-- The catalogue without units. -/
def empty : Catalogue := ofList []

/-- The seven base units. -/
def baseUnits : Catalogue :=
  ofList (BaseUnit.all.map fun u => ⟨u.symbol, none, ⟨.ofUnit u, 1.0⟩⟩)

/-- The definition that has a spelling. -/
def get? (c : Catalogue) (spelling : String) : Option UnitDefinition :=
  match c.index[spelling]? with
  | some position => c.definitions[position]?
  | none => none

/-- What a spelling stands for. -/
def lookup? (c : Catalogue) (spelling : String) : Option Quantity :=
  (c.get? spelling).map UnitDefinition.quantity

/-- Whether a spelling is known. -/
def contains (c : Catalogue) (spelling : String) : Bool := c.index.contains spelling

/-- The primary symbols in order. -/
def symbols (c : Catalogue) : List String := c.definitions.map UnitDefinition.symbol

/-- The number of definitions. -/
def size (c : Catalogue) : Nat := c.definitions.length

/-- Whether there is no definition. -/
def isEmpty (c : Catalogue) : Bool := c.definitions.isEmpty

end Catalogue

end UnitCalc
