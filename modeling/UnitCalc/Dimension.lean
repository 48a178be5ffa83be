import UnitCalc.Number

/-!
# Dimensions

A dimension gives each of the seven base units an exponent. Exponents are floats, since a power such
as `m ^ 0.5` is allowed. Two dimensions are combined base unit by base unit, so each operation is
given by what it does to one exponent (`exponent_ofFn`).
-/

namespace UnitCalc

/-- The seven base units. -/
inductive BaseUnit where
  /-- Time. -/
  | second
  /-- Length. -/
  | metre
  /-- Mass. -/
  | kilogram
  /-- Amount of substance. -/
  | mole
  /-- Electric charge. -/
  | coulomb
  /-- Temperature. -/
  | kelvin
  /-- Luminous intensity. -/
  | candela
  deriving Repr, DecidableEq

namespace BaseUnit

/-- The base units in the order in which they are written. -/
def all : List BaseUnit := [second, metre, kilogram, mole, coulomb, kelvin, candela]

/-- The symbol of a base unit. -/
def symbol : BaseUnit → String
  | second => "s"
  | metre => "m"
  | kilogram => "kg"
  | mole => "mol"
  | coulomb => "C"
  | kelvin => "K"
  | candela => "cd"

/-- The base unit with a symbol. -/
def ofSymbol? (s : String) : Option BaseUnit := all.find? fun u => u.symbol == s

/-- No base unit is missing from the list. -/
theorem mem_all (u : BaseUnit) : u ∈ all := by cases u <;> decide

end BaseUnit

/-- The exponents of the seven base units. -/
structure Dimension where
  /-- The exponent of the second. -/
  second : Float
  /-- The exponent of the metre. -/
  metre : Float
  /-- The exponent of the kilogram. -/
  kilogram : Float
  /-- The exponent of the mole. -/
  mole : Float
  /-- The exponent of the coulomb. -/
  coulomb : Float
  /-- The exponent of the kelvin. -/
  kelvin : Float
  /-- The exponent of the candela. -/
  candela : Float

namespace Dimension

/-- The exponent of a base unit. -/
def exponent (d : Dimension) : BaseUnit → Float
  | .second => d.second
  | .metre => d.metre
  | .kilogram => d.kilogram
  | .mole => d.mole
  | .coulomb => d.coulomb
  | .kelvin => d.kelvin
  | .candela => d.candela

/-- The dimension with the given exponents. -/
def ofFn (f : BaseUnit → Float) : Dimension :=
  ⟨f .second, f .metre, f .kilogram, f .mole, f .coulomb, f .kelvin, f .candela⟩

/-- The dimension whose exponents a computation gives one after the other; the first failure, in the
order of the base units, is the failure of the whole. -/
def ofFnExcept {ε : Type} (f : BaseUnit → Except ε Float) : Except ε Dimension := do
  pure ⟨← f .second, ← f .metre, ← f .kilogram, ← f .mole, ← f .coulomb, ← f .kelvin,
    ← f .candela⟩

@[simp]
theorem exponent_ofFn (f : BaseUnit → Float) (u : BaseUnit) : (ofFn f).exponent u = f u := by
  cases u <;> rfl

/-- A dimension is determined by its exponents. -/
@[ext]
theorem ext_exponent {a b : Dimension} (h : ∀ u, a.exponent u = b.exponent u) : a = b := by
  cases a
  cases b
  simp only [mk.injEq]
  exact ⟨h .second, h .metre, h .kilogram, h .mole, h .coulomb, h .kelvin, h .candela⟩

/-- The dimension of plain numbers. -/
def dimensionless : Dimension := ofFn fun _ => 0.0

/-- The dimension of one base unit. -/
def ofUnit (u : BaseUnit) : Dimension := ofFn fun v => if v = u then 1.0 else 0.0

/-- Length per time. -/
def velocity : Dimension := { dimensionless with second := -1.0, metre := 1.0 }

/-- Mass times length per time squared. -/
def force : Dimension := { dimensionless with second := -2.0, metre := 1.0, kilogram := 1.0 }

/-- The exponents in the order of the base units. -/
def exponents (d : Dimension) : List Float := BaseUnit.all.map d.exponent

/-- Whether every exponent is zero. -/
def isDimensionless (d : Dimension) : Bool := BaseUnit.all.all fun u => d.exponent u == 0.0

/-- Whether every exponent is finite. -/
def isFinite (d : Dimension) : Bool := BaseUnit.all.all fun u => (d.exponent u).isFinite

/-- The dimension of a product: exponents are added. -/
def multiply (a b : Dimension) : Dimension := ofFn fun u => a.exponent u + b.exponent u

/-- The dimension of a quotient: exponents are subtracted. -/
def divide (a b : Dimension) : Dimension := ofFn fun u => a.exponent u - b.exponent u

/-- The dimension of a power: exponents are scaled. -/
def power (d : Dimension) (e : Float) : Dimension := ofFn fun u => d.exponent u * e

/-- Two dimensions agree when their exponents are equal numbers. -/
instance : BEq Dimension where
  beq a b := BaseUnit.all.all fun u => a.exponent u == b.exponent u

/-- The base units whose exponent is not zero, with that exponent. -/
def terms (d : Dimension) : List (BaseUnit × Float) :=
  (BaseUnit.all.filter fun u => d.exponent u != 0.0).map fun u => (u, d.exponent u)

/-- The written form of one base unit with its exponent; an exponent of one is left out. -/
def termText (u : BaseUnit) (e : Float) : String :=
  if e == 1.0 then u.symbol else u.symbol ++ "^" ++ exponentText e

/-- The written form of a dimension: a product of powers of base units. -/
def text (d : Dimension) : String :=
  if d.terms.isEmpty then "Dimensionless"
  else String.intercalate " * " (d.terms.map fun t => termText t.1 t.2)

end Dimension

end UnitCalc
