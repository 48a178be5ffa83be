import UnitCalc.Converter
import UnitCalc.Decimal.Literal
import UnitCalc.Format

/-!
# Settings

Three variables set the unit database, the nesting limit and the output format. The value of a
variable is taken without the blanks around it, and an empty value counts as none.
-/

namespace UnitCalc

/-- The variable that names the unit database. -/
def databaseVariable : String := "BASIS_UNIT_DATABASE"

/-- The variable that sets the nesting limit. -/
def limitVariable : String := "BASIS_MAX_DEPTH"

/-- The variable that sets the output format. -/
def formatVariable : String := "BASIS_OUTPUT"

/-- Why the settings cannot be used. -/
inductive SettingsError where
  /-- The nesting limit is no integer in the range. -/
  | badLimit (value : String)
  /-- The output format is not known. -/
  | badFormat (message : String)
  deriving Repr, DecidableEq

/-- The wording of a fault of the settings. -/
def SettingsError.message : SettingsError → String
  | badLimit value =>
    s!"{limitVariable} must be an integer from 1 to {greatestNestingLimit}, got '{value}'"
  | badFormat message => s!"{formatVariable}: {message}"

/-- What the variables set. -/
structure Settings where
  /-- The file of the unit database; the built-in database when there is none. -/
  database : Option String := none
  /-- The nesting limit. -/
  limit : Nat := defaultNestingLimit
  /-- The output format. -/
  format : Format := default

namespace Settings

/-- The value of a variable without the blanks around it; an empty value counts as none. -/
def value? (lookup : String → Option String) (name : String) : Option String :=
  ((lookup name).map Text.trimString).filter fun value => !value.isEmpty

/-- Reads a natural number: at least one digit, with an optional plus in front. -/
def readNatural? (cs : List Char) : Option Nat :=
  let digits :=
    match cs with
    | '+' :: rest => rest
    | _ => cs
  if digits.isEmpty || !digits.all Char.isDigit then none else some (digitsValue digits)

/-- The nesting limit that a value sets. -/
def readLimit (value : String) : Except SettingsError Nat :=
  match readNatural? value.toList with
  | some n => if 1 ≤ n ∧ n ≤ greatestNestingLimit then .ok n else .error (.badLimit value)
  | none => .error (.badLimit value)

/-- The output format that a value sets. -/
def readFormat (value : String) : Except SettingsError Format :=
  match Format.ofName value with
  | .ok format => .ok format
  | .error message => .error (.badFormat message)

/-- The settings that the variables make; the limit is looked at before the format. -/
def ofLookup (lookup : String → Option String) : Except SettingsError Settings := do
  let limit ←
    match value? lookup limitVariable with
    | some value => readLimit value
    | none => .ok defaultNestingLimit
  let format ←
    match value? lookup formatVariable with
    | some value => readFormat value
    | none => .ok default
  pure ⟨value? lookup databaseVariable, limit, format⟩

end Settings

end UnitCalc
