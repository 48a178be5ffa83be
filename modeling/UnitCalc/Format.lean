import UnitCalc.Text.Blank

/-!
# Output formats

Results are shown as a block of text or as one object of JSON on one line.
-/

namespace UnitCalc

/-- The way in which results are shown. -/
inductive Format where
  /-- A block of text. -/
  | text
  /-- One object of JSON. -/
  | json
  deriving Repr, DecidableEq

namespace Format

/-- The format when nothing else is said. -/
instance : Inhabited Format := ⟨text⟩

/-- The name of a format. -/
def name : Format → String
  | text => "text"
  | json => "json"

/-- The format with a name, whose letters can be small or capital and which can have blanks around
it; otherwise a message about the name. -/
def ofName (s : String) : Except String Format :=
  let lowered := String.ofList ((Text.trim s.toList).map Char.toLower)
  if lowered = "text" then .ok text
  else if lowered = "json" then .ok json
  else .error s!"unknown output format '{lowered}', expected text or json"

end Format

end UnitCalc
