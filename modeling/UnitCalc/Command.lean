import UnitCalc.Catalogue.Builtin
import UnitCalc.Session
import UnitCalc.Settings

/-!
# The command line

Without arguments the command holds a session; otherwise its arguments are one expression. What it
writes and the status it ends with are a function of its arguments, the variables, the files and the
input.
-/

namespace UnitCalc

namespace Command

/-- What is written when help is asked for. -/
def usage : String :=
  "Usage: basis [EXPRESSION...]\n" ++
  "\n" ++
  "Reduce a unit expression to SI base units (s, m, kg, mol, C, K, cd).\n" ++
  "\n" ++
  "  basis                  interactive prompt, 'q' to quit\n" ++
  "  basis 3 km / (2 s)^2   convert one expression\n" ++
  "\n" ++
  "Operators: * / ^, juxtaposition multiplies, brackets () [] \x7b\x7d.\n" ++
  "\n" ++
  "Environment:\n" ++
  "  BASIS_UNIT_DATABASE    CSV unit database (default: built-in table)\n" ++
  "  BASIS_MAX_DEPTH        nesting limit (default 64)\n" ++
  "  BASIS_OUTPUT           text (default) or json\n" ++
  "  RUST_LOG               log filter (default warn)"

/-- What a run of the command leaves behind. -/
structure Outcome where
  /-- The exit status. -/
  status : UInt32
  /-- What goes to the standard output. -/
  output : String
  /-- What goes to the standard error. -/
  errors : String
  deriving Repr, DecidableEq

/-- Why the command cannot start. -/
inductive StartError where
  /-- The settings cannot be used. -/
  | settings (error : SettingsError)
  /-- The database cannot be loaded. -/
  | database (error : DatabaseError)
  deriving Repr, DecidableEq

/-- The wording of why the command cannot start. -/
def StartError.message : StartError → String
  | settings error => error.message
  | database error => error.message

/-- The line about an error. -/
def errorLine (message : String) : String := s!"Error: {message}\n"

/-- Whether help is asked for. -/
def wantsHelp (arguments : List String) : Bool :=
  arguments.any fun a => a == "-h" || a == "--help"

/-- The outcome of asking for help. -/
def helpOutcome : Outcome := ⟨0, usage ++ "\n", ""⟩

/-- The catalogue that the settings ask for. -/
def catalogue (settings : Settings) (readFile : String → Except String ByteArray) :
    Except DatabaseError Catalogue :=
  match settings.database with
  | some path => Catalogue.ofFile path (readFile path)
  | none => Catalogue.builtin

/-- Without a database named, the built-in catalogue is used. -/
@[simp]
theorem catalogue_of_database_eq_none {settings : Settings}
    {readFile : String → Except String ByteArray} (h : settings.database = none) :
    catalogue settings readFile = Catalogue.builtin := by
  rw [catalogue, h]

/-- A database that is named is the one that is loaded. -/
@[simp]
theorem catalogue_of_database_eq_some {settings : Settings}
    {readFile : String → Except String ByteArray} {path : String}
    (h : settings.database = some path) :
    catalogue settings readFile = Catalogue.ofFile path (readFile path) := by
  rw [catalogue, h]

/-- The converter and the format that the variables ask for. -/
def start (lookup : String → Option String) (readFile : String → Except String ByteArray) :
    Except StartError (Converter × Format) :=
  match Settings.ofLookup lookup with
  | .error error => .error (.settings error)
  | .ok settings =>
    match catalogue settings readFile with
    | .error error => .error (.database error)
    | .ok units =>
      let converter : Converter := { units }
      .ok (converter.withLimit settings.limit, settings.format)

/-- The outcome of a command that cannot start. -/
def startOutcome (error : StartError) : Outcome := ⟨2, "", errorLine error.message⟩

/-- The outcome of a session. -/
def sessionOutcome (transcript : Session.Transcript) : Outcome :=
  match transcript.ending with
  | .unreadable => ⟨1, transcript.output, errorLine Text.notUtf8⟩
  | _ => ⟨0, transcript.output, ""⟩

/-- The outcome of one expression. -/
def expressionOutcome (converter : Converter) (format : Format) (expression : String) : Outcome :=
  ⟨match converter.convert expression with
    | .ok _ => 0
    | .error _ => 1,
    Session.answer converter format expression, ""⟩

/-- A run of the command. -/
def run (arguments : List String) (lookup : String → Option String)
    (readFile : String → Except String ByteArray) (input : List UInt8) : Outcome :=
  if wantsHelp arguments then helpOutcome
  else
    match start lookup readFile with
    | .error error => startOutcome error
    | .ok (converter, format) =>
      if arguments.isEmpty then sessionOutcome (Session.transcript converter format input)
      else expressionOutcome converter format (" ".intercalate arguments)

end Command

end UnitCalc
