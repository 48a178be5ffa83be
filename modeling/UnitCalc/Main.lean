import UnitCalc.Command

/-!
# The program

The outer layer: it hands the arguments, the environment and the file of the database to the
library, writes what comes back, and reads the lines of a session one by one, so that each answer is
there before the next line is asked for.
-/

namespace UnitCalc.Program

/-- The reason why a file cannot be read. -/
def readReason : IO.Error → String
  | .noFileOrDirectory .. => "No such file or directory (os error 2)"
  | .inappropriateType .. => "Is a directory (os error 21)"
  | .permissionDenied .. => "Permission denied (os error 13)"
  | error => toString error

/-- The content of a file, or the reason why it cannot be read. -/
def readWhole (path : String) : IO (Except String ByteArray) := do
  try
    return .ok (← IO.FS.readBinFile path)
  catch error =>
    return .error (readReason error)

/-- The bytes up to and with the next line feed. -/
partial def readLine (input : IO.FS.Stream) (line : ByteArray) : IO ByteArray := do
  let more ← input.read 1
  if more.isEmpty then return line
  let line := line ++ more
  if more.toList = [0x0A] then return line
  readLine input line

/-- Answers line after line until the session ends; the exit status. -/
partial def hold (converter : Converter) (format : Format) : IO UInt32 := do
  let output ← IO.getStdout
  output.putStr Session.prompt
  output.flush
  let line ← readLine (← IO.getStdin) .empty
  if line.isEmpty then
    output.putStr "\n"
    return 0
  match String.fromUTF8? line with
  | none =>
    IO.eprint (Command.errorLine Text.notUtf8)
    return 1
  | some text =>
    match Session.reply converter format text with
    | .quit => return 0
    | .silence => hold converter format
    | .answer answer =>
      output.putStr answer
      hold converter format

end UnitCalc.Program

open UnitCalc UnitCalc.Program

/-- The program. -/
def main (arguments : List String) : IO UInt32 := do
  let values ← [databaseVariable, limitVariable, formatVariable].mapM fun name =>
    return (name, ← IO.getEnv name)
  let lookup := fun name => (values.lookup name).join
  let path := Settings.value? lookup databaseVariable
  let content ←
    match path with
    | some path => readWhole path
    | none => pure (.error "")
  if arguments.isEmpty then
    match Command.start lookup fun _ => content with
    | .ok (converter, format) => return ← hold converter format
    | .error _ => pure ()
  let outcome := Command.run arguments lookup (fun _ => content) []
  IO.print outcome.output
  IO.eprint outcome.errors
  return outcome.status
