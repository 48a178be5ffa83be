import UnitCalc.Converter
import UnitCalc.Rendering

/-!
# Interactive sessions

A session asks for one expression after the other and answers each on lines of its own, until a line
that is only the letter q or the end of the input. Lines are bytes; one that is not UTF-8 ends the
session with an error.
-/

namespace UnitCalc

namespace Session

/-- What is written when the next expression can be entered. -/
def prompt : String := "Enter expression: "

/-- What a session does with a line. -/
inductive Reply where
  /-- The session ends. -/
  | quit
  /-- The line is blank, and nothing is written. -/
  | silence
  /-- The answer to an expression. -/
  | answer (text : String)

/-- The rendered outcome of one expression, as a line. -/
def answer (converter : Converter) (format : Format) (expression : String) : String :=
  format.renderOutcome (converter.convert expression) ++ "\n"

/-- What a session does with a line. -/
def reply (converter : Converter) (format : Format) (line : String) : Reply :=
  let expression := Text.trimString line
  if expression = "q" ∨ expression = "Q" then .quit
  else if expression.isEmpty then .silence
  else .answer (answer converter format expression ++ "\n")

/-- How a session ended. -/
inductive Ending where
  /-- The line for it was entered. -/
  | quit
  /-- There was no further line. -/
  | endOfInput
  /-- A line was not UTF-8. -/
  | unreadable
  deriving Repr, DecidableEq

/-- What was written in a session, and how it ended. -/
structure Transcript where
  /-- What was written. -/
  output : String
  /-- How the session ended. -/
  ending : Ending

/-- The transcript with more text in front. -/
def Transcript.after (t : Transcript) (text : String) : Transcript :=
  { t with output := text ++ t.output }

/-- Cuts bytes behind each line feed. What follows the last one is a line too if it is not empty. -/
def lines : List UInt8 → List (List UInt8)
  | [] => []
  | b :: bs =>
    if b == 0x0A then [b] :: lines bs
    else
      match lines bs with
      | [] => [[b]]
      | line :: rest => (b :: line) :: rest

/-- The transcript of a session over lines. -/
def run (converter : Converter) (format : Format) : List (List UInt8) → Transcript
  | [] => ⟨prompt ++ "\n", .endOfInput⟩
  | line :: rest =>
    match String.fromUTF8? line.toByteArray with
    | none => ⟨prompt, .unreadable⟩
    | some text =>
      match reply converter format text with
      | .quit => ⟨prompt, .quit⟩
      | .silence => (run converter format rest).after prompt
      | .answer answer => (run converter format rest).after (prompt ++ answer)

/-- The transcript of a session over the bytes of an input. -/
def transcript (converter : Converter) (format : Format) (input : List UInt8) : Transcript :=
  run converter format (lines input)

end Session

end UnitCalc
