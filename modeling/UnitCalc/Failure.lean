import UnitCalc.Number

/-!
# Why an expression has no value

An expression is refused for its form (`SyntaxError`), for what it asks to be computed
(`EvaluationError`), or because a number is not finite (`NumberError`). A `FailureReport` is what is
shown of a failure: its kind, a code for programs, the message and, where there is an obvious way
out, a suggestion.
-/

namespace UnitCalc

/-- A fault in the form of an expression. Positions count characters from the start of the
expression, and `near` is the text found there. -/
inductive SyntaxError where
  /-- A closing bracket that does not pair with the innermost open one. -/
  | mismatchedBrackets (position : Nat) (near : String)
  /-- A bracket that is never closed. -/
  | unclosedBracket (position : Nat) (near : String)
  /-- A character at which no token starts. -/
  | noToken (position : Nat) (near : String)
  /-- An operator that lacks a neighbour. -/
  | loneOperator (symbol : Char)
  /-- More levels of groups than the limit allows. -/
  | nestingTooDeep (limit : Nat)
  /-- An expression without any token. -/
  | emptyExpression
  /-- A pair of brackets with nothing inside. -/
  | emptyGroup (position : Nat)
  deriving Repr, DecidableEq

/-- A well-formed expression that has no value. -/
inductive EvaluationError where
  /-- A unit that the catalogue does not know. -/
  | unknownUnit (symbol : String)
  /-- An operator that lacks a value on one side. -/
  | loneOperator (symbol : Char)
  /-- A divisor whose coefficient is zero. -/
  | divisionByZero
  /-- An exponent that is not a plain number. -/
  | dimensionedExponent (exponent : String)
  deriving Repr, DecidableEq

/-- Why an expression has no value. -/
inductive ConversionError where
  /-- Its form is at fault. -/
  | badSyntax (error : SyntaxError)
  /-- It asks for something that has no value. -/
  | evaluation (error : EvaluationError)
  /-- A number in it or a result is not finite. -/
  | numeric (error : NumberError)
  deriving Repr, DecidableEq

/-- The three kinds of failure. -/
inductive FailureKind where
  /-- The form of the expression. -/
  | badSyntax
  /-- Its evaluation. -/
  | evaluation
  /-- Its numbers. -/
  | numeric
  deriving Repr, DecidableEq

/-- What is shown of a failure. -/
structure FailureReport where
  /-- The kind of failure. -/
  kind : FailureKind
  /-- A code for programs. -/
  code : String
  /-- A message for people. -/
  message : String
  /-- A way out, if there is an obvious one. -/
  suggestion : Option String
  deriving Repr, DecidableEq

/-- The wording of a fault in the form of an expression. -/
def SyntaxError.message : SyntaxError → String
  | .mismatchedBrackets position near => s!"mismatched brackets at {position} near: {near}"
  | .unclosedBracket position near => s!"unclosed bracket at {position} near: {near}"
  | .noToken position near => s!"cannot parse starting at {position} near: {near}"
  | .loneOperator symbol => s!"lone operator {symbol}"
  | .nestingTooDeep limit => s!"nesting too deep (limit {limit})"
  | .emptyExpression => "empty expression"
  | .emptyGroup position => s!"empty group at {position}"

/-- The code of a fault in the form of an expression. -/
def SyntaxError.code : SyntaxError → String
  | .mismatchedBrackets .. => "MISMATCHED_BRACKETS"
  | .unclosedBracket .. => "UNCLOSED_BRACKET"
  | .noToken .. => "PARSE_ERROR"
  | .loneOperator _ => "LONE_OPERATOR"
  | .nestingTooDeep _ => "NESTING_TOO_DEEP"
  | .emptyExpression | .emptyGroup _ => "EMPTY_EXPRESSION"

/-- The way out of a lone operator. -/
def loneOperatorSuggestion (symbol : Char) : String :=
  s!"Put a value on both sides of '{symbol}'"

/-- The way out of a fault in the form of an expression. -/
def SyntaxError.suggestion : SyntaxError → Option String
  | .mismatchedBrackets .. | .unclosedBracket .. =>
    some "Pair every (, [ or \x7b with its matching closer"
  | .loneOperator symbol => some (loneOperatorSuggestion symbol)
  | .nestingTooDeep _ => some "Flatten the expression or raise the nesting limit"
  | .noToken .. | .emptyExpression | .emptyGroup _ => none

/-- The wording of a failed evaluation. -/
def EvaluationError.message : EvaluationError → String
  | .unknownUnit symbol => s!"unknown unit {symbol}"
  | .loneOperator symbol => s!"lone operator {symbol}"
  | .divisionByZero => "division by zero"
  | .dimensionedExponent exponent => s!"exponent must be dimensionless {exponent}"

/-- The code of a failed evaluation. -/
def EvaluationError.code : EvaluationError → String
  | .unknownUnit _ => "UNKNOWN_UNIT"
  | .loneOperator _ => "LONE_OPERATOR"
  | .divisionByZero => "DIV_ZERO"
  | .dimensionedExponent _ => "EXPONENT_NOT_DIMENSIONLESS"

/-- The way out of a failed evaluation. -/
def EvaluationError.suggestion : EvaluationError → String
  | .unknownUnit symbol => s!"Add '{symbol}' to the unit database or check spelling"
  | .loneOperator symbol => loneOperatorSuggestion symbol
  | .divisionByZero => "Ensure divisor is not zero"
  | .dimensionedExponent _ => "Exponents must be plain numbers"

namespace ConversionError

/-- The kind of a failure. -/
def kind : ConversionError → FailureKind
  | badSyntax _ => .badSyntax
  | evaluation _ => .evaluation
  | numeric _ => .numeric

/-- The code of a failure. -/
def code : ConversionError → String
  | badSyntax error => error.code
  | evaluation error => error.code
  | numeric _ => "NUMERIC"

/-- The wording of a failure. -/
def message : ConversionError → String
  | badSyntax error => s!"SyntaxError: {error.message}"
  | evaluation error => s!"EvalError: {error.message}"
  | numeric error => s!"conversion failed: {error.message}"

/-- The way out of a failure. -/
def suggestion : ConversionError → Option String
  | badSyntax error => error.suggestion
  | evaluation error => some error.suggestion
  | numeric _ => none

/-- What is shown of a failure. -/
def report (error : ConversionError) : FailureReport :=
  ⟨error.kind, error.code, error.message, error.suggestion⟩

end ConversionError

/-- The name of a kind of failure. -/
def FailureKind.name : FailureKind → String
  | badSyntax => "syntax"
  | evaluation => "eval"
  | numeric => "numeric"

/-- A report on one line: the code, the message and the suggestion. -/
def FailureReport.text (report : FailureReport) : String :=
  s!"[{report.code}] {report.message}" ++
    match report.suggestion with
    | some suggestion => s!" (suggestion: {suggestion})"
    | none => ""

end UnitCalc
