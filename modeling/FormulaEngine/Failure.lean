import FormulaEngine.Tree.Assembly

/-!
# Failures

A failure is an error together with the text that it is about and the bytes
of that text which it concerns.  An error without a position concerns the
whole text.

`Cause` gathers the four kinds of errors, with their codes, wordings and
hints.
-/

namespace FormulaEngine

open Text

/-- Why an engine refuses its input before it looks at the formula. -/
inductive ArgumentError where
  | blankFormula
  | reservedConstantName (name : String)
  | functionNameAsVariable (name : String)
  | duplicateName (name : String)
  | registry (error : RegistryError)
  deriving DecidableEq

/-- The wording of an argument error. -/
def ArgumentError.message : ArgumentError → String
  | .blankFormula => "The parameter text cannot be empty."
  | .reservedConstantName name =>
    "The name \"" ++ name ++ "\" is a reserved constant name and cannot be used as a variable."
  | .functionNameAsVariable name =>
    "The name \"" ++ name ++ "\" is a function name and cannot be used as a variable."
  | .duplicateName name => "The name \"" ++ name ++ "\" is bound more than once."
  | .registry error => error.message

/-- What went wrong. -/
inductive Cause where
  | lexical (error : LexicalError)
  | parse (error : ParseError)
  | evaluation (error : EvaluationError)
  | argument (error : ArgumentError)
  deriving DecidableEq

/-- The code of an evaluation error. -/
def EvaluationError.code : EvaluationError → String
  | .variableNotDefined _ => "EvalError::VariableNotDefined"
  | .functionNotDefined _ => "EvalError::FunctionNotDefined"
  | .zeroDivision => "EvalError::ZeroDivision"
  | .overflow => "EvalError::Overflow"
  | .nonFiniteResult _ => "EvalError::NonFiniteResult"
  | .arityMismatch _ _ => "EvalError::ArityMismatch"
  | .emptyArguments _ => "EvalError::EmptyArguments"

/-- The code of a parse error. -/
def ParseError.code : ParseError → String
  | .unmatchedRightBracket _ => "ParseError::UnmatchedRightBracket"
  | .unmatchedLeftBracket _ => "ParseError::UnmatchedLeftBracket"
  | .operatorArgumentMismatch _ _ => "ParseError::OperatorArgumentMismatch"
  | .functionArgumentMismatch _ _ => "ParseError::FunctionArgumentMismatch"
  | .unknownFunction _ _ => "ParseError::UnknownFunction"
  | .unexpectedInteger _ => "ParseError::UnexpectedIntegerConstant"
  | .unexpectedDecimal _ => "ParseError::UnexpectedFloatingPointConstant"
  | .invalidSyntax => "ParseError::InvalidSyntax"
  | .emptyFormula => "ParseError::EmptyFormula"
  | .misplacedSeparator _ => "ParseError::MisplacedArgumentSeparator"

/-- The code of a lexical error. -/
def LexicalError.code : LexicalError → String
  | .unexpectedCharacter _ _ => "LexerError::UnexpectedCharacter"
  | .invalidNumber _ _ => "LexerError::InvalidNumber"

namespace Cause

/-- The code of the kind of error. -/
def code : Cause → String
  | .lexical error => error.code
  | .parse error => error.code
  | .evaluation error => error.code
  | .argument _ => "InvalidArgument"

/-- The wording of an error. -/
def message : Cause → String
  | .lexical error => error.message
  | .parse error => error.message
  | .evaluation error => error.message
  | .argument error => error.message

/-- What the user can do about an error. -/
def help? : Cause → Option String
  | .lexical _ => some "Check for characters that are not part of a formula."
  | .parse (.unmatchedRightBracket _) | .parse (.unmatchedLeftBracket _) =>
    some "Make sure every `(` has a matching `)`."
  | .parse (.functionArgumentMismatch name _) =>
    some ("Check the number of arguments passed to `" ++ name ++ "`.")
  | .parse (.unknownFunction name _) =>
    some ("Register `" ++ name ++ "` on the engine before using it.")
  | .parse (.unexpectedInteger _) | .parse (.unexpectedDecimal _) =>
    some "Two operands are not joined by an operator."
  | .evaluation (.variableNotDefined name) =>
    some ("Provide a value for `" ++ name ++ "` when evaluating the formula.")
  | .evaluation .zeroDivision => some "Check the divisor for zero values."
  | _ => none

/-- The range of the text at fault.  A lexical error is about one
character. -/
def range? : Cause → Option Range
  | .lexical error => some (.onLine error.position 1)
  | .parse error => error.range?
  | _ => none

/-- Whether the text is no formula. -/
def isParseError : Cause → Bool
  | .lexical _ | .parse _ => true
  | _ => false

/-- Whether a variable has no value. -/
def isVariableNotDefined : Cause → Bool
  | .evaluation (.variableNotDefined _) => true
  | _ => false

/-- Whether the input was refused. -/
def isInvalidArgument : Cause → Bool
  | .argument _ => true
  | _ => false

end Cause

/-- The bytes of a text from an offset on. -/
structure Span where
  offset : Nat
  length : Nat
  deriving DecidableEq

/-- The bytes of a range: from its start to the column of its width on the
same line. -/
def Span.ofRange (source : String) (range : Range) : Span :=
  let start := byteOffset source range.start
  let stop := byteOffset source ⟨range.start.line, range.start.column + range.width⟩
  ⟨start, stop - start⟩

/-- An error, the text that it is about, and where in it. -/
structure Failure where
  cause : Cause
  source : String
  location : Span

/-- The failure of a text. -/
def Failure.of (source : String) (cause : Cause) : Failure :=
  ⟨cause, source,
    match cause.range? with
    | some range => .ofRange source range
    | none => ⟨0, source.utf8ByteSize⟩⟩

end FormulaEngine
