import FormulaEngine.Decimal.Printer
import FormulaEngine.Operator
import FormulaEngine.Text.Position

/-!
# Tokens

The pieces that a formula's text consists of, each with the range of the
text that it was read from, and the two ways in which reading them fails.
-/

namespace FormulaEngine

/-- What a token is. -/
inductive TokenKind where
  | integer (value : Int64)
  | decimal (value : Decimal)
  | identifier (name : String)
  | operator (op : Operator)
  | leftBracket
  | rightBracket
  | separator
  deriving DecidableEq

/-- A token kind as text; the argument separator is always shown as a comma. -/
def TokenKind.toText : TokenKind → String
  | .integer value => integerText value.toInt
  | .decimal value => value.toText
  | .identifier name => name
  | .operator op => op.symbol
  | .leftBracket => "("
  | .rightBracket => ")"
  | .separator => ","

/-- A token and the range of the text that it stands for. -/
structure Token where
  kind : TokenKind
  range : Text.Range
  deriving DecidableEq

/-- Why a text cannot be split into tokens. -/
inductive LexicalError where
  | unexpectedCharacter (character : Char) (position : Text.Position)
  | invalidNumber (literal : String) (position : Text.Position)
  deriving DecidableEq

namespace LexicalError

/-- Where the text went wrong. -/
def position : LexicalError → Text.Position
  | .unexpectedCharacter _ position => position
  | .invalidNumber _ position => position

/-- The wording of a lexical error. -/
def message : LexicalError → String
  | .unexpectedCharacter character position =>
    "Unexpected character `" ++ character.toString ++ "` at position " ++ position.toText
  | .invalidNumber literal position =>
    "Invalid number literal `" ++ literal ++ "` at position " ++ position.toText

end LexicalError

end FormulaEngine
