import FormulaEngine.Text.Hidden

/-!
# Quoted text

Descriptions show characters in single quotes and texts in double quotes.
The quote itself, the backslash and the usual control characters are
escaped by a backslash, and other hidden characters are shown by their code.
-/

namespace FormulaEngine.Text

/-- A character inside quotes of the given kind. -/
def escape (quote c : Char) : List Char :=
  if c = quote then ['\\', c]
  else
    match c with
    | '\\' => ['\\', '\\']
    | '\t' => ['\\', 't']
    | '\r' => ['\\', 'r']
    | '\n' => ['\\', 'n']
    | '\x00' => ['\\', '0']
    | _ =>
      if isHidden c then '\\' :: 'u' :: '{' :: (Nat.toDigits 16 c.toNat ++ ['}']) else [c]

/-- A character in single quotes. -/
def quoteChar (c : Char) : String := String.ofList ('\'' :: (escape '\'' c ++ ['\'']))

/-- A text in double quotes. -/
def quoteText (text : String) : String :=
  String.ofList ('"' :: (text.toList.flatMap (escape '"') ++ ['"']))

end FormulaEngine.Text
