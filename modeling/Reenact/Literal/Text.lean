/-
  The literal of a string: double quotes if the text has none, else single quotes if it has none of
  those, else long brackets.  A text with a line break always has long brackets.
-/
import Reenact.Literal.Quoted
import Reenact.Literal.LongBracket

namespace Reenact

/-- The form in which a string is written. -/
inductive TextForm where
  | quotes (quote : Char)
  | longBrackets
deriving DecidableEq, Repr

namespace TextForm

/-- The form for a text. -/
def of (text : List Char) : TextForm :=
  if text.contains '\n' then longBrackets
  else if !text.contains '"' then quotes '"'
  else if !text.contains '\'' then quotes '\''
  else longBrackets

/-- A text in a form. -/
def write : TextForm → List Char → List Char
  | quotes quote, text => Quoted.write quote text
  | longBrackets, text => LongBracket.write text

end TextForm

/-- The literal of a string. -/
def textLiteral (text : String) : String :=
  String.ofList ((TextForm.of text.toList).write text.toList)

end Reenact
