/-
  Names: what can stand bare as a variable or as a field name.
-/
import Reenact.Text.Ascii

namespace Reenact

/-- The reserved words. -/
def keywords : List String :=
  ["and", "break", "do", "else", "elseif", "end", "false", "for", "function", "goto", "if", "in",
   "local", "nil", "not", "or", "repeat", "return", "then", "true", "until", "while"]

/-- A letter or underscore, then letters, digits and underscores, all ASCII; no reserved word. -/
def isName (text : String) : Bool :=
  (match text.toList with
    | [] => false
    | c :: rest => isWordChar c && !c.isDigit && rest.all isWordChar) &&
  !keywords.contains text

end Reenact
