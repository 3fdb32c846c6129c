/-
  Classes of ASCII characters.  Every other character is in none of them.
-/

namespace Reenact

/-- A letter, a digit or the underscore. -/
def isWordChar (c : Char) : Bool := c.isAlphanum || c == '_'

/-- A control character: below the space, or delete. -/
def isControl (c : Char) : Bool := c.toNat < 0x20 || c.toNat == 0x7f

/-- A space, tab, line feed, form feed or carriage return; the vertical tab is not one. -/
def isBlank (c : Char) : Bool := c == ' ' || c == '\t' || c == '\n' || c == '\x0c' || c == '\r'

/-- A visible character that is neither a letter nor a digit. -/
def isPunctuation (c : Char) : Bool := 0x20 < c.toNat && c.toNat < 0x7f && !c.isAlphanum

end Reenact
