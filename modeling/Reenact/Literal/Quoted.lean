/-
  Quoted string literals.

  A backslash, the quote itself and every control character is escaped; a control character without
  a letter of its own gets three decimal digits, so that a digit after it is not read as part of the
  escape.  All other characters stand for themselves.
-/
import Reenact.Text.Ascii
import Reenact.Decimal.Notation

namespace Reenact

namespace Quoted

/-- At least three decimal digits. -/
def threeDigits (n : Nat) : List Char :=
  List.replicate (3 - (digitsOf n).length) '0' ++ digitsOf n

/-- A character inside quotes. -/
def escape (quote c : Char) : List Char :=
  if c = '\\' then ['\\', '\\']
  else if c = '\t' then ['\\', 't']
  else if c = '\r' then ['\\', 'r']
  else if c = '\n' then ['\\', 'n']
  else if c = quote then ['\\', c]
  else if isControl c then '\\' :: threeDigits c.toNat
  else [c]

/-- Text between two quotes. -/
def write (quote : Char) (text : List Char) : List Char :=
  quote :: text.flatMap (escape quote) ++ [quote]

end Quoted

/-- The quoted literal of a string. -/
def quoted (quote : Char) (text : String) : String := String.ofList (Quoted.write quote text.toList)

end Reenact
