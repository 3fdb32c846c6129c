/-
  Text as messages show it: between double quotes, with escapes for the quote, the backslash and
  every character that cannot be seen.
-/
import Reenact.Text.Ascii
import Reenact.Text.Unseen

namespace Reenact

namespace Shown

/-- The hexadecimal digits of a natural number. -/
def hexDigits (n : Nat) : List Char := Nat.toDigits 16 n

/-- A character inside the quotes. -/
def escape (c : Char) : List Char :=
  if c = '"' then ['\\', '"']
  else if c = '\\' then ['\\', '\\']
  else if c = '\n' then ['\\', 'n']
  else if c = '\r' then ['\\', 'r']
  else if c = '\t' then ['\\', 't']
  else if c = '\x00' then ['\\', '0']
  else if isControl c || isUnseen c then "\\u\x7b".toList ++ hexDigits c.toNat ++ ['}']
  else [c]

/-- A text between double quotes. -/
def write (text : List Char) : List Char := '"' :: text.flatMap escape ++ ['"']

end Shown

end Reenact
