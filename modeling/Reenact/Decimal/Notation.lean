/-
  Writing a decimal with a point or with an exponent.

  The place of the point is counted from the left end of the digits: `0` puts it in front of them,
  `2` after the second one.  A notation says for which places the number is written positionally,
  always with a fraction; all other numbers have one digit in front of the point, no point behind a
  single digit, and an exponent without padding or plus sign.
-/
import Reenact.Decimal.Shortest

namespace Reenact

/-- The decimal digits of a natural number. -/
def digitsOf (n : Nat) : List Char := Nat.toDigits 10 n

/-- The decimal digits of an integer, after a minus sign if it is negative. -/
def integerText (i : Int) : List Char :=
  if i < 0 then '-' :: digitsOf i.natAbs else digitsOf i.natAbs

/-- Which places of the point are written positionally. -/
structure Notation where
  positional : Int → Bool

namespace Notation

/-- Digits with a point at a place; missing digits are zeros, and so is an empty fraction. -/
def withPoint (digits : List Char) (point : Int) : List Char :=
  match point with
  | .ofNat p =>
    if p = 0 then '0' :: '.' :: digits
    else if digits.length ≤ p then
      digits ++ List.replicate (p - digits.length) '0' ++ ['.', '0']
    else digits.take p ++ '.' :: digits.drop p
  | .negSucc p => '0' :: '.' :: List.replicate (p + 1) '0' ++ digits

/-- Digits with the point after the first one and an exponent. -/
def withExponent (digits : List Char) (point : Int) : List Char :=
  digits.take 1 ++ (if digits.length ≤ 1 then [] else '.' :: digits.drop 1) ++
    'e' :: integerText (point - 1)

/-- The text of a decimal. -/
def write (n : Notation) (d : Decimal) : List Char :=
  let digits := digitsOf d.digits
  let point := digits.length + d.exponent
  if n.positional point then withPoint digits point else withExponent digits point

end Notation

/-- Point notation for every number. -/
def Notation.plain : Notation := ⟨fun _ => true⟩

end Reenact
