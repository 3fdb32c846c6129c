/-
  Rounding to the nearest binary64 number, and the arithmetic that needs it.

  `nearest` rounds a quotient of units: below `2 ^ 53` units the numbers are one unit apart, and
  from there on the spacing doubles with each binary digit, so the quotient is divided by its
  spacing and rounded to a whole number, a half going to the even neighbour.  The magnitudes count
  the numbers in ascending order, which makes the carry into the next exponent come out by itself.
-/
import Reenact.Binary64.Basic

namespace Reenact

/-- The natural number nearest to `n / d`; a half goes to the even one. -/
def roundHalfEven (n d : Nat) : Nat :=
  let q := n / d
  let r := n % d
  if 2 * r < d ∨ (2 * r = d ∧ q % 2 = 0) then q else q + 1

namespace Binary64

/-- The magnitude nearest to `n / d` units; beyond the largest finite number it is infinite. -/
def nearestMagnitude (n d : Nat) : Nat :=
  let spacing := Nat.log2 (n / d) - 52
  min (spacing * 0x10000000000000 + roundHalfEven n (d <<< spacing)) infiniteMagnitude

/-- The number nearest to `n / d` units, with the given sign. -/
def nearest (negative : Bool) (n d : Nat) : Binary64 := ofMagnitude negative (nearestMagnitude n d)

/-- The number nearest to `± digits * 10 ^ exponent`.  The bounds on the exponent only keep the
    powers small: past them the value is infinite, or less than half a unit. -/
def ofDecimal (negative : Bool) (digits : Nat) (exponent : Int) : Binary64 :=
  if digits = 0 ∨ exponent < -((400 + digits.log2 : Nat) : Int) then ofMagnitude negative 0
  else if 400 < exponent then infinity negative
  else match exponent with
    | .ofNat e => nearest negative (digits * Nat.pow 10 e * unitsPerOne) 1
    | .negSucc e => nearest negative (digits * unitsPerOne) (Nat.pow 10 (e + 1))

/-- The number nearest to the integer `i`. -/
def ofInt (i : Int) : Binary64 := ofDecimal (i < 0) i.natAbs 0

/-- The number of exactly, or else nearest to, `i` units; zero units have the sign of `x`. -/
private def ofUnits (i : Int) (x : Binary64) : Binary64 :=
  nearest (if i = 0 then x.isNegative else i < 0) i.natAbs 1

/-- The sum of two numbers. -/
def add (x y : Binary64) : Binary64 :=
  if x.isNaN || y.isNaN then nan
  else if x.isInfinite then
    if y.isInfinite && x.isNegative != y.isNegative then nan else x
  else if y.isInfinite then y
  else ofUnits (x.units + y.units) (if x.isNegative && y.isNegative then x else zero)

/-- The difference of two numbers. -/
def sub (x y : Binary64) : Binary64 := x.add y.neg

/-- Half of a number. -/
def half (x : Binary64) : Binary64 :=
  if x.isFinite then nearest x.isNegative (unitsOf x.magnitude) 2 else x

/-- A number times a natural number. -/
def scale (x : Binary64) (k : Nat) : Binary64 :=
  if x.isFinite then nearest x.isNegative (unitsOf x.magnitude * k) 1
  else if x.isInfinite && k = 0 then nan else x

/-- The nearest integer in `0, ..., top`, a half going up; a NaN gives zero. -/
def toNatClamped (x : Binary64) (top : Nat) : Nat :=
  if x.isNaN || x.isNegative then 0
  else min ((unitsOf x.magnitude + unitsPerOne / 2) / unitsPerOne) top

end Binary64

end Reenact
