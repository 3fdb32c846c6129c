/-
  The literal of a number.

  A whole number of less than `2 ^ 53` either way is written as an integer (and so is the negative
  zero); any other finite number is written with the fewest digits that read back.  There is no
  literal for the infinities and the NaNs: those are written as expressions that produce them.
-/
import Reenact.Decimal.Notation

namespace Reenact

/-- A number is written positionally if its point falls at most sixteen places right of the start
    of its digits, or left of it with at most four zeros between. -/
def Notation.literal : Notation := ⟨fun point => -5 < point && point ≤ 16⟩

/-- The text of a finite number in a notation, with the fewest digits that read back. -/
def Binary64.text (n : Notation) (x : Binary64) : List Char :=
  (if x.isNegative then ['-'] else []) ++ n.write (Decimal.shortest x.magnitude)

/-- The literal of a number. -/
def numberText (x : Binary64) : List Char :=
  if x.isNaN then "0/0".toList
  else if x.isInfinite then (if x.isNegative then "-math.huge" else "math.huge").toList
  else match x.smallInteger? with
    | some i => integerText i
    | none => x.text .literal

/-- The literal of a number. -/
def numberLiteral (x : Binary64) : String := String.ofList (numberText x)

end Reenact
