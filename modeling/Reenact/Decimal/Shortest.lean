/-
  The shortest decimal that reads back as a given binary64 number.

  Counted in steps of `10 ^ -1074`, every finite binary64 number is a natural number, its units
  times `5 ^ 1074`.  The decimals with last place `10 ^ (place - 1074)` are then the multiples of
  `10 ^ place`, and those which read back as the number lie between the midpoints to its two
  neighbours, the midpoints included if the magnitude is even (a tie in reading goes to the even
  one).  The coarsest grid with such a multiple gives the fewest digits; place `0` always has one,
  the number itself.

  * `Decimal.candidate?` is the multiple nearest to the number on one grid, if one reads back;
  * `Decimal.shortest` is the decimal on the coarsest grid that has one.
-/
import Reenact.Binary64.Basic

namespace Reenact

/-- The decimal `digits * 10 ^ exponent`. -/
structure Decimal where
  digits : Nat
  exponent : Int
deriving DecidableEq, Repr

namespace Decimal

/-- A number of `10 ^ -1074` steps, between twice the midpoints to its neighbours. -/
structure Range where
  value : Nat
  /-- Twice the least step that reads back as the number, or would if the ends were included. -/
  twiceLow : Nat
  /-- Twice the greatest one. -/
  twiceHigh : Nat
  /-- The ends themselves read back as the number. -/
  closed : Bool

/-- The steps of a magnitude. -/
def stepsOf (magnitude : Nat) : Nat := Binary64.unitsOf magnitude * Nat.pow 5 1074

/-- The range of the decimals that read back as the number with a magnitude other than zero. -/
def Range.ofMagnitude (magnitude : Nat) : Range where
  value := stepsOf magnitude
  twiceLow := stepsOf (magnitude - 1) + stepsOf magnitude
  twiceHigh := stepsOf magnitude + stepsOf (magnitude + 1)
  closed := magnitude % 2 = 0

/-- A number of steps lies in the range. -/
def Range.contains (r : Range) (steps : Nat) : Bool :=
  if r.closed then r.twiceLow ≤ 2 * steps ∧ 2 * steps ≤ r.twiceHigh
  else r.twiceLow < 2 * steps ∧ 2 * steps < r.twiceHigh

/-- The multiple of `10 ^ place` in the range that is nearest to the value, divided by
    `10 ^ place`; of two equally near, the even one. -/
def candidate? (r : Range) (place : Nat) : Option Nat :=
  let grid := Nat.pow 10 place
  let below := r.value / grid
  let remainder := r.value % grid
  match r.contains (below * grid), r.contains ((below + 1) * grid) with
  | true, true =>
    some (if 2 * remainder < grid ∨ (2 * remainder = grid ∧ below % 2 = 0) then below else below + 1)
  | true, false => some below
  | false, true => some (below + 1)
  | false, false => none

/-- The decimal on the coarsest grid at or below a place. -/
def coarsest (r : Range) : Nat → Decimal
  | 0 => ⟨r.value, -1074⟩
  | place + 1 =>
    match candidate? r (place + 1) with
    | some digits => ⟨digits, (place + 1 : Nat) - 1074⟩
    | none => coarsest r place

/-- The shortest decimal that reads back as the number with the given magnitude, and of those the
    nearest to it.  The search starts at a place whose power of ten exceeds the whole range. -/
def shortest (magnitude : Nat) : Decimal :=
  if magnitude = 0 then ⟨0, 0⟩
  else
    let r := Range.ofMagnitude magnitude
    coarsest r ((r.twiceHigh.log2 + 1) / 3 + 1)

end Decimal

end Reenact
