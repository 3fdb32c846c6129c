/-
  JSON values, with the members of an object in the order of the text.

  A number is an integer if it is written without point and exponent, fits into 64 bits with or
  without a sign, and is not `-0`; any other number is the nearest binary64 number, and there is
  none if that is infinite.

  * `Number.ofWord?` reads the text of a number;
  * `Json.depth` is the greatest number of arrays and objects around a part of a value.
-/
import Reenact.Binary64.Rounding

namespace Reenact

namespace Json

/-- A number of a JSON text. -/
inductive Number where
  | integer (value : Int)
  | real (value : Binary64)
deriving DecidableEq

namespace Number

/-- The number as a binary64 number. -/
def toBinary64 : Number → Binary64
  | integer i => Binary64.ofInt i
  | real x => x

/-- The number that decimal digits denote. -/
def ofDigits (digits : List Char) : Nat :=
  digits.foldl (fun n c => 10 * n + (c.toNat - '0'.toNat)) 0

/-- The integers that are kept as such. -/
def isKept (negative : Bool) (magnitude : Nat) : Bool :=
  if negative then magnitude ≠ 0 ∧ magnitude ≤ 0x8000000000000000
  else magnitude < 0x10000000000000000

/-- A binary64 number, unless it is infinite. -/
def ofFinite? (x : Binary64) : Option Number := if x.isFinite then some (real x) else none

/-- The digits of an exponent after its sign, if there is one. -/
def exponent? : List Char → Option Int
  | '+' :: digits => (natural? digits).map Int.ofNat
  | '-' :: digits => (natural? digits).map fun n => -(n : Int)
  | digits => (natural? digits).map Int.ofNat
where
  /-- At least one digit, and nothing else. -/
  natural? (digits : List Char) : Option Nat :=
    if !digits.isEmpty && digits.all Char.isDigit then some (ofDigits digits) else none

/-- The whole part of a number: a zero alone, or digits that do not begin with one. -/
def isWhole : List Char → Bool
  | [] => false
  | ['0'] => true
  | c :: rest => c != '0' && c.isDigit && rest.all Char.isDigit

/-- The number with a sign, the digits before and behind the point, and what follows them. -/
def ofParts? (negative : Bool) (whole fraction rest : List Char) : Option Number :=
  match rest with
  | [] => ofFinite? (Binary64.ofDecimal negative (ofDigits (whole ++ fraction)) (-fraction.length))
  | e :: digits =>
    if e = 'e' ∨ e = 'E' then
      (exponent? digits).bind fun exponent =>
        ofFinite? (Binary64.ofDecimal negative (ofDigits (whole ++ fraction))
          (exponent - fraction.length))
    else none

/-- The number that a text without a sign denotes, with the given sign. -/
def ofUnsigned? (negative : Bool) (text : List Char) : Option Number :=
  let whole := text.takeWhile Char.isDigit
  if !isWhole whole then none
  else match text.dropWhile Char.isDigit with
    | [] =>
      if isKept negative (ofDigits whole) then
        some (integer (if negative then -(ofDigits whole : Int) else ofDigits whole))
      else ofParts? negative whole [] []
    | '.' :: rest =>
      let fraction := rest.takeWhile Char.isDigit
      if fraction.isEmpty then none
      else ofParts? negative whole fraction (rest.dropWhile Char.isDigit)
    | rest => ofParts? negative whole [] rest

/-- The number that a text denotes. -/
def ofWord? : List Char → Option Number
  | '-' :: text => ofUnsigned? true text
  | text => ofUnsigned? false text

end Number

end Json

/-- A JSON value. -/
inductive Json where
  | null
  | boolean (value : Bool)
  | number (value : Json.Number)
  | text (value : String)
  | array (items : List Json)
  /-- The members in the order of the text; a name may come more than once -/
  | object (members : List (String × Json))

namespace Json

mutual

/-- The greatest number of arrays and objects around a part of a value. -/
def depth : Json → Nat
  | array items => itemsDepth items + 1
  | object members => membersDepth members + 1
  | _ => 0

/-- The greatest depth of the items. -/
def itemsDepth : List Json → Nat
  | [] => 0
  | j :: rest => max j.depth (itemsDepth rest)

/-- The greatest depth of the values of the members. -/
def membersDepth : List (String × Json) → Nat
  | [] => 0
  | (_, j) :: rest => max j.depth (membersDepth rest)

end

end Json

end Reenact
