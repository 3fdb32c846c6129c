/-
  Binary64 numbers, given by their 64 bits.

  Every finite number is a whole multiple of the smallest positive one, `2 ^ -1074`; that multiple
  (`units`) is its exact value, and all comparisons are made on it.  The formula for `units` also
  places the infinities beyond every finite number, so it orders everything that is not a NaN.

  * `magnitude` is the number without its sign bit, `unitsOf` the value of a magnitude;
  * `equals` is equality as numbers (a NaN differs from itself, the two zeros are equal);
  * `compare` is the total order in which a set sign bit comes first, then the magnitude decides,
    reversed below zero: negative NaNs, `-∞`, ..., `-0`, `0`, ..., `∞`, NaNs.
-/

namespace Reenact

/-- A binary64 number: a sign bit, eleven exponent bits and fifty-two fraction bits. -/
structure Binary64 where
  bits : UInt64
deriving DecidableEq, Inhabited

namespace Binary64

/-! ## Fields -/

/-- The sign bit is set. -/
def isNegative (x : Binary64) : Bool := 0x8000000000000000 ≤ x.bits.toNat

/-- The bits below the sign: exponent and fraction as one number. -/
def magnitude (x : Binary64) : Nat := x.bits.toNat % 0x8000000000000000

/-- The magnitude of the infinities; those above it are NaNs. -/
def infiniteMagnitude : Nat := 0x7ff0000000000000

/-- The number with the given sign and magnitude. -/
def ofMagnitude (negative : Bool) (magnitude : Nat) : Binary64 :=
  ⟨UInt64.ofNat (if negative then 0x8000000000000000 + magnitude else magnitude)⟩

def zero : Binary64 := ofMagnitude false 0
def nan : Binary64 := ofMagnitude false (infiniteMagnitude + 0x8000000000000)
def infinity (negative : Bool) : Binary64 := ofMagnitude negative infiniteMagnitude

def isNaN (x : Binary64) : Bool := infiniteMagnitude < x.magnitude

def isInfinite (x : Binary64) : Bool := x.magnitude = infiniteMagnitude

def isFinite (x : Binary64) : Bool := x.magnitude < infiniteMagnitude

/-- The number with its sign bit flipped. -/
def neg (x : Binary64) : Binary64 := ofMagnitude (!x.isNegative) x.magnitude

theorem magnitude_lt (x : Binary64) : x.magnitude < 0x8000000000000000 := Nat.mod_lt _ (by decide)

theorem toNat_bits_ofMagnitude (negative : Bool) {m : Nat} (h : m < 0x8000000000000000) :
    (ofMagnitude negative m).bits.toNat = if negative then 0x8000000000000000 + m else m := by
  cases negative <;> simp [ofMagnitude] <;> omega

theorem magnitude_ofMagnitude {negative : Bool} {m : Nat} (h : m < 0x8000000000000000) :
    (ofMagnitude negative m).magnitude = m := by
  rw [magnitude, toNat_bits_ofMagnitude negative h]
  cases negative <;> simp <;> omega

theorem isNegative_ofMagnitude {negative : Bool} {m : Nat} (h : m < 0x8000000000000000) :
    (ofMagnitude negative m).isNegative = negative := by
  rw [isNegative, toNat_bits_ofMagnitude negative h]
  cases negative <;> simp
  omega

theorem ofMagnitude_magnitude (x : Binary64) : ofMagnitude x.isNegative x.magnitude = x := by
  have hx := x.bits.toNat_lt
  have hm := toNat_bits_ofMagnitude x.isNegative x.magnitude_lt
  have hb : (ofMagnitude x.isNegative x.magnitude).bits = x.bits := by
    apply UInt64.toNat_inj.1
    rw [hm, isNegative, magnitude]
    split
    · rename_i h
      have hge := of_decide_eq_true h
      omega
    · rename_i h
      have hlt : ¬ 0x8000000000000000 ≤ x.bits.toNat := fun hge => h (decide_eq_true hge)
      omega
  cases x
  simp_all [ofMagnitude]

/-! ## Exact values -/

/-- The value of a magnitude as a multiple of `2 ^ -1074`: the fraction alone below the first
    exponent, and above it the fraction with its leading one, doubled for every further exponent. -/
def unitsOf (magnitude : Nat) : Nat :=
  let exponent := magnitude / 0x10000000000000
  let fraction := magnitude % 0x10000000000000
  if exponent = 0 then fraction else (0x10000000000000 + fraction) <<< (exponent - 1)

/-- The value of a number as a multiple of `2 ^ -1074`. -/
def units (x : Binary64) : Int :=
  if x.isNegative then -(unitsOf x.magnitude : Int) else unitsOf x.magnitude

/-- The number one has `2 ^ 1074` units. -/
def unitsPerOne : Nat := 1 <<< 1074

/-! ## Comparisons -/

/-- Equality as numbers. -/
def equals (x y : Binary64) : Bool := !x.isNaN && !y.isNaN && x.units == y.units

/-- The number is the natural number `n`. -/
def isNat (x : Binary64) (n : Nat) : Bool := !x.isNaN && x.units == (n * unitsPerOne : Nat)

/-- The value of a whole number of less than `2 ^ 53` either way; between those bounds every
    integer is a binary64 number, and the number says exactly which one is meant. -/
def smallInteger? (x : Binary64) : Option Int :=
  let n := unitsOf x.magnitude
  if n % unitsPerOne = 0 ∧ n / unitsPerOne < 0x20000000000000 then some (x.units / unitsPerOne) else none

/-- The place of a number in the total order. -/
def rank (x : Binary64) : Int :=
  if x.isNegative then -(x.magnitude : Int) - 1 else x.magnitude

/-- The total order on all bit patterns. -/
def compare (x y : Binary64) : Ordering := Ord.compare x.rank y.rank

end Binary64

end Reenact
