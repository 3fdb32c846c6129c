/-
  Decimals are rounded correctly.

  The magnitudes of binary64 numbers lie in blocks of `2 ^ 52` of equal spacing, and the spacing of
  a block is twice that of the one before.  A quotient is rounded to a whole multiple of the spacing
  where it lies; what is spaced more closely lies below, and is not nearer than where the block
  begins.

  * `IsRounded`: no number is nearer to a rational number, and of two that are as near the even one
    is taken;
  * `isNearest_nearestMagnitude`: the magnitude nearest to a quotient of units;
  * `eq_ofDecimal_iff`: the number that a decimal is rounded to, is the one that it denotes.
-/
import Mathlib.Algebra.Order.Field.Basic
import Mathlib.Algebra.Order.Field.Rat
import Mathlib.Algebra.Order.Ring.Abs
import Mathlib.Data.Nat.Dist
import Mathlib.Order.Monotone.Basic
import Mathlib.Tactic.FieldSimp
import Mathlib.Tactic.Linarith
import Mathlib.Tactic.NormNum
import Mathlib.Tactic.Ring
import Reenact.Proofs.Rounding

namespace Reenact

/-! ## Rounding to whole numbers -/

/-- **No multiple of `d` is nearer** than the one that a number is rounded to, and if another is as
    near, it is the even one. -/
theorem roundHalfEven_nearest (n : Nat) {d : Nat} (hd : 0 < d) (k : Nat) :
    Nat.dist n (roundHalfEven n d * d) ≤ Nat.dist n (k * d) ∧
      (Nat.dist n (k * d) = Nat.dist n (roundHalfEven n d * d) → k ≠ roundHalfEven n d →
        roundHalfEven n d % 2 = 0) := by
  have hn := Nat.div_add_mod' n d
  have hr := Nat.mod_lt n hd
  unfold roundHalfEven Nat.dist
  generalize n / d = q at hn ⊢
  generalize n % d = r at hn hr ⊢
  subst hn
  have hnext : (q + 1) * d = q * d + d := Nat.succ_mul q d
  -- the multiples around the number, and those below and above them
  have hk : (k < q ∧ k * d + d ≤ q * d) ∨ (k = q ∧ k * d = q * d) ∨
      (k = q + 1 ∧ k * d = q * d + d) ∨ (q + 1 < k ∧ q * d + d + d ≤ k * d) := by
    rcases Nat.lt_trichotomy k q with h | rfl | h
    · exact .inl ⟨h, by rw [← Nat.succ_mul]; exact Nat.mul_le_mul_right d h⟩
    · exact .inr (.inl ⟨rfl, rfl⟩)
    · rcases Nat.eq_or_lt_of_le h with rfl | h
      · exact .inr (.inr (.inl ⟨rfl, hnext⟩))
      · refine .inr (.inr (.inr ⟨h, ?_⟩))
        rw [← hnext, ← Nat.succ_mul]
        exact Nat.mul_le_mul_right d h
  dsimp only
  split
  · constructor <;> omega
  · rw [hnext]
    constructor <;> omega

/-! ## Blocks of equal spacing -/

namespace Binary64

/-- The values of a block: `r` times its spacing, also where the next block begins.  The first block
    has no leading one. -/
theorem unitsOf_block {s r : Nat} (hr : r ≤ 0x20000000000000) (h : s = 0 ∨ 0x10000000000000 ≤ r) :
    unitsOf (s * 0x10000000000000 + r) = r * 2 ^ s := by
  have hcases : (s = 0 ∧ r < 0x10000000000000) ∨
      (0x10000000000000 ≤ r ∧ r < 0x20000000000000) ∨ r = 0x20000000000000 := by omega
  unfold unitsOf
  rcases hcases with ⟨rfl, hr⟩ | ⟨hlow, hhigh⟩ | rfl
  · rw [if_pos (by omega)]
    omega
  · have hexponent : (s * 0x10000000000000 + r) / 0x10000000000000 = s + 1 := by omega
    have hfraction : 0x10000000000000 + (s * 0x10000000000000 + r) % 0x10000000000000 = r := by
      omega
    simp only [hexponent, hfraction, Nat.succ_ne_zero, if_false, Nat.add_sub_cancel,
      Nat.shiftLeft_eq]
  · have hexponent : (s * 0x10000000000000 + 0x20000000000000) / 0x10000000000000 = s + 2 := by
      omega
    have hfraction : (s * 0x10000000000000 + 0x20000000000000) % 0x10000000000000 = 0 := by omega
    simp only [hexponent, hfraction, Nat.succ_ne_zero, if_false, Nat.shiftLeft_eq]
    rw [show s + 2 - 1 = s + 1 from rfl, Nat.pow_succ]
    omega

/-- Every magnitude is in a block. -/
theorem exists_block (m : Nat) : ∃ s r, m = s * 0x10000000000000 + r ∧ r < 0x20000000000000 ∧
    (s = 0 ∨ 0x10000000000000 ≤ r) := by
  rcases Nat.eq_zero_or_pos (m / 0x10000000000000) with h | h
  · exact ⟨0, m, by omega, by omega, .inl rfl⟩
  · exact ⟨m / 0x10000000000000 - 1, m % 0x10000000000000 + 0x10000000000000, by omega, by omega,
      .inr (by omega)⟩

theorem unitsOf_strictMono : StrictMono unitsOf := by
  apply strictMono_nat_of_lt_succ
  intro m
  obtain ⟨s, r, rfl, hr, h⟩ := exists_block m
  rw [Nat.add_assoc, unitsOf_block hr.le h, unitsOf_block hr (by omega)]
  exact Nat.mul_lt_mul_of_pos_right (Nat.lt_succ_self r) (Nat.two_pow_pos s)

/-! ## The nearest magnitude -/

/-- No magnitude in a set `P` of magnitudes has a value nearer to `n / d` units than that of `m`,
    and if another is as near, `m` is even. -/
structure IsNearestOf (P : Nat → Prop) (n d m : Nat) : Prop where
  mem : P m
  nearest : ∀ k, P k → Nat.dist n (unitsOf m * d) ≤ Nat.dist n (unitsOf k * d)
  even : ∀ k, P k → Nat.dist n (unitsOf k * d) = Nat.dist n (unitsOf m * d) → k ≠ m → m % 2 = 0

/-- The magnitude of a number that is nearest to `n / d` units, an infinite one included. -/
abbrev IsNearest : Nat → Nat → Nat → Prop := IsNearestOf (· ≤ infiniteMagnitude)

theorem unitsOf_mul_lt {a b d : Nat} (hd : 0 < d) (h : a < b) : unitsOf a * d < unitsOf b * d :=
  Nat.mul_lt_mul_of_pos_right (unitsOf_strictMono h) hd

/-- There is one nearest magnitude: between two even ones there is one that is nearer. -/
theorem IsNearest.unique {n d m k : Nat} (hd : 0 < d) (hm : IsNearest n d m)
    (hk : IsNearest n d k) : m = k := by
  wlog hlt : m < k generalizing m k
  · rcases Nat.lt_or_eq_of_le (Nat.le_of_not_lt hlt) with h | h
    · exact (this hk hm h).symm
    · exact h.symm
  have hsame : Nat.dist n (unitsOf k * d) = Nat.dist n (unitsOf m * d) :=
    Nat.le_antisymm (hk.nearest m hm.mem) (hm.nearest k hk.mem)
  have hmeven := hm.even k hk.mem hsame (by omega)
  have hkeven := hk.even m hm.mem hsame.symm (by omega)
  have hbetween := hm.nearest (m + 1) (Nat.le_trans (by omega) hk.mem)
  have hbelow := unitsOf_mul_lt hd (Nat.lt_add_one m)
  have habove := unitsOf_mul_lt hd (show m + 1 < k by omega)
  unfold Nat.dist at hsame hbetween
  omega

/-- Beyond the infinite magnitude, it is the nearest. -/
theorem isNearest_of_le {n d : Nat} (hd : 0 < d) (h : unitsOf infiniteMagnitude * d ≤ n) :
    IsNearest n d infiniteMagnitude where
  mem := Nat.le_refl _
  nearest k hk := by
    have := Nat.mul_le_mul_right d (unitsOf_strictMono.monotone hk)
    unfold Nat.dist
    omega
  even k hk hsame hne := by
    have := unitsOf_mul_lt hd (Nat.lt_of_le_of_ne hk hne)
    unfold Nat.dist at hsame
    omega

/-- What is nearest of all magnitudes is nearest up to the infinite one, if that is put in its place
    where it is beyond. -/
theorem IsNearestOf.min {n d m : Nat} (hd : 0 < d) (h : IsNearestOf (fun _ => True) n d m) :
    IsNearest n d (Nat.min m infiniteMagnitude) := by
  rcases Nat.lt_or_ge infiniteMagnitude m with hlt | hge
  · rw [show Nat.min m infiniteMagnitude = infiniteMagnitude from Nat.min_eq_right hlt.le]
    apply isNearest_of_le hd
    have hbeyond := unitsOf_mul_lt hd hlt
    have hnearest := h.nearest infiniteMagnitude trivial
    unfold Nat.dist at hnearest
    omega
  · rw [show Nat.min m infiniteMagnitude = m from Nat.min_eq_left hge]
    exact ⟨hge, fun k _ => h.nearest k trivial, fun k _ => h.even k trivial⟩

/-- The multiples of the spacing that `n / d` is rounded to, up to the last one of a block. -/
theorem roundHalfEven_le {n d b : Nat} (hd : 0 < d) (h : n < b * d) : roundHalfEven n d ≤ b := by
  have hlt := (Nat.div_lt_iff_lt_mul hd).2 h
  unfold roundHalfEven
  dsimp only
  split <;> omega

theorem le_roundHalfEven {n d b : Nat} (hd : 0 < d) (h : b * d ≤ n) : b ≤ roundHalfEven n d := by
  have hle := (Nat.le_div_iff_mul_le hd).2 h
  unfold roundHalfEven
  dsimp only
  split <;> omega

/-- The block where a quotient lies. -/
theorem block_of_quotient (n : Nat) {d s : Nat} (hd : 0 < d) (hs : Nat.log2 (n / d) - 52 = s) :
    n < 0x20000000000000 * (d * 2 ^ s) ∧ (s = 0 ∨ 0x10000000000000 * (d * 2 ^ s) ≤ n) := by
  have hmul : ∀ b : Nat, b * (d * 2 ^ s) = b * 2 ^ s * d := fun b => by ring
  rw [hmul, hmul, ← Nat.div_lt_iff_lt_mul hd, ← Nat.le_div_iff_mul_le hd]
  constructor
  · calc n / d < 2 ^ (Nat.log2 (n / d) + 1) := Nat.lt_log2_self
      _ ≤ 2 ^ (53 + s) := Nat.pow_le_pow_right (by decide) (by omega)
      _ = 0x20000000000000 * 2 ^ s := Nat.pow_add 2 53 s
  · rcases Nat.eq_zero_or_pos s with h | h
    · exact .inl h
    · right
      have hne : n / d ≠ 0 := by
        intro h0
        rw [h0] at hs
        exact absurd hs (by simp; omega)
      calc 0x10000000000000 * 2 ^ s = 2 ^ (52 + s) := (Nat.pow_add 2 52 s).symm
        _ = 2 ^ Nat.log2 (n / d) := by congr 1; omega
        _ ≤ n / d := Nat.log2_self_le hne

theorem unitsOf_block_mul {s r : Nat} (d : Nat) (hr : r ≤ 0x20000000000000)
    (h : s = 0 ∨ 0x10000000000000 ≤ r) :
    unitsOf (s * 0x10000000000000 + r) * d = r * (d * 2 ^ s) := by
  rw [unitsOf_block hr h, Nat.mul_assoc, Nat.mul_comm (2 ^ s)]

/-- A magnitude is a multiple of the spacing of a block, or it lies below the block and is farther
    away than where that begins. -/
theorem multiple_or_farther {n d s : Nat} (hd : 0 < d)
    (hlow : s = 0 ∨ 0x10000000000000 * (d * 2 ^ s) ≤ n) (k : Nat) :
    (∃ w, unitsOf k * d = w * (d * 2 ^ s)) ∨
      Nat.dist n (0x10000000000000 * (d * 2 ^ s)) < Nat.dist n (unitsOf k * d) := by
  obtain ⟨t, r, rfl, hr, ht⟩ := exists_block k
  rcases Nat.lt_or_ge t s with hlt | hge
  · right
    have hbegin := @unitsOf_block_mul s 0x10000000000000 d (by omega) (by omega)
    have hbelow := unitsOf_mul_lt hd (show t * 0x10000000000000 + r <
      s * 0x10000000000000 + 0x10000000000000 by omega)
    have := hlow.resolve_left (by omega)
    unfold Nat.dist
    omega
  · left
    obtain ⟨e, rfl⟩ := Nat.exists_eq_add_of_le hge
    refine ⟨r * 2 ^ e, ?_⟩
    rw [unitsOf_block_mul d hr.le ht, Nat.pow_add]
    ring

/-- **The magnitude nearest to a quotient.**  Rounding is to the spacing of the block of the
    quotient, and no number below that block is as near as its beginning. -/
theorem isNearest_nearestMagnitude (n : Nat) {d : Nat} (hd : 0 < d) :
    IsNearest n d (nearestMagnitude n d) := by
  unfold nearestMagnitude
  generalize hs : Nat.log2 (n / d) - 52 = s
  dsimp only
  rw [Nat.shiftLeft_eq]
  have hD : 0 < d * 2 ^ s := Nat.mul_pos hd (Nat.two_pow_pos s)
  obtain ⟨hhigh, hlow⟩ := block_of_quotient n hd hs
  have hv : roundHalfEven n (d * 2 ^ s) ≤ 0x20000000000000 := roundHalfEven_le hD hhigh
  have hv' : s = 0 ∨ 0x10000000000000 ≤ roundHalfEven n (d * 2 ^ s) :=
    hlow.imp_right (le_roundHalfEven hD)
  have hround := roundHalfEven_nearest n hD
  generalize roundHalfEven n (d * 2 ^ s) = v at *
  have hvalue := unitsOf_block_mul d hv hv'
  apply IsNearestOf.min hd
  refine ⟨trivial, fun k _ => ?_, fun k _ hsame hne => ?_⟩
  · rw [hvalue]
    rcases multiple_or_farther hd hlow k with ⟨w, hw⟩ | hfar
    · rw [hw]
      exact (hround w).1
    · exact ((hround _).1.trans_lt hfar).le
  · rw [hvalue] at hsame
    rcases multiple_or_farther hd hlow k with ⟨w, hw⟩ | hfar
    · rw [hw] at hsame
      have hwv : w ≠ v := by
        rintro rfl
        have hunits := Nat.eq_of_mul_eq_mul_right hd (hw.trans hvalue.symm)
        exact hne (unitsOf_strictMono.injective hunits)
      have := (hround w).2 hsame hwv
      omega
    · have := (hround 0x10000000000000).1
      omega

/-! ## The nearest number -/

/-- The value of a number.  That of the infinities is where the next finite numbers would be. -/
def value (x : Binary64) : ℚ := x.units / unitsPerOne

/-- A sign as a factor. -/
def sign (negative : Bool) : ℚ := if negative then -1 else 1

/-- **Rounding to nearest, ties to even**: no number has a value nearer to `q`, and if another is as
    near, its last bit is zero.  The infinities take part, in the place of what is beyond. -/
structure IsRounded (q : ℚ) (x : Binary64) : Prop where
  number : x.isNaN = false
  nearest : ∀ y : Binary64, y.isNaN = false → |q - x.value| ≤ |q - y.value|
  even : ∀ y : Binary64, y.isNaN = false → |q - y.value| = |q - x.value| → y.value ≠ x.value →
    x.magnitude % 2 = 0

theorem isNaN_eq_false_iff {x : Binary64} : x.isNaN = false ↔ x.magnitude ≤ infiniteMagnitude := by
  simp [isNaN]

theorem value_eq (x : Binary64) :
    x.value = sign x.isNegative * unitsOf x.magnitude / unitsPerOne := by
  unfold value units sign
  split <;> simp

theorem cast_dist (a b : Nat) : ((Nat.dist a b : Nat) : ℚ) = |(a : ℚ) - b| := by
  rcases Nat.le_total a b with h | h
  · rw [Nat.dist, Nat.sub_eq_zero_of_le h, Nat.zero_add, Nat.cast_sub h, abs_sub_comm,
      abs_of_nonneg]
    exact sub_nonneg.2 (Nat.cast_le.2 h)
  · rw [Nat.dist, Nat.sub_eq_zero_of_le h, Nat.add_zero, Nat.cast_sub h, abs_of_nonneg]
    exact sub_nonneg.2 (Nat.cast_le.2 h)

/-- How far a number is from `n / d` units with a sign, in parts of one over `d` of a unit. -/
def distance (negative : Bool) (n d : Nat) (x : Binary64) : Nat :=
  if x.isNegative = negative then Nat.dist n (unitsOf x.magnitude * d)
  else n + unitsOf x.magnitude * d

theorem parts_pos {d : Nat} (hd : 0 < d) : (0 : ℚ) < (d : ℚ) * unitsPerOne :=
  mul_pos (Nat.cast_pos.2 hd) (Nat.cast_pos.2 unitsPerOne_pos)

theorem abs_sub_value (negative : Bool) (n : Nat) {d : Nat} (hd : 0 < d) (x : Binary64) :
    |sign negative * (n / d / unitsPerOne) - x.value| =
      (distance negative n d x : Nat) / ((d : ℚ) * unitsPerOne) := by
  have hd' : (d : ℚ) ≠ 0 := Nat.cast_ne_zero.2 hd.ne'
  have hone : (unitsPerOne : ℚ) ≠ 0 := Nat.cast_ne_zero.2 unitsPerOne_pos.ne'
  have hpos := (parts_pos hd).le
  have habs : |sign negative| = 1 := by unfold sign; split <;> simp
  rw [value_eq]
  generalize (unitsPerOne : ℚ) = one at hone hpos ⊢
  by_cases hsame : x.isNegative = negative
  · have hdiff : sign negative * (n / d / one) - sign negative * unitsOf x.magnitude / one =
        sign negative * ((n - (unitsOf x.magnitude * d : Nat)) / (d * one)) := by
      push_cast
      field_simp
    rw [distance, if_pos hsame, hsame, hdiff, abs_mul, habs, one_mul, abs_div, ← cast_dist,
      abs_of_nonneg hpos]
  · have hopposite : sign x.isNegative = -sign negative := by
      unfold sign
      cases h : x.isNegative <;> cases negative <;> simp_all
    have hdiff : sign negative * (n / d / one) - -sign negative * unitsOf x.magnitude / one =
        sign negative * ((n + unitsOf x.magnitude * d : Nat) / (d * one)) := by
      push_cast
      field_simp
      ring
    rw [distance, if_neg hsame, hopposite, hdiff, abs_mul, habs, one_mul, abs_div,
      abs_of_nonneg hpos, Nat.abs_cast]

theorem magnitude_inj {x y : Binary64} (hsign : y.isNegative = x.isNegative)
    (h : y.value = x.value) : y.magnitude = x.magnitude := by
  have hone : (unitsPerOne : ℚ) ≠ 0 := Nat.cast_ne_zero.2 unitsPerOne_pos.ne'
  have hfactor : sign x.isNegative ≠ 0 := by unfold sign; split <;> simp
  rw [value_eq, value_eq, hsign, div_left_inj' hone, mul_right_inj' hfactor, Nat.cast_inj] at h
  exact unitsOf_strictMono.injective h

theorem distance_of_sign {negative : Bool} {x : Binary64} (h : x.isNegative = negative)
    (n d : Nat) : distance negative n d x = Nat.dist n (unitsOf x.magnitude * d) :=
  if_pos h

/-- With the other sign, a number is not nearer than the one with its magnitude. -/
theorem dist_le_distance (negative : Bool) (n d : Nat) (x : Binary64) :
    Nat.dist n (unitsOf x.magnitude * d) ≤ distance negative n d x := by
  unfold distance Nat.dist
  split <;> omega

/-- Two numbers with one magnitude that are as near have one value: with different signs they are as
    near only where the magnitude is zero, or where zero is nearer than they are. -/
theorem value_eq_of_distance {n d : Nat} (hd : 0 < d) {x y : Binary64}
    (hzero : Nat.dist n (unitsOf x.magnitude * d) ≤ Nat.dist n (unitsOf 0 * d))
    (hmagnitude : y.magnitude = x.magnitude)
    (h : distance x.isNegative n d y = distance x.isNegative n d x) : y.value = x.value := by
  by_cases hsign : y.isNegative = x.isNegative
  · rw [value_eq, value_eq, hsign, hmagnitude]
  · rw [distance_of_sign rfl, distance, if_neg hsign, hmagnitude] at h
    have hunits : unitsOf x.magnitude * d = 0 := by
      rw [show unitsOf 0 = 0 from rfl] at hzero
      unfold Nat.dist at hzero h
      omega
    have hunits : unitsOf x.magnitude = 0 := (Nat.mul_eq_zero.1 hunits).resolve_right hd.ne'
    rw [value_eq, value_eq, hmagnitude, hunits]
    simp

/-- A magnitude is that of a number with a given sign. -/
theorem exists_of_magnitude (negative : Bool) {k : Nat} (hk : k ≤ infiniteMagnitude) :
    ∃ y : Binary64, y.isNaN = false ∧ y.magnitude = k ∧ y.isNegative = negative := by
  have hlt : k < 0x8000000000000000 := Nat.lt_of_le_of_lt hk (by decide)
  have hmagnitude := @magnitude_ofMagnitude negative k hlt
  refine ⟨ofMagnitude negative k, ?_, hmagnitude, isNegative_ofMagnitude hlt⟩
  rwa [isNaN_eq_false_iff, hmagnitude]

/-- Rounding, in parts of one over `d` of a unit. -/
theorem isRounded_iff_distance (negative : Bool) (n : Nat) {d : Nat} (hd : 0 < d) (x : Binary64) :
    IsRounded (sign negative * (n / d / unitsPerOne)) x ↔ x.isNaN = false ∧
      (∀ y : Binary64, y.isNaN = false → distance negative n d x ≤ distance negative n d y) ∧
      ∀ y : Binary64, y.isNaN = false → distance negative n d y = distance negative n d x →
        y.value ≠ x.value → x.magnitude % 2 = 0 := by
  have hpos := parts_pos hd
  have hle : ∀ y : Binary64, |sign negative * (n / d / unitsPerOne) - x.value| ≤
      |sign negative * (n / d / unitsPerOne) - y.value| ↔
      distance negative n d x ≤ distance negative n d y := fun y => by
    rw [abs_sub_value _ n hd, abs_sub_value _ n hd, div_le_div_iff_of_pos_right hpos, Nat.cast_le]
  have heq : ∀ y : Binary64, |sign negative * (n / d / unitsPerOne) - y.value| =
      |sign negative * (n / d / unitsPerOne) - x.value| ↔
      distance negative n d y = distance negative n d x := fun y => by
    rw [abs_sub_value _ n hd, abs_sub_value _ n hd, div_left_inj' hpos.ne', Nat.cast_inj]
  constructor
  · rintro ⟨hnumber, hnearest, heven⟩
    exact ⟨hnumber, fun y hy => (hle y).1 (hnearest y hy),
      fun y hy hsame => heven y hy ((heq y).2 hsame)⟩
  · rintro ⟨hnumber, hnearest, heven⟩
    exact ⟨hnumber, fun y hy => (hle y).2 (hnearest y hy),
      fun y hy hsame => heven y hy ((heq y).1 hsame)⟩

/-- A number is the one that a quotient with its sign is rounded to, if its magnitude is the
    nearest: the numbers with the other sign are not nearer than those with the same magnitude. -/
theorem isRounded_iff {n d : Nat} (hd : 0 < d) (x : Binary64) :
    IsRounded (sign x.isNegative * (n / d / unitsPerOne)) x ↔ IsNearest n d x.magnitude := by
  rw [isRounded_iff_distance _ _ hd]
  have hx : distance x.isNegative n d x = Nat.dist n (unitsOf x.magnitude * d) :=
    distance_of_sign rfl n d
  constructor
  · rintro ⟨hnumber, hnearest, heven⟩
    refine ⟨isNaN_eq_false_iff.1 hnumber, fun k hk => ?_, fun k hk hsame hne => ?_⟩
    · obtain ⟨y, hy, rfl, hsign⟩ := exists_of_magnitude x.isNegative hk
      rw [← hx, ← distance_of_sign hsign]
      exact hnearest y hy
    · obtain ⟨y, hy, rfl, hsign⟩ := exists_of_magnitude x.isNegative hk
      refine heven y hy ?_ fun hvalue => hne (magnitude_inj hsign hvalue)
      rw [distance_of_sign hsign, hx, hsame]
  · intro h
    have hle : ∀ y : Binary64, y.isNaN = false →
        distance x.isNegative n d x ≤ Nat.dist n (unitsOf y.magnitude * d) := fun y hy => by
      rw [hx]
      exact h.nearest _ (isNaN_eq_false_iff.1 hy)
    refine ⟨isNaN_eq_false_iff.2 h.mem, fun y hy => ?_, fun y hy hsame hne => ?_⟩
    · exact (hle y hy).trans (dist_le_distance _ n d y)
    · by_cases hmagnitude : y.magnitude = x.magnitude
      · exact absurd (value_eq_of_distance hd (h.nearest 0 (Nat.zero_le _)) hmagnitude hsame) hne
      · have hdist := (dist_le_distance x.isNegative n d y).antisymm (hsame ▸ hle y hy)
        exact h.even _ (isNaN_eq_false_iff.1 hy) (hdist.trans (hsame.trans hx)) hmagnitude

/-! ## Decimals -/

/-- The value of `± digits * 10 ^ exponent`. -/
def decimal (negative : Bool) (digits : Nat) (exponent : Int) : ℚ :=
  sign negative * (digits * 10 ^ exponent)

/-- A decimal as a quotient of units. -/
def quotient (digits : Nat) : Int → Nat × Nat
  | .ofNat e => (digits * Nat.pow 10 e * unitsPerOne, 1)
  | .negSucc e => (digits * unitsPerOne, Nat.pow 10 (e + 1))

theorem quotient_pos (digits : Nat) (exponent : Int) : 0 < (quotient digits exponent).2 := by
  cases exponent with
  | ofNat e => exact Nat.one_pos
  | negSucc e => exact Nat.pow_pos (by decide)

theorem decimal_eq (negative : Bool) (digits : Nat) (exponent : Int) :
    decimal negative digits exponent = sign negative *
      ((quotient digits exponent).1 / (quotient digits exponent).2 / unitsPerOne) := by
  have hone : (unitsPerOne : ℚ) ≠ 0 := Nat.cast_ne_zero.2 unitsPerOne_pos.ne'
  unfold decimal
  congr 1
  cases exponent with
  | ofNat e =>
    simp only [quotient, Nat.pow_eq, Int.ofNat_eq_natCast, zpow_natCast]
    push_cast
    rw [div_one, mul_div_cancel_right₀ _ hone]
  | negSucc e =>
    simp only [quotient, Nat.pow_eq, zpow_negSucc]
    push_cast
    rw [div_right_comm, mul_div_cancel_right₀ _ hone, div_eq_mul_inv]

theorem unitsPerOne_eq : unitsPerOne = 2 ^ 1074 := by
  unfold unitsPerOne
  generalize 1074 = k
  exact Nat.one_shiftLeft k

/-- The infinite magnitude is that of `2 ^ 1024`. -/
theorem unitsOf_infiniteMagnitude_le {k : Nat} (hk : 1024 + 1074 ≤ k) :
    unitsOf infiniteMagnitude ≤ 2 ^ k := by
  have h : ∀ s, 52 + s ≤ k → unitsOf (s * 0x10000000000000 + 0x10000000000000) ≤ 2 ^ k := by
    intro s hs
    rw [unitsOf_block (by decide) (by omega), show (0x10000000000000 : Nat) = 2 ^ 52 from rfl,
      ← Nat.pow_add]
    exact Nat.pow_le_pow_right (by decide) hs
  exact h 2046 (by omega)

/-- Less than half a unit is rounded to zero. -/
theorem isNearest_zero {n d : Nat} (h : 2 * n < d) : IsNearest n d 0 where
  mem := Nat.zero_le _
  nearest k _ := by
    rcases Nat.eq_zero_or_pos k with rfl | hk
    · exact Nat.le_refl _
    · have hone := Nat.mul_le_mul_right d (unitsOf_strictMono.monotone hk)
      rw [show unitsOf (Nat.succ 0) = 1 from rfl] at hone
      rw [show unitsOf 0 = 0 from rfl]
      unfold Nat.dist
      omega
  even _ _ _ _ := rfl

/-- The digits do not make up for a small power. -/
theorem quotient_lt {digits : Nat} {exponent : Int}
    (h : exponent < -((400 + digits.log2 : Nat) : Int)) :
    2 * (quotient digits exponent).1 < (quotient digits exponent).2 := by
  cases exponent with
  | ofNat e => rw [Int.ofNat_eq_natCast] at h; omega
  | negSucc e =>
    have he : digits.log2 + 1200 ≤ 3 * (e + 1) := by omega
    have hdigits : digits < 2 ^ (digits.log2 + 1) := Nat.lt_log2_self
    rw [quotient, unitsPerOne_eq]
    generalize digits.log2 = l at *
    generalize hk : 1074 = k
    calc 2 * (digits * 2 ^ k) < 2 * (2 ^ (l + 1) * 2 ^ k) := by
          have := Nat.mul_lt_mul_of_pos_right hdigits (Nat.two_pow_pos k)
          omega
      _ = 2 ^ (l + 1 + k + 1) := by rw [← Nat.pow_add, Nat.pow_succ 2 (l + 1 + k), Nat.mul_comm]
      _ ≤ 2 ^ (3 * (e + 1)) := Nat.pow_le_pow_right (by decide) (by omega)
      _ = 8 ^ (e + 1) := Nat.pow_mul 2 3 (e + 1)
      _ ≤ Nat.pow 10 (e + 1) := Nat.pow_le_pow_left (by decide) _

/-- A large power is beyond the infinite magnitude. -/
theorem le_quotient {digits : Nat} {exponent : Int} (hdigits : digits ≠ 0) (h : 400 < exponent) :
    unitsOf infiniteMagnitude * (quotient digits exponent).2 ≤ (quotient digits exponent).1 := by
  cases exponent with
  | negSucc e => omega
  | ofNat e =>
    rw [Int.ofNat_eq_natCast] at h
    rw [quotient, unitsPerOne_eq, Nat.mul_one]
    generalize hk : 1074 = k
    calc unitsOf infiniteMagnitude ≤ 2 ^ (3 * e + k) := unitsOf_infiniteMagnitude_le (by omega)
      _ = 8 ^ e * 2 ^ k := by rw [Nat.pow_add, Nat.pow_mul]
      _ ≤ digits * Nat.pow 10 e * 2 ^ k := Nat.mul_le_mul_right _ <|
        (Nat.pow_le_pow_left (by decide) e).trans (Nat.le_mul_of_pos_left _ (by omega))

theorem isNegative_ofDecimal (negative : Bool) (digits : Nat) (exponent : Int) :
    (ofDecimal negative digits exponent).isNegative = negative := by
  have hmin : ∀ n d, nearestMagnitude n d < 0x8000000000000000 := fun n d =>
    Nat.lt_of_le_of_lt (Nat.min_le_right _ _) (by decide)
  unfold ofDecimal
  split
  · exact isNegative_ofMagnitude (by decide)
  · split
    · exact isNegative_ofMagnitude (by decide)
    · cases exponent <;> exact isNegative_ofMagnitude (hmin _ _)

/-- **A decimal is rounded to the nearest magnitude.** -/
theorem isNearest_ofDecimal (negative : Bool) (digits : Nat) (exponent : Int) :
    IsNearest (quotient digits exponent).1 (quotient digits exponent).2
      (ofDecimal negative digits exponent).magnitude := by
  have hmagnitude : ∀ {m}, m ≤ infiniteMagnitude → (ofMagnitude negative m).magnitude = m :=
    fun hm => magnitude_ofMagnitude (Nat.lt_of_le_of_lt hm (by decide))
  unfold ofDecimal
  split
  · rename_i h
    rw [hmagnitude (Nat.zero_le _)]
    apply isNearest_zero
    rcases h with rfl | h
    · cases exponent <;> simp [quotient]
    · exact quotient_lt h
  · rename_i hdigits
    split
    · rename_i h
      rw [infinity, hmagnitude (Nat.le_refl _)]
      exact isNearest_of_le (quotient_pos _ _) (le_quotient (by tauto) h)
    · have hnearest : ∀ n d, 0 < d → IsNearest n d (nearest negative n d).magnitude :=
        fun n d hd => by
          have := isNearest_nearestMagnitude n hd
          rwa [nearest, hmagnitude this.mem]
      have hpos := quotient_pos digits exponent
      cases exponent <;> exact hnearest _ _ hpos

/-- **A decimal denotes the number that it is rounded to.** -/
theorem eq_ofDecimal_iff {x : Binary64} (digits : Nat) (exponent : Int) :
    x = ofDecimal x.isNegative digits exponent ↔
      IsRounded (decimal x.isNegative digits exponent) x := by
  have hpos := quotient_pos digits exponent
  have hnearest := isNearest_ofDecimal x.isNegative digits exponent
  rw [decimal_eq, isRounded_iff hpos]
  constructor
  · intro h
    rwa [← h] at hnearest
  · intro h
    rw [← ofMagnitude_magnitude (ofDecimal x.isNegative digits exponent), isNegative_ofDecimal,
      ← h.unique hpos hnearest, ofMagnitude_magnitude]

end Binary64

end Reenact
