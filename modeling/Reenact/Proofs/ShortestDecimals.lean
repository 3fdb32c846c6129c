/-
  The shortest decimal of a number reads back as the number.

  Whichever grid the search ends on, the decimal that it gives lies between the midpoints to the two
  neighbours of the number, and on a midpoint only if the number is the even one there.  So no other
  number is nearer to it.

  * `Decimal.reads_coarsest`: what the search gives is in the range that it searches;
  * `Decimal.isNearest_of_contains`: a number of steps in the range of a magnitude is nearest to it;
  * `Binary64.isRounded_shortest`: the shortest decimal is rounded to its number.
-/
import Reenact.Decimal.Shortest
import Reenact.Proofs.DecimalRounding

namespace Reenact

open Binary64

namespace Decimal

/-! ## The search -/

/-- The decimal is on one of the grids, and in the range. -/
def Range.Reads (r : Range) (d : Decimal) : Prop :=
  ∃ place : Nat, d.exponent = place - 1074 ∧ r.contains (d.digits * Nat.pow 10 place) = true

theorem contains_of_candidate? {r : Range} {place digits : Nat}
    (h : candidate? r place = some digits) : r.contains (digits * Nat.pow 10 place) = true := by
  unfold candidate? at h
  dsimp only at h
  split at h
  · next hbelow habove =>
    cases h
    split
    · exact hbelow
    · exact habove
  · next hbelow _ => cases h; exact hbelow
  · next _ habove => cases h; exact habove
  · cases h

/-- **What the search gives is in the range**, as on the finest grid there is the value itself. -/
theorem reads_coarsest {r : Range} (hvalue : r.contains r.value = true) :
    ∀ place, r.Reads (coarsest r place)
  | 0 => ⟨0, rfl, (Nat.mul_one r.value).symm ▸ hvalue⟩
  | place + 1 => by
    rw [coarsest]
    split
    · next hdigits => exact ⟨place + 1, rfl, contains_of_candidate? hdigits⟩
    · exact reads_coarsest hvalue place

/-! ## Ranges -/

/-- The steps of a unit. -/
def stepsPerUnit : Nat := Nat.pow 5 1074

theorem stepsPerUnit_pos : 0 < stepsPerUnit := by
  unfold stepsPerUnit
  generalize 1074 = k
  exact Nat.pow_pos (by decide)

theorem stepsOf_eq (m : Nat) : stepsOf m = unitsOf m * stepsPerUnit := by
  unfold stepsOf stepsPerUnit
  generalize 1074 = k
  rfl

theorem stepsOf_strictMono : StrictMono stepsOf := by
  intro a b h
  rw [stepsOf_eq, stepsOf_eq]
  exact unitsOf_mul_lt stepsPerUnit_pos h

theorem contains_value {m : Nat} (hm : 0 < m) :
    (Range.ofMagnitude m).contains (Range.ofMagnitude m).value = true := by
  have hbelow : stepsOf (m - 1) < stepsOf m := stepsOf_strictMono (by omega)
  have habove : stepsOf m < stepsOf (m + 1) := stepsOf_strictMono (by omega)
  unfold Range.contains Range.ofMagnitude
  dsimp only
  split
  · exact decide_eq_true ⟨by omega, by omega⟩
  · exact decide_eq_true ⟨by omega, by omega⟩

/-- The ends belong to the range of an even magnitude only. -/
theorem contains_ofMagnitude {m steps : Nat} (h : (Range.ofMagnitude m).contains steps = true) :
    stepsOf (m - 1) + stepsOf m ≤ 2 * steps ∧ 2 * steps ≤ stepsOf m + stepsOf (m + 1) ∧
      (m % 2 = 0 ∨
        stepsOf (m - 1) + stepsOf m < 2 * steps ∧ 2 * steps < stepsOf m + stepsOf (m + 1)) := by
  unfold Range.contains Range.ofMagnitude at h
  dsimp only at h
  split at h
  · next heven =>
    obtain ⟨hlow, hhigh⟩ := of_decide_eq_true h
    exact ⟨hlow, hhigh, Or.inl (of_decide_eq_true heven)⟩
  · obtain ⟨hlow, hhigh⟩ := of_decide_eq_true h
    exact ⟨hlow.le, hhigh.le, Or.inr ⟨hlow, hhigh⟩⟩

/-- **No magnitude is nearer to what is in the range** than its own.  All others are beyond the
    neighbours, and those are not nearer. -/
theorem isNearest_of_contains {m steps : Nat} (hm : 0 < m) (hfinite : m ≤ infiniteMagnitude)
    (h : (Range.ofMagnitude m).contains steps = true) : IsNearest steps stepsPerUnit m := by
  obtain ⟨hlow, hhigh, hends⟩ := contains_ofMagnitude h
  have hbelow : stepsOf (m - 1) < stepsOf m := stepsOf_strictMono (by omega)
  have habove : stepsOf m < stepsOf (m + 1) := stepsOf_strictMono (by omega)
  have hbeyond : ∀ k, k ≠ m → stepsOf k ≤ stepsOf (m - 1) ∨ stepsOf (m + 1) ≤ stepsOf k := by
    intro k hk
    rcases Nat.lt_or_gt_of_ne hk with hlt | hgt
    · exact Or.inl (stepsOf_strictMono.monotone (by omega))
    · exact Or.inr (stepsOf_strictMono.monotone (by omega))
  refine ⟨hfinite, fun k _ => ?_, fun k _ hsame hne => ?_⟩
  · rw [← stepsOf_eq, ← stepsOf_eq]
    by_cases hk : k = m
    · rw [hk]
    · have := hbeyond k hk
      unfold Nat.dist
      omega
  · rw [← stepsOf_eq, ← stepsOf_eq] at hsame
    have := hbeyond k hne
    unfold Nat.dist at hsame
    omega

/-- A decimal on a grid is rounded to the number that it is nearest to in steps. -/
theorem isRounded_of_isNearest {x : Binary64} {digits place : Nat}
    (h : IsNearest (digits * Nat.pow 10 place) stepsPerUnit x.magnitude) :
    IsRounded (decimal x.isNegative digits (place - 1074)) x := by
  have hone : (10 : ℚ) ^ 1074 = stepsPerUnit * unitsPerOne := by
    rw [unitsPerOne_eq]
    unfold stepsPerUnit
    generalize 1074 = k
    push_cast
    rw [Nat.pow_eq, Nat.cast_pow, ← mul_pow]
    norm_num
  have hquotient : decimal x.isNegative digits (place - 1074) = sign x.isNegative *
      (((digits * Nat.pow 10 place : Nat) : ℚ) / stepsPerUnit / unitsPerOne) := by
    rw [decimal, zpow_sub₀ (by norm_num), zpow_natCast, zpow_ofNat, hone, Nat.pow_eq]
    push_cast
    rw [div_div, mul_div_assoc]
  rw [hquotient, isRounded_iff stepsPerUnit_pos]
  exact h

end Decimal

namespace Binary64

/-- A number is what its own value is rounded to. -/
theorem isRounded_value {x : Binary64} (hnumber : x.isNaN = false) : IsRounded x.value x where
  number := hnumber
  nearest y _ := by
    rw [sub_self, abs_zero]
    exact abs_nonneg _
  even y _ hsame hne := by
    rw [sub_self, abs_zero, abs_eq_zero, sub_eq_zero] at hsame
    exact absurd hsame.symm hne

/-- **The shortest decimal is rounded to its number**, and it has a digit other than zero. -/
theorem isRounded_shortest {x : Binary64} (hfinite : x.isFinite = true) (hx : x.magnitude ≠ 0) :
    let d := Decimal.shortest x.magnitude
    IsRounded (decimal x.isNegative d.digits d.exponent) x ∧ d.digits ≠ 0 := by
  intro d
  have hpos : 0 < x.magnitude := Nat.pos_of_ne_zero hx
  have hle : x.magnitude ≤ infiniteMagnitude := (of_decide_eq_true hfinite).le
  obtain ⟨place, hplace, hcontains⟩ : (Decimal.Range.ofMagnitude x.magnitude).Reads d := by
    rw [show d = _ from if_neg hx]
    exact Decimal.reads_coarsest (Decimal.contains_value hpos) _
  have hnearest := Decimal.isNearest_of_contains hpos hle hcontains
  constructor
  · rw [hplace]
    exact Decimal.isRounded_of_isNearest hnearest
  · intro hzero
    rw [hzero, Nat.zero_mul] at hcontains
    obtain ⟨hlow, -, -⟩ := Decimal.contains_ofMagnitude hcontains
    have := Decimal.stepsOf_strictMono hpos
    omega

end Binary64

end Reenact
