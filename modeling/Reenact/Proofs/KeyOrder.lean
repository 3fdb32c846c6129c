/-
  The order of table keys is a linear order of places.

  A number has the place of its bit pattern, and any other key has the place of its text, behind all
  numbers (`Value.place`).  Comparing keys is comparing their places, so sorting puts the pairs of a
  table in order, and leaves those whose keys have one place in the order in which they were.

  * `Binary64.units_le_of_rank_le`: the order of bit patterns is that of the values;
  * `Value.compareKeys_eq_cmp`: keys are compared by their places;
  * `Value.place_eq_iff`: which keys have one place;
  * `Value.sortPairs_sorted`, `Value.sortPairs_stable`: what sorting does;
  * `Value.sorted_alike_iff`: sorting undoes any other order of the pairs exactly if no two of them
    have one place.
-/
import Mathlib.Data.String.Basic
import Mathlib.Data.Sum.Order
import Mathlib.Order.Compare
import Reenact.Proofs.DecimalRounding
import Reenact.Value.KeyOrder

namespace Reenact

/-! ## Bit patterns -/

namespace Binary64

variable {x y : Binary64}

theorem rank_of_isNegative (h : x.isNegative = true) : x.rank = -(x.magnitude : Int) - 1 := by
  rw [rank, h, if_pos rfl]

theorem rank_of_not_isNegative (h : x.isNegative = false) : x.rank = x.magnitude := by
  rw [rank, h]; rfl

theorem rank_injective (h : x.rank = y.rank) : x = y := by
  have hsame : x.isNegative = y.isNegative ∧ x.magnitude = y.magnitude := by
    cases hx : x.isNegative <;> cases hy : y.isNegative <;>
      simp only [rank_of_isNegative, rank_of_not_isNegative, hx, hy] at h
    · exact ⟨rfl, by omega⟩
    · omega
    · omega
    · exact ⟨rfl, by omega⟩
  rw [← ofMagnitude_magnitude x, ← ofMagnitude_magnitude y, hsame.1, hsame.2]

/-- **The order of bit patterns is that of the values.** -/
theorem units_le_of_rank_le (h : x.rank ≤ y.rank) : x.units ≤ y.units := by
  have hmono : ∀ {m n : Nat}, m ≤ n → (unitsOf m : Int) ≤ unitsOf n := fun hmn =>
    Int.ofNat_le.2 (unitsOf_strictMono.monotone hmn)
  unfold units
  cases hx : x.isNegative <;> cases hy : y.isNegative <;>
    simp only [rank_of_isNegative, rank_of_not_isNegative, hx, hy] at h
  · exact hmono (by omega)
  · omega
  · simp only [if_true, Bool.false_eq_true, if_false]
    omega
  · have := hmono (show y.magnitude ≤ x.magnitude by omega)
    simp only [if_true]
    omega

end Binary64

namespace Value

/-! ## Places of keys -/

/-- The place of a key: numbers come first, in the order of their bit patterns, then all other keys
    in the order of their texts. -/
def place : Value → Int ⊕ₗ String
  | number x => toLex (.inl x.rank)
  | k => toLex (.inr k.keyText)

theorem place_of_ne {k : Value} (h : ∀ x, k ≠ number x) : k.place = toLex (.inr k.keyText) := by
  rw [place]
  exact h

/-- **Keys are compared by their places.** -/
theorem compareKeys_eq_cmp (a b : Value) : compareKeys a b = cmp a.place b.place := by
  generalize hcmp : cmp a.place b.place = order
  unfold compareKeys
  split
  · next x y =>
    rw [← hcmp]
    exact (cmp_eq_compare _ _).symm.trans (Sum.Lex.inl_strictMono.cmp_map_eq x.rank y.rank).symm
  · next x hb =>
    rw [← hcmp, place, place_of_ne hb]
    exact ((cmp_eq_lt_iff _ _).2 (Sum.Lex.inl_lt_inr _ _)).symm
  · next x ha =>
    rw [← hcmp, place, place_of_ne ha]
    exact ((cmp_eq_gt_iff _ _).2 (Sum.Lex.inl_lt_inr _ _)).symm
  · next ha hb _ =>
    rw [← hcmp, place_of_ne ha, place_of_ne hb, ← cmp_eq_compare]
    exact (Sum.Lex.inr_strictMono.cmp_map_eq a.keyText b.keyText).symm

theorem compareKeys_isLE_iff {a b : Value} : (compareKeys a b).isLE = true ↔ a.place ≤ b.place := by
  rw [compareKeys_eq_cmp, Ordering.isLE_iff_ne_gt, cmp_eq_gt_iff, not_lt]

theorem compareKeys_ne_gt_iff {a b : Value} : compareKeys a b ≠ .gt ↔ a.place ≤ b.place := by
  rw [← compareKeys_isLE_iff, Ordering.isLE_iff_ne_gt]

theorem compareKeys_eq_iff {a b : Value} : compareKeys a b = .eq ↔ a.place = b.place := by
  rw [compareKeys_eq_cmp, cmp_eq_eq_iff]

instance : Std.TransCmp compareKeys where
  eq_swap {a b} := by rw [compareKeys_eq_cmp, compareKeys_eq_cmp, cmp_swap]
  isLE_trans {a b c} hab hbc := by
    rw [compareKeys_isLE_iff] at hab hbc ⊢
    exact hab.trans hbc

/-- The order does not tell these keys apart: they are the same number, or none of them is a number
    and their texts are the same. -/
def Alike (a b : Value) : Prop :=
  (∃ x, a = number x ∧ b = number x) ∨
    (∀ x, a ≠ number x) ∧ (∀ x, b ≠ number x) ∧ a.keyText = b.keyText

theorem place_eq_inl_iff {k : Value} {r : Int} :
    k.place = toLex (.inl r) ↔ ∃ x, k = number x ∧ x.rank = r := by
  constructor
  · intro h
    by_cases hk : ∃ x, k = number x
    · obtain ⟨x, rfl⟩ := hk
      exact ⟨x, rfl, Sum.inl.inj (toLex.injective h)⟩
    · rw [place_of_ne (not_exists.1 hk)] at h
      cases toLex.injective h
  · rintro ⟨x, rfl, rfl⟩
    rfl

theorem place_eq_inr_iff {k : Value} {text : String} :
    k.place = toLex (.inr text) ↔ (∀ x, k ≠ number x) ∧ k.keyText = text := by
  constructor
  · intro h
    have hk : ∀ x, k ≠ number x := by
      rintro x rfl
      cases toLex.injective h
    rw [place_of_ne hk] at h
    exact ⟨hk, Sum.inr.inj (toLex.injective h)⟩
  · rintro ⟨hk, rfl⟩
    exact place_of_ne hk

/-- **Keys with one place** are those that the order does not tell apart. -/
theorem place_eq_iff {a b : Value} : a.place = b.place ↔ a.Alike b := by
  by_cases hb : ∃ y, b = number y
  · obtain ⟨y, rfl⟩ := hb
    rw [show (number y).place = toLex (.inl y.rank) from rfl, place_eq_inl_iff]
    constructor
    · rintro ⟨x, rfl, hx⟩
      exact Or.inl ⟨y, by rw [Binary64.rank_injective hx], rfl⟩
    · rintro (⟨_, rfl, ⟨⟩⟩ | ⟨-, hy, -⟩)
      · exact ⟨y, rfl, rfl⟩
      · exact absurd rfl (hy y)
  · rw [place_of_ne (not_exists.1 hb), place_eq_inr_iff]
    constructor
    · rintro ⟨ha, htext⟩
      exact Or.inr ⟨ha, not_exists.1 hb, htext⟩
    · rintro (⟨x, -, hx⟩ | ⟨ha, -, htext⟩)
      · exact absurd ⟨x, hx⟩ hb
      · exact ⟨ha, htext⟩

/-! ## Sorting -/

section
variable {pairs : List (Value × Value)}

theorem isLE_trans (p q r : Value × Value) (hpq : (compareKeys p.1 q.1).isLE = true)
    (hqr : (compareKeys q.1 r.1).isLE = true) : (compareKeys p.1 r.1).isLE = true :=
  Std.TransCmp.isLE_trans hpq hqr

theorem isLE_total (p q : Value × Value) :
    ((compareKeys p.1 q.1).isLE || (compareKeys q.1 p.1).isLE) = true := by
  rw [Bool.or_eq_true, compareKeys_isLE_iff, compareKeys_isLE_iff]
  exact le_total p.1.place q.1.place

/-- **Sorting puts pairs in the order of their keys.** -/
theorem sortPairs_sorted (pairs : List (Value × Value)) :
    (sortPairs pairs).Pairwise fun p q => p.1.place ≤ q.1.place :=
  (List.pairwise_mergeSort isLE_trans isLE_total pairs).imp compareKeys_isLE_iff.1

/-- **Sorting leaves pairs with one place in the order in which they were.** -/
theorem sortPairs_stable (pairs : List (Value × Value)) (z : Int ⊕ₗ String) :
    (sortPairs pairs).filter (fun p => p.1.place = z) =
      pairs.filter fun p => p.1.place = z := by
  have hplace : ∀ p ∈ pairs.filter fun p => p.1.place = z, p.1.place = z := fun p hp =>
    of_decide_eq_true (List.mem_filter.1 hp).2
  have hsub : (pairs.filter fun p => p.1.place = z).Sublist (sortPairs pairs) := by
    refine List.sublist_mergeSort isLE_trans isLE_total
      (List.pairwise_of_forall_mem_list fun p hp q hq => ?_) List.filter_sublist
    rw [compareKeys_isLE_iff, hplace p hp, hplace q hq]
  have hfilter := hsub.filter fun p => decide (p.1.place = z)
  rw [List.filter_eq_self.2 fun p hp => (List.mem_filter.1 hp).2] at hfilter
  exact (hfilter.eq_of_length ((sortPairs_perm pairs).filter _).length_eq.symm).symm

/-- Where no two pairs have one place, it does not matter in which order they were. -/
theorem sortPairs_eq_of_perm {other : List (Value × Value)} (hperm : other.Perm pairs)
    (hplace : ∀ p ∈ pairs, ∀ q ∈ pairs, p.1.place = q.1.place → p = q) :
    sortPairs other = sortPairs pairs := by
  have hmem : ∀ {p}, p ∈ sortPairs pairs → p ∈ pairs := (sortPairs_perm pairs).mem_iff.1
  refine List.Perm.eq_of_pairwise (fun p q hp hq hpq hqp => ?_) (sortPairs_sorted other)
    (sortPairs_sorted pairs)
    ((sortPairs_perm other).trans (hperm.trans (sortPairs_perm pairs).symm))
  have hp : p ∈ pairs := hperm.mem_iff.1 ((sortPairs_perm other).mem_iff.1 hp)
  exact hplace p hp q (hmem hq) (le_antisymm hpq hqp)

/-- If it does not matter in which order the pairs were, each is the first of those with its
    place: it could have been first of all. -/
theorem head?_filter_sortPairs (h : ∀ other, other.Perm pairs → sortPairs other = sortPairs pairs)
    {p : Value × Value} (hp : p ∈ pairs) :
    ((sortPairs pairs).filter fun q => q.1.place = p.1.place).head? = some p := by
  obtain ⟨before, behind, rfl⟩ := List.append_of_mem hp
  rw [← h (p :: (before ++ behind)) List.perm_middle.symm, sortPairs_stable,
    List.filter_cons_of_pos (by simp), List.head?_cons]

/-- **Sorting undoes any other order of the pairs** exactly if it tells any two of them apart. -/
theorem sorted_alike_iff : (∀ other, other.Perm pairs → sortPairs other = sortPairs pairs) ↔
    ∀ p ∈ pairs, ∀ q ∈ pairs, p.1.Alike q.1 → p = q := by
  simp only [← place_eq_iff]
  constructor
  · intro h p hp q hq hplace
    have hfirst := head?_filter_sortPairs h hp
    rw [hplace, head?_filter_sortPairs h hq] at hfirst
    exact (Option.some.inj hfirst).symm
  · exact fun h other hperm => sortPairs_eq_of_perm hperm h

end

end Value

end Reenact
