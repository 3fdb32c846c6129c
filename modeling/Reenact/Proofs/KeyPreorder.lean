/-
  Comparing keys is a total preorder, and sorting by it is stable.

  Keys of all forms have places in one linear order, and only their places are compared, so the
  comparison has the laws that a sort relies on.  They leave a stable sort no choice: of any pairs
  there is one ascending list in which pairs with equal keys stand as they were.  In it the numbers
  come first.  Bit patterns are ordered as the numbers that they are, and code points as the bytes
  that they are encoded in, so the numbers ascend with their values and the other keys with the
  bytes of their texts.

  * `utf8_le_iff`: the order of texts is that of their bytes;
  * `Binary64.extendedValue_le_of_rank_le`: the order of bit patterns is that of the numbers, with
    the infinities;
  * `Value.stablySorted_iff`: what pairs are sorted to is their only stable sorting;
  * `Value.keys_totally_preordered`: the laws of the comparison, and what sorting comes to.
-/
import Mathlib.Order.WithBot
import Reenact.Proofs.KeyOrder

namespace Reenact

/-! ## Texts and their bytes -/

/-- The bytes of a text in UTF-8. -/
def utf8 (s : String) : List UInt8 := s.toUTF8.data.toList

theorem utf8_eq_flatMap (s : String) : utf8 s = s.toList.flatMap String.utf8EncodeChar := by
  have hs : s.toUTF8 = s.toList.utf8Encode := by
    rw [String.toUTF8_eq_toByteArray, ← String.toByteArray_ofList, String.ofList_toList]
  rw [utf8, hs, List.utf8Encode, List.data_toByteArray]

theorem ofNat_cons_lt_iff {m n : Nat} (hm : m < 256) (hn : n < 256) {bs cs : List UInt8} :
    UInt8.ofNat m :: bs < UInt8.ofNat n :: cs ↔ m < n ∨ m = n ∧ bs < cs := by
  rw [List.cons_lt_cons_iff, UInt8.lt_iff_toNat_lt, ← UInt8.toNat_inj, UInt8.toNat_ofNat',
    UInt8.toNat_ofNat', Nat.mod_eq_of_lt hm, Nat.mod_eq_of_lt hn]

/-- **A smaller character has smaller bytes**, whatever comes behind them. -/
theorem utf8EncodeChar_append_lt {c d : Char} (h : c < d) (bs cs : List UInt8) :
    String.utf8EncodeChar c ++ bs < String.utf8EncodeChar d ++ cs := by
  have hlt : c.val.toNat < d.val.toNat := h
  have hbound : d.val.toNat < 0x110000 := by
    rcases d.valid with hd | ⟨-, hd⟩ <;> omega
  -- each byte but the first has six bits of the code point
  have hbits : ∀ v : Nat, v / 4096 = v / 64 / 64 ∧ v / 262144 = v / 64 / 64 / 64 := by
    intro v
    omega
  simp only [String.utf8EncodeChar, hbits]
  generalize c.val.toNat = m at *
  generalize d.val.toNat = n at *
  -- the first byte is larger if there are more bytes; if not, they differ where the bits do
  split_ifs <;> simp (disch := omega) only [List.cons_append, List.nil_append, ofNat_cons_lt_iff,
    Nat.add_lt_add_iff_right, Nat.add_right_cancel_iff] <;> omega

theorem flatMap_utf8EncodeChar_lt {cs ds : List Char} (h : List.Lex (· < ·) cs ds) :
    cs.flatMap String.utf8EncodeChar < ds.flatMap String.utf8EncodeChar := by
  induction h with
  | @nil d rest =>
    rw [List.flatMap_nil, List.flatMap_cons]
    cases hd : String.utf8EncodeChar d with
    | nil => exact absurd hd String.utf8EncodeChar_ne_nil
    | cons b bs => exact List.nil_lt_cons b _
  | cons _ ih =>
    rw [List.flatMap_cons, List.flatMap_cons]
    exact List.append_left_lt ih
  | rel h =>
    rw [List.flatMap_cons, List.flatMap_cons]
    exact utf8EncodeChar_append_lt h _ _

theorem utf8_lt_of_lt {s t : String} (h : s < t) : utf8 s < utf8 t := by
  rw [utf8_eq_flatMap, utf8_eq_flatMap]
  exact flatMap_utf8EncodeChar_lt h

/-- **The order of texts is that of their bytes.** -/
theorem utf8_le_iff {s t : String} : utf8 s ≤ utf8 t ↔ s ≤ t := by
  constructor
  · intro h
    by_contra hts
    exact h (utf8_lt_of_lt (not_le.1 hts))
  · intro h
    rcases h.eq_or_lt with rfl | hst
    · exact List.le_refl _
    · exact fun hts => List.lt_asymm hts (utf8_lt_of_lt hst)

/-! ## Numbers and the infinities -/

namespace Binary64

variable {x y : Binary64}

/-- The value of a number that is not a NaN, where the infinities are beyond all others. -/
def extendedValue (x : Binary64) : WithBot (WithTop ℚ) :=
  if x.isInfinite then (if x.isNegative then ⊥ else ⊤) else .some (.some x.value)

theorem extendedValue_of_isFinite (h : x.isFinite = true) :
    x.extendedValue = .some (.some x.value) := by
  have hne : ¬ x.isInfinite = true := by
    simp only [isFinite, isInfinite, decide_eq_true_eq] at h ⊢
    omega
  rw [extendedValue, if_neg hne]

theorem infiniteMagnitude_lt : infiniteMagnitude < 0x8000000000000000 := by decide

theorem extendedValue_infinity (negative : Bool) :
    (infinity negative).extendedValue = if negative then ⊥ else ⊤ := by
  rw [extendedValue, infinity, isInfinite, magnitude_ofMagnitude infiniteMagnitude_lt,
    isNegative_ofMagnitude infiniteMagnitude_lt]
  rfl

theorem rank_infinity (negative : Bool) : (infinity negative).rank =
    if negative then -(infiniteMagnitude : Int) - 1 else infiniteMagnitude := by
  rw [rank, infinity, isNegative_ofMagnitude infiniteMagnitude_lt,
    magnitude_ofMagnitude infiniteMagnitude_lt]

theorem value_le_iff : x.value ≤ y.value ↔ x.units ≤ y.units := by
  have hpos : (0 : ℚ) < unitsPerOne := Nat.cast_pos.2 unitsPerOne_pos
  rw [value, value, div_le_div_iff_of_pos_right hpos, Int.cast_le]

theorem eq_infinity_or_isFinite (h : x.isNaN = false) :
    x = infinity x.isNegative ∨ x.isFinite = true := by
  rcases (isNaN_eq_false_iff.1 h).eq_or_lt with heq | hlt
  · left
    rw [infinity, ← heq, ofMagnitude_magnitude]
  · right
    exact decide_eq_true hlt

/-- The infinities are the first and the last of the numbers. -/
theorem rank_between_infinities (h : x.isNaN = false) :
    (infinity true).rank ≤ x.rank ∧ x.rank ≤ (infinity false).rank := by
  have hle := isNaN_eq_false_iff.1 h
  rw [rank_infinity, rank_infinity, if_pos rfl, if_neg Bool.false_ne_true, rank]
  split <;> omega

/-- **Bit patterns other than NaNs are in the order of the numbers**, with the infinities. -/
theorem extendedValue_le_of_rank_le (hx : x.isNaN = false) (hy : y.isNaN = false)
    (h : x.rank ≤ y.rank) : x.extendedValue ≤ y.extendedValue := by
  rcases eq_infinity_or_isFinite hx with hinf | hfinite
  · cases hsign : x.isNegative with
    | true =>
      rw [hinf, hsign, extendedValue_infinity]
      exact bot_le
    | false =>
      -- nothing but the last of the numbers is behind it
      rw [hsign] at hinf
      rw [rank_injective (le_antisymm h (hinf ▸ (rank_between_infinities hy).2))]
  · rcases eq_infinity_or_isFinite hy with hinf | hfinite'
    · cases hsign : y.isNegative with
      | true =>
        rw [hsign] at hinf
        rw [rank_injective (le_antisymm h (hinf ▸ (rank_between_infinities hx).1))]
      | false =>
        rw [hinf, hsign, extendedValue_infinity]
        exact le_top
    · rw [extendedValue_of_isFinite hfinite, extendedValue_of_isFinite hfinite']
      exact WithBot.coe_le_coe.2 (WithTop.coe_le_coe.2 (value_le_iff.2 (units_le_of_rank_le h)))

end Binary64

namespace Value

/-! ## Stable sorting -/

/-- The pairs are in the order of their keys. -/
def Ascending (pairs : List (Value × Value)) : Prop :=
  pairs.Pairwise fun p q => compareKeys p.1 q.1 ≠ .gt

/-- The pairs with keys that are compared as equal to `k`. -/
def pairsAt (k : Value) (pairs : List (Value × Value)) : List (Value × Value) :=
  pairs.filter fun p => compareKeys k p.1 = .eq

/-- The same pairs in the order of their keys, in which those with keys that are compared as equal
    stand as they were. -/
structure StablySorted (pairs sorted : List (Value × Value)) : Prop where
  perm : sorted.Perm pairs
  ascending : Ascending sorted
  stable : ∀ k, pairsAt k sorted = pairsAt k pairs

section
variable {k : Value} {p q : Value × Value} {l m pairs sorted : List (Value × Value)}

theorem compareKeys_self : compareKeys k k = .eq := Std.ReflCmp.compare_self

theorem mem_pairsAt : p ∈ pairsAt k l ↔ p ∈ l ∧ compareKeys k p.1 = .eq := by
  simp [pairsAt]

theorem pairsAt_cons_of_eq (h : compareKeys k p.1 = .eq) :
    pairsAt k (p :: l) = p :: pairsAt k l :=
  List.filter_cons_of_pos (decide_eq_true h)

theorem pairsAt_cons_of_ne (h : compareKeys k p.1 ≠ .eq) : pairsAt k (p :: l) = pairsAt k l :=
  List.filter_cons_of_neg (by simpa using h)

theorem pairsAt_eq_filter (k : Value) (pairs : List (Value × Value)) :
    pairsAt k pairs = pairs.filter fun p => p.1.place = k.place := by
  refine List.filter_congr fun p _ => ?_
  rw [decide_eq_decide, compareKeys_eq_iff, eq_comm]

theorem stablySorted_sortPairs (pairs : List (Value × Value)) :
    StablySorted pairs (sortPairs pairs) where
  perm := sortPairs_perm pairs
  ascending := (sortPairs_sorted pairs).imp compareKeys_ne_gt_iff.2
  stable k := by
    rw [pairsAt_eq_filter, pairsAt_eq_filter]
    exact sortPairs_stable pairs k.place

theorem mem_of_pairsAt_eq (h : ∀ k, pairsAt k l = pairsAt k m) (hp : p ∈ l) : p ∈ m := by
  have hself : p ∈ pairsAt p.1 l := mem_pairsAt.2 ⟨hp, compareKeys_self⟩
  rw [h] at hself
  exact (mem_pairsAt.1 hself).1

theorem Ascending.first_le (h : Ascending (p :: l)) (hq : q ∈ p :: l) :
    (compareKeys p.1 q.1).isLE = true := by
  rcases List.mem_cons.1 hq with rfl | hq
  · rw [compareKeys_self]
    rfl
  · exact Ordering.isLE_iff_ne_gt.2 ((List.pairwise_cons.1 h).1 q hq)

/-- Two ascending lists are the same if, for each key, the pairs with keys equal to it are. -/
theorem eq_of_ascending (hl : Ascending l) (hm : Ascending m)
    (h : ∀ k, pairsAt k l = pairsAt k m) : l = m := by
  induction l generalizing m with
  | nil =>
    cases m with
    | nil => rfl
    | cons q m => cases mem_of_pairsAt_eq (fun k => (h k).symm) (List.mem_cons_self (a := q))
  | cons p l ih =>
    cases m with
    | nil => cases mem_of_pairsAt_eq h (List.mem_cons_self (a := p))
    | cons q m =>
      -- each of the first pairs is also in the other list, so neither is in front of the other
      have hqp : q ∈ p :: l := mem_of_pairsAt_eq (fun k => (h k).symm) List.mem_cons_self
      have hpq : p ∈ q :: m := mem_of_pairsAt_eq h List.mem_cons_self
      have heq : compareKeys p.1 q.1 = .eq :=
        Std.OrientedCmp.isLE_antisymm (hl.first_le hqp) (hm.first_le hpq)
      have hfirst := h p.1
      rw [pairsAt_cons_of_eq compareKeys_self, pairsAt_cons_of_eq heq] at hfirst
      obtain ⟨rfl, -⟩ := List.cons.inj hfirst
      have hrest : ∀ k, pairsAt k l = pairsAt k m := by
        intro k
        have hk := h k
        by_cases hkp : compareKeys k p.1 = .eq
        · rw [pairsAt_cons_of_eq hkp, pairsAt_cons_of_eq hkp] at hk
          exact (List.cons.inj hk).2
        · rwa [pairsAt_cons_of_ne hkp, pairsAt_cons_of_ne hkp] at hk
      rw [ih (List.pairwise_cons.1 hl).2 (List.pairwise_cons.1 hm).2 hrest]

/-- **There is one stable sorting**, and pairs are sorted to it. -/
theorem stablySorted_iff : StablySorted pairs sorted ↔ sorted = sortPairs pairs := by
  constructor
  · intro h
    have hsort := stablySorted_sortPairs pairs
    refine eq_of_ascending h.ascending hsort.ascending fun k => ?_
    rw [h.stable, hsort.stable]
  · rintro rfl
    exact stablySorted_sortPairs pairs

end

/-! ## Numbers in front of other keys -/

/-- **In ascending pairs the numbers come first.** -/
theorem Ascending.exists_append {pairs : List (Value × Value)} (h : Ascending pairs) :
    ∃ (numbers : List (Binary64 × Value)) (others : List (Value × Value)),
      pairs = numbers.map (Prod.map number id) ++ others ∧ ∀ p ∈ others, ∀ x, p.1 ≠ number x := by
  induction pairs with
  | nil => exact ⟨[], [], rfl, nofun⟩
  | cons p rest ih =>
    obtain ⟨hfirst, hrest⟩ := List.pairwise_cons.1 h
    by_cases hp : ∃ x, p.1 = number x
    · obtain ⟨x, hx⟩ := hp
      obtain ⟨numbers, others, rfl, hothers⟩ := ih hrest
      refine ⟨(x, p.2) :: numbers, others, ?_, hothers⟩
      rw [List.map_cons, List.cons_append, Prod.map, ← hx]
      rfl
    · refine ⟨[], p :: rest, rfl, ?_⟩
      intro q hq x hx
      rcases List.mem_cons.1 hq with rfl | hq
      · exact hp ⟨x, hx⟩
      · have hle := compareKeys_ne_gt_iff.1 (hfirst q hq)
        rw [place_of_ne (not_exists.1 hp), hx, place] at hle
        exact Sum.Lex.not_inr_le_inl hle

theorem extendedValue_le_of_ne_gt {x y : Binary64} (hx : x.isNaN = false) (hy : y.isNaN = false)
    (h : compareKeys (number x) (number y) ≠ .gt) : x.extendedValue ≤ y.extendedValue :=
  Binary64.extendedValue_le_of_rank_le hx hy (Sum.Lex.inl_le_inl_iff.1 (compareKeys_ne_gt_iff.1 h))

theorem utf8_le_of_ne_gt {a b : Value} (ha : ∀ x, a ≠ number x) (hb : ∀ x, b ≠ number x)
    (h : compareKeys a b ≠ .gt) : utf8 a.keyText ≤ utf8 b.keyText := by
  have hle := compareKeys_ne_gt_iff.1 h
  rw [place_of_ne ha, place_of_ne hb] at hle
  exact utf8_le_iff.2 (Sum.Lex.inr_le_inr_iff.1 hle)

theorem compareKeys_trans (order : Ordering) {a b c : Value} (hab : compareKeys a b = order)
    (hbc : compareKeys b c = order) : compareKeys a c = order := by
  cases order with
  | lt => exact Std.TransCmp.lt_trans hab hbc
  | eq => exact Std.TransCmp.eq_trans hab hbc
  | gt => exact Std.TransCmp.gt_trans hab hbc

/-- **The comparison of keys is a total preorder** on values of all forms.  A key is equal to
    itself; the other way round, the answer is the reverse; "not greater" is transitive, and so is
    each of the three answers.  A stable sort by it has one result, and that is what pairs are
    sorted to: first those with numbers, of which the ones that are not NaNs ascend with their
    values, then all others, which ascend with the bytes of their texts. -/
theorem keys_totally_preordered :
    (∀ a, compareKeys a a = .eq) ∧
      (∀ a b, compareKeys b a = (compareKeys a b).swap) ∧
      (∀ a b c, compareKeys a b ≠ .gt → compareKeys b c ≠ .gt → compareKeys a c ≠ .gt) ∧
      (∀ order a b c, compareKeys a b = order → compareKeys b c = order →
        compareKeys a c = order) ∧
      ∀ pairs, (∀ sorted, StablySorted pairs sorted ↔ sorted = sortPairs pairs) ∧
        ∃ (numbers : List (Binary64 × Value)) (others : List (Value × Value)),
          sortPairs pairs = numbers.map (Prod.map number id) ++ others ∧
          (∀ p ∈ others, ∀ x, p.1 ≠ number x) ∧
          ((numbers.filter fun e => !e.1.isNaN).Pairwise fun e f =>
            e.1.extendedValue ≤ f.1.extendedValue) ∧
          others.Pairwise fun p q => utf8 p.1.keyText ≤ utf8 q.1.keyText := by
  refine ⟨fun a => compareKeys_self, fun a b => Std.OrientedCmp.eq_swap, fun a b c hab hbc => ?_,
    fun order a b c => compareKeys_trans order, fun pairs => ?_⟩
  · rw [compareKeys_ne_gt_iff] at hab hbc ⊢
    exact hab.trans hbc
  have hascending := (stablySorted_sortPairs pairs).ascending
  obtain ⟨numbers, others, hsplit, hothers⟩ := hascending.exists_append
  rw [hsplit, Ascending, List.pairwise_append, List.pairwise_map] at hascending
  obtain ⟨hnumbers, hrest, -⟩ := hascending
  refine ⟨fun sorted => stablySorted_iff, numbers, others, hsplit, hothers, ?_, ?_⟩
  · have hvalue : ∀ e ∈ numbers.filter fun e => !e.1.isNaN, e.1.isNaN = false := by
      intro e he
      simpa using (List.mem_filter.1 he).2
    exact (hnumbers.filter _).imp_of_mem fun {e f} he hf =>
      extendedValue_le_of_ne_gt (hvalue e he) (hvalue f hf)
  · exact hrest.imp_of_mem fun {p q} hp hq => utf8_le_of_ne_gt (hothers p hp) (hothers q hq)

/-- Both NaNs, both infinities and both zeros stand among keys of other forms, two of which have one
    text. -/
theorem extreme_keys_sorted :
    let negativeNaN := Binary64.nan.neg
    let negativeZero := Binary64.zero.neg
    let pairs : List (Value × Value) := [(.text "true", .nil), (.number .nan, .nil),
      (.boolean true, .nil), (.number .zero, .nil), (.number (.infinity true), .nil), (.nil, .nil),
      (.number negativeZero, .nil), (.number negativeNaN, .nil), (.number (.infinity false), .nil)]
    let sorted : List (Value × Value) := [(.number negativeNaN, .nil),
      (.number (.infinity true), .nil), (.number negativeZero, .nil), (.number .zero, .nil),
      (.number (.infinity false), .nil), (.number .nan, .nil), (.nil, .nil), (.text "true", .nil),
      (.boolean true, .nil)]
    StablySorted pairs sorted ∧ compareKeys (.number negativeNaN) (.number .nan) ≠ .gt ∧
      compareKeys (.number .nan) (.boolean true) ≠ .gt ∧
      compareKeys (.number negativeNaN) (.boolean true) ≠ .gt := by
  intro negativeNaN negativeZero pairs sorted
  obtain ⟨-, -, htrans, -, hsort⟩ := keys_totally_preordered
  have hsorted : sorted = sortPairs pairs := by
    simp +decide [sorted, pairs, negativeNaN, negativeZero, sortPairs, List.mergeSort]
  have hnan : compareKeys (.number negativeNaN) (.number .nan) ≠ .gt := by decide
  have htruth : compareKeys (.number .nan) (.boolean true) ≠ .gt := by decide
  exact ⟨((hsort pairs).1 sorted).2 hsorted, hnan, htruth, htrans _ _ _ hnan htruth⟩

end Value

end Reenact
