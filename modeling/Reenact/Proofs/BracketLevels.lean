/-
  The least safe level of long brackets, and how great it can be.

  A level is safe for a text if the closing bracket that is put behind the text is the first one: an
  occurrence that begins in the text and ends in the closing bracket begins with the last `]` of the
  text, so it is enough to look inside the text and at its end.  A level that is not safe has a
  stretch of the text, a bracket and as many `=`, with no further `=` behind them; the stretches of
  different levels have no character in common.

  * `level_isLeast`: a level is safe exactly if the closing bracket ends what it was to end, and the
    level of a text is the least such;
  * `level_search`: the search for it ends, and the stretches of the levels that it passes over
    bound its result.
-/
import Mathlib.Algebra.BigOperators.Intervals
import Mathlib.Order.Bounds.Defs
import Mathlib.Order.Interval.Finset.Nat
import Reenact.Proofs.TextLiterals

namespace Reenact

open Lexer

namespace LongBracket

/-! ## Occurrences -/

/-- A text begins at a place of another. -/
def OccursAt (text s : List Char) (i : Nat) : Prop := text <+: s.drop i

/-- A place is the first one of a text where another begins. -/
def FirstOccursAt (text s : List Char) (i : Nat) : Prop :=
  OccursAt text s i ∧ ∀ j < i, ¬ OccursAt text s j

variable {text : List Char} {n : Nat}

theorem occursIn_iff {s : List Char} : occursIn text s = true ↔ ∃ i, OccursAt text s i := by
  constructor
  · intro h
    induction s with
    | nil => exact ⟨0, by simp_all [occursIn, OccursAt]⟩
    | cons c s ih =>
      rw [occursIn, Bool.or_eq_true, List.isPrefixOf_iff_prefix] at h
      rcases h with h | h
      · exact ⟨0, h⟩
      · obtain ⟨i, hi⟩ := ih h
        exact ⟨i + 1, hi⟩
  · rintro ⟨i, hi⟩
    induction s generalizing i with
    | nil => exact occursIn_of_begins (by simpa [OccursAt] using hi)
    | cons c s ih =>
      cases i with
      | zero => exact occursIn_of_begins hi
      | succ i => exact occursIn_cons c (ih i hi)

theorem isSafe_drop (h : isSafe text n = true) (i : Nat) : isSafe (text.drop i) n = true := by
  induction i generalizing text with
  | zero => exact h
  | succ i ih =>
    cases text with
    | nil => simpa using h
    | cons c text => exact ih (isSafe_of_cons h)

/-- What begins in a text begins there also if more stands behind it. -/
theorem OccursAt.append {s t : List Char} {i : Nat} (h : OccursAt text s i) :
    OccursAt text (s ++ t) i := by
  rw [OccursAt, List.drop_append]
  exact h.trans (List.prefix_append _ _)

/-- Only the empty text begins at the end. -/
theorem OccursAt.lt_length {s : List Char} {i : Nat} (h : OccursAt text s i) (hne : text ≠ []) :
    i < s.length := by
  refine Nat.lt_of_not_le fun hle => hne ?_
  rw [OccursAt, List.drop_eq_nil_of_le hle] at h
  exact List.prefix_nil.1 h

/-- **Looking inside the text and at its end is enough:** a level is safe exactly if the closing
    bracket behind the text is the first one. -/
theorem isSafe_iff_firstOccursAt :
    isSafe text n = true ↔ FirstOccursAt (closing n) (text ++ closing n) text.length := by
  constructor
  · intro h
    refine ⟨by rw [OccursAt, List.drop_left], fun i hi hoccurs => ?_⟩
    have hne : text.drop i ≠ [] := by simpa using hi
    have hbegins := closing_not_begins (isSafe_drop h i) hne []
    rw [OccursAt, List.drop_append_of_le_length (Nat.le_of_lt hi)] at hoccurs
    exact hbegins (by rwa [List.append_nil])
  · rintro ⟨-, hfirst⟩
    refine isSafe_iff.2 ⟨Bool.eq_false_iff.2 fun hin => ?_, ?_⟩
    · obtain ⟨i, hi⟩ := occursIn_iff.1 hin
      exact hfirst i (hi.lt_length (List.cons_ne_nil _ _)) hi.append
    · rintro ⟨before, rfl⟩
      -- the stem at the end and the bracket put behind it are a closing bracket
      refine hfirst before.length (by simp [closingStem]) ?_
      rw [OccursAt, List.append_assoc, List.drop_left, closing]
      exact (List.prefix_append_right_inj _).2 (by simp [closingStem])

/-- A reader of long brackets stops at the first closing bracket. -/
theorem firstOccursAt_of_untilClosing? : ∀ {s body behind : List Char},
    untilClosing? n s = some (body, behind) → FirstOccursAt (closing n) s body.length
  | [], _, _, h => by cases h
  | c :: s, body, behind, h => by
    rw [untilClosing?] at h
    split at h
    · rename_i hbegins
      cases h
      exact ⟨List.isPrefixOf_iff_prefix.1 hbegins, fun j hj => absurd hj (Nat.not_lt_zero j)⟩
    · rename_i hbegins
      obtain ⟨⟨body', behind'⟩, hr, he⟩ := Option.map_eq_some_iff.1 h
      cases he
      obtain ⟨hoccurs, hfirst⟩ := firstOccursAt_of_untilClosing? hr
      refine ⟨hoccurs, fun j hj hj' => ?_⟩
      cases j with
      | zero => exact hbegins (List.isPrefixOf_iff_prefix.2 hj')
      | succ j => exact hfirst j (Nat.lt_of_succ_lt_succ hj) hj'

/-- A text between brackets of a level is read to its end exactly if the level is safe. -/
theorem untilClosing?_eq_iff (rest : List Char) :
    untilClosing? n (text ++ (closing n ++ rest)) = some (text, rest) ↔ isSafe text n = true := by
  refine ⟨fun h => ?_, untilClosing?_of_isSafe rest⟩
  obtain ⟨-, hfirst⟩ := firstOccursAt_of_untilClosing? h
  rw [← List.append_assoc] at hfirst
  exact isSafe_iff_firstOccursAt.2
    ⟨by rw [OccursAt, List.drop_left], fun j hj hoccurs => hfirst j hj hoccurs.append⟩

/-! ## The least safe level -/

theorem levelFrom_le {further level : Nat} (h : isSafe text n = true) (hn : level ≤ n) :
    levelFrom text further level ≤ n := by
  induction further generalizing level with
  | zero => exact hn
  | succ further ih =>
    rw [levelFrom]
    split
    · exact hn
    · rename_i hunsafe
      refine ih (Nat.lt_of_le_of_ne hn ?_)
      rintro rfl
      exact hunsafe h

theorem level_isLeast_isSafe (text : List Char) :
    IsLeast {n | isSafe text n = true} (level text) :=
  ⟨isSafe_level text, fun _ h => levelFrom_le h (Nat.zero_le _)⟩

/-- **The level of a text is the least one at which it can be closed.**  It is the least level such
    that the closing bracket behind the text is the first one in all that stands there.  The two
    probes say of every level whether it is so, and a reader of long brackets, with any text behind
    them, gives the text back exactly at those levels. -/
theorem level_isLeast (text : List Char) :
    IsLeast {n | FirstOccursAt (closing n) (text ++ closing n) text.length} (level text) ∧
      ∀ n, (isSafe text n = true ↔
          FirstOccursAt (closing n) (text ++ closing n) text.length) ∧
        ∀ rest, untilClosing? n (text ++ (closing n ++ rest)) = some (text, rest) ↔
          FirstOccursAt (closing n) (text ++ closing n) text.length := by
  refine ⟨?_, fun n => ⟨isSafe_iff_firstOccursAt, fun rest => ?_⟩⟩
  · simpa only [isSafe_iff_firstOccursAt] using level_isLeast_isSafe text
  · rw [untilClosing?_eq_iff, isSafe_iff_firstOccursAt]

/-! ## Stretches of levels that are not safe -/

/-- The stretch of a level begins at a place: a bracket, as many `=` as the level, and no more. -/
structure StretchAt (text : List Char) (n i : Nat) : Prop where
  bracket : text[i]? = some ']'
  equals : ∀ k, i < k → k ≤ i + n → text[k]? = some '='
  ended : text[i + n + 1]? ≠ some '='

/-- What stands behind the stem of a closing bracket. -/
theorem StretchAt.of_drop {i : Nat} {t : List Char} (h : text.drop i = closingStem n ++ t)
    (ht : t.head? ≠ some '=') : StretchAt text n i := by
  have hget : ∀ k, text[i + k]? = (closingStem n ++ t)[k]? := fun k => by
    rw [← h, List.getElem?_drop]
  refine ⟨?_, fun k hk hkn => ?_, ?_⟩
  · exact (hget 0).trans rfl
  · obtain ⟨k, rfl⟩ : ∃ j, k = i + (j + 1) := ⟨k - i - 1, by omega⟩
    rw [hget, List.getElem?_append_left (by simp [closingStem]; omega), closingStem,
      List.getElem?_cons_succ, List.getElem?_replicate, if_pos (by omega)]
  · rw [Nat.add_assoc, hget, List.getElem?_append_right (by simp [closingStem])]
    simpa [closingStem, List.head?_eq_getElem?] using ht

theorem exists_stretchAt (h : ¬ isSafe text n = true) : ∃ i, StretchAt text n i := by
  rw [isSafe_iff, not_and_or, not_not, Bool.not_eq_false] at h
  rcases h with h | ⟨before, rfl⟩
  · obtain ⟨i, more, hi⟩ := occursIn_iff.1 h
    refine ⟨i, .of_drop (t := ']' :: more) ?_ (by simp)⟩
    rw [← hi, closing]
    simp
  · exact ⟨before.length, .of_drop (t := []) (by simp) (by simp)⟩

/-- Stretches of different levels have no place in common: a later one would begin with one of the
    `=` of the other, and of two at one place the shorter would go on. -/
theorem StretchAt.disjoint {m i j : Nat} (h : StretchAt text n i) (h' : StretchAt text m j)
    (hne : n ≠ m) : i + n < j ∨ j + m < i := by
  have hlater : ∀ {n m i j}, StretchAt text n i → StretchAt text m j → i < j → i + n < j := by
    intro n m i j h h' hij
    refine Nat.lt_of_not_le fun hle => ?_
    have := h.equals j hij hle
    rw [h'.bracket] at this
    exact absurd this (by decide)
  have hlonger : ∀ {n m i}, StretchAt text n i → StretchAt text m i → ¬ n < m :=
    fun {n m i} h h' hnm => h.ended (h'.equals (i + n + 1) (by omega) (by omega))
  rcases Nat.lt_trichotomy i j with hij | rfl | hij
  · exact Or.inl (hlater h h' hij)
  · exact absurd (Nat.lt_or_gt_of_ne hne) (not_or.2 ⟨hlonger h h', hlonger h' h⟩)
  · exact Or.inr (hlater h' h hij)

/-- A stretch lies in the text. -/
theorem StretchAt.lt_length {i : Nat} (h : StretchAt text n i) : i + n < text.length := by
  have hlast : text[i + n]? = some ']' ∨ text[i + n]? = some '=' := by
    cases n with
    | zero => exact Or.inl h.bracket
    | succ n => exact Or.inr (h.equals _ (by omega) (Nat.le_refl _))
  rcases hlast with hlast | hlast <;> exact (List.getElem?_eq_some_iff.1 hlast).1

/-- Stretches of the levels below a bound take all their characters from the text. -/
theorem sum_stretches_le {bound : Nat} {start : Nat → Nat}
    (h : ∀ m < bound, StretchAt text m (start m)) :
    ∑ m ∈ Finset.range bound, (m + 1) ≤ text.length := by
  have hdisjoint : (Finset.range bound : Set Nat).PairwiseDisjoint
      fun m => Finset.Icc (start m) (start m + m) := by
    intro m hm m' hm' hne
    refine Finset.disjoint_left.2 fun k hk hk' => ?_
    have hapart := (h m (Finset.mem_range.1 hm)).disjoint (h m' (Finset.mem_range.1 hm')) hne
    rw [Finset.mem_Icc] at hk hk'
    omega
  have hsub : (Finset.range bound).biUnion (fun m => Finset.Icc (start m) (start m + m)) ⊆
      Finset.range text.length := by
    intro k hk
    obtain ⟨m, hm, hk⟩ := Finset.mem_biUnion.1 hk
    have hlt := (h m (Finset.mem_range.1 hm)).lt_length
    rw [Finset.mem_Icc] at hk
    exact Finset.mem_range.2 (by omega)
  calc ∑ m ∈ Finset.range bound, (m + 1)
      = ((Finset.range bound).biUnion fun m => Finset.Icc (start m) (start m + m)).card := by
        rw [Finset.card_biUnion hdisjoint]
        refine Finset.sum_congr rfl fun m _ => ?_
        rw [Nat.card_Icc]
        omega
    _ ≤ text.length := by simpa using Finset.card_le_card hsub

/-- The sizes of the stretches are the numbers from one on. -/
theorem sum_stretches (bound : Nat) :
    2 * ∑ m ∈ Finset.range bound, (m + 1) = bound * (bound + 1) := by
  have h := Finset.sum_range_id_mul_two (bound + 1)
  rw [Finset.sum_range_succ', Nat.add_zero, Nat.add_sub_cancel] at h
  rw [Nat.mul_comm, h, Nat.mul_comm]

/-! ## The search for a safe level -/

/-- The search for a safe level, from a level on and with no bound on its steps, ends at a level. -/
inductive SearchEnds (text : List Char) : Nat → Nat → Prop where
  | found {n : Nat} (h : isSafe text n = true) : SearchEnds text n n
  | next {m n : Nat} (h : ¬ isSafe text m = true) (hrest : SearchEnds text (m + 1) n) :
    SearchEnds text m n

/-- A search ends at one level only. -/
theorem SearchEnds.unique {m n k : Nat} (h : SearchEnds text m n) (hk : SearchEnds text m k) :
    n = k := by
  induction h with
  | found h =>
    cases hk with
    | found => rfl
    | next hunsafe => exact absurd h hunsafe
  | next h _ ih =>
    cases hk with
    | found hsafe => exact absurd hsafe h
    | next _ hrest => exact ih hrest

theorem searchEnds_levelFrom {further level : Nat} (h : text.length ≤ level + further) :
    SearchEnds text level (levelFrom text further level) := by
  induction further generalizing level with
  | zero => exact .found (isSafe_of_length_le (Nat.add_zero level ▸ h))
  | succ further ih =>
    rw [levelFrom]
    split
    · rename_i hsafe
      exact .found hsafe
    · rename_i hunsafe
      exact .next hunsafe (ih (by omega))

/-- **The search for a level ends, and the level stays small.**  Searched for without a bound, the
    level is found.  Each level that was passed over has a stretch of the text, no two of them have
    a place in common, and so the level times its successor is at most twice the length of the
    text. -/
theorem level_search (text : List Char) :
    (∀ n, SearchEnds text 0 n ↔ n = level text) ∧
      (∃ start : Nat → Nat, (∀ m < level text, StretchAt text m (start m)) ∧
        ∀ m < level text, ∀ m' < level text, m ≠ m' →
          start m + m < start m' ∨ start m' + m' < start m) ∧
      level text * (level text + 1) ≤ 2 * text.length := by
  have hpassed : ∀ m, ∃ i, m < level text → StretchAt text m i := by
    intro m
    by_cases hm : m < level text
    · have hunsafe : ¬ isSafe text m = true := fun h =>
        Nat.not_le_of_lt hm ((level_isLeast_isSafe text).2 h)
      obtain ⟨i, hi⟩ := exists_stretchAt hunsafe
      exact ⟨i, fun _ => hi⟩
    · exact ⟨0, fun h => absurd h hm⟩
  choose start hstart using hpassed
  have hends : SearchEnds text 0 (level text) := searchEnds_levelFrom (by omega)
  refine ⟨fun n => ⟨fun h => h.unique hends, fun h => h ▸ hends⟩, ⟨start, hstart, ?_⟩, ?_⟩
  · exact fun m hm m' hm' hne => (hstart m hm).disjoint (hstart m' hm') hne
  · rw [← sum_stretches]
    exact Nat.mul_le_mul_left 2 (sum_stretches_le hstart)

end LongBracket

end Reenact
