/-
  How the literals of numbers are read.

  In each notation, the text of a decimal is one number for the lexer (`Notation.numeral_write`), so
  the literal of a finite number is, too, with a minus sign in front if the number is negative
  (`numberText_numeral`).
-/
import Reenact.Literal.Number
import Reenact.Proofs.Rounding
import Reenact.Proofs.Tokens

namespace Reenact

open Lexer

theorem isDigit_digitsOf (n : Nat) : (digitsOf n).all Char.isDigit = true :=
  List.all_eq_true.2 fun _ => Nat.isDigit_of_mem_toDigits (by decide) (by decide)

theorem digitsOf_ne_nil (n : Nat) : digitsOf n ≠ [] := Nat.toDigits_ne_nil

/-! ## Notations -/

namespace Notation

theorem isNumeral_fraction {digits : List Char} (h : digits.all Char.isDigit = true) :
    isNumeral false ('.' :: digits) = true := by
  rw [isNumeral_point, isNumeral_of_digits h (.inl rfl)]

theorem isNumeral_exponent (i : Int) : isNumeral false ('e' :: integerText i) = true := by
  have hdigits := isDigit_digitsOf i.natAbs
  rw [isNumeral_mark, integerText]
  split
  · rw [isNumeral_minus, isNumeral_of_digits hdigits (.inl rfl)]
  · rw [isNumeral_of_digits hdigits (.inr (digitsOf_ne_nil _))]

theorem isDigit_replicate (n : Nat) : (List.replicate n '0').all Char.isDigit = true := by
  simp

theorem isDigit_append {digits rest : List Char} (h : digits.all Char.isDigit = true)
    (hrest : rest.all Char.isDigit = true) : (digits ++ rest).all Char.isDigit = true := by
  rw [List.all_append, h, hrest]
  rfl

theorem isDigit_take {digits : List Char} (h : digits.all Char.isDigit = true) (n : Nat) :
    (digits.take n).all Char.isDigit = true :=
  List.all_eq_true.2 fun c hc => List.all_eq_true.1 h c (List.mem_of_mem_take hc)

theorem isDigit_drop {digits : List Char} (h : digits.all Char.isDigit = true) (n : Nat) :
    (digits.drop n).all Char.isDigit = true :=
  List.all_eq_true.2 fun c hc => List.all_eq_true.1 h c (List.mem_of_mem_drop hc)

theorem numeral_withPoint {digits : List Char} (h : digits.all Char.isDigit = true)
    (hne : digits ≠ []) (point : Int) : Numeral (withPoint digits point) := by
  have hzero : ∀ {digits}, digits.all Char.isDigit = true → Numeral ('0' :: '.' :: digits) :=
    fun {digits} h => show Numeral (['0'] ++ '.' :: digits) from
      .append (by decide) (by decide) (isNumeral_fraction h)
  unfold withPoint
  split
  · rename_i p
    split
    · exact hzero h
    split
    · exact .append (isDigit_append h (isDigit_replicate _)) (by simp [hne])
        (isNumeral_fraction (by decide))
    · rename_i hp _
      have htake : digits.take p ≠ [] := by
        rw [Ne, List.take_eq_nil_iff]
        exact not_or.2 ⟨hp, hne⟩
      exact .append (isDigit_take h p) htake (isNumeral_fraction (isDigit_drop h p))
  · exact hzero (isDigit_append (isDigit_replicate _) h)

theorem numeral_withExponent {digits : List Char} (h : digits.all Char.isDigit = true)
    (hne : digits ≠ []) (point : Int) : Numeral (withExponent digits point) := by
  rw [withExponent, List.append_assoc]
  refine .append (isDigit_take h 1) (by simp [hne]) ?_
  split
  · exact isNumeral_exponent _
  · rw [List.cons_append, isNumeral_point,
      isNumeral_append_of_digits (isDigit_drop h 1) _ (.inl rfl), isNumeral_exponent]

theorem numeral_write (n : Notation) (d : Decimal) : Numeral (n.write d) := by
  unfold write
  dsimp only
  split
  · exact numeral_withPoint (isDigit_digitsOf _) (digitsOf_ne_nil _) _
  · exact numeral_withExponent (isDigit_digitsOf _) (digitsOf_ne_nil _) _

end Notation

/-! ## Literals of numbers -/

namespace Binary64

theorem units_neg_iff (x : Binary64) :
    x.units < 0 ↔ x.isNegative = true ∧ unitsOf x.magnitude ≠ 0 := by
  rw [units]
  split
  · rename_i hnegative
    rw [Int.neg_neg_iff_pos, Int.natCast_pos, Nat.pos_iff_ne_zero]
    exact (and_iff_right hnegative).symm
  · rename_i hnegative
    exact iff_of_false (Int.not_lt.2 (Int.natCast_nonneg _)) fun h => hnegative h.1

theorem unitsOf_ne_zero_of_not_smallInteger {x : Binary64} (h : x.smallInteger? = none) :
    unitsOf x.magnitude ≠ 0 := by
  intro hzero
  rw [smallInteger?, hzero, Nat.zero_mod, Nat.zero_div] at h
  cases h

theorem smallInteger?_neg_iff {x : Binary64} {i : Int} (h : x.smallInteger? = some i) :
    i < 0 ↔ x.units < 0 := by
  simp only [smallInteger?] at h
  split at h
  · cases h
    rw [← Int.not_le, ← Int.not_le, Int.ediv_nonneg_iff_of_pos (Int.natCast_pos.2 unitsPerOne_pos)]
  · cases h

end Binary64

theorem numberText_of_isFinite {x : Binary64} (hfinite : x.isFinite = true) :
    numberText x = match x.smallInteger? with
      | some i => integerText i
      | none => x.text .literal := by
  have hlt : x.magnitude < Binary64.infiniteMagnitude := of_decide_eq_true hfinite
  have hnan : x.isNaN = false := decide_eq_false (Nat.lt_asymm hlt)
  have hinfinite : x.isInfinite = false := decide_eq_false (Nat.ne_of_lt hlt)
  rw [numberText, hnan, hinfinite]
  rfl

/-- **The literal of a finite number is one number**, behind a minus sign if it is negative. -/
theorem numberText_numeral {x : Binary64} (hfinite : x.isFinite = true) :
    ∃ digits, Numeral digits ∧ numberText x = if x.units < 0 then '-' :: digits else digits := by
  rw [numberText_of_isFinite hfinite]
  cases hint : x.smallInteger? with
  | some i =>
    refine ⟨digitsOf i.natAbs, .of_digits (isDigit_digitsOf _) (digitsOf_ne_nil _), ?_⟩
    simp only [integerText, Binary64.smallInteger?_neg_iff hint]
  | none =>
    have hunits : x.units < 0 ↔ x.isNegative = true := by
      rw [x.units_neg_iff]
      exact and_iff_left (Binary64.unitsOf_ne_zero_of_not_smallInteger hint)
    refine ⟨_, Notation.numeral_write .literal (Decimal.shortest x.magnitude), ?_⟩
    simp only [Binary64.text, hunits]
    split <;> rfl

/-- Just the literals of negative numbers begin with a minus sign. -/
theorem head?_numberLiteral {x : Binary64} (hfinite : x.isFinite = true) :
    (numberLiteral x).toList.head? = some '-' ↔ x.units < 0 := by
  obtain ⟨digits, hdigits, htext⟩ := numberText_numeral hfinite
  obtain ⟨c, hc, hdigit⟩ := hdigits.isDigit_head
  rw [numberLiteral, String.toList_ofList, htext]
  split
  · exact iff_of_true rfl ‹_›
  · refine iff_of_false ?_ ‹_›
    rw [hc]
    rintro ⟨⟩
    exact absurd hdigit (by decide)

end Reenact
