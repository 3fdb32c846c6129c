/-
  The literal of a finite number denotes it.

  A whole number that is small enough is written as an integer, and any other number with a fraction
  or an exponent, so no literal of the one kind is one of the other.  Both kinds are numerals, as
  JSON has them, and the value of the numeral is rounded to the number.

  * `Notation.denotes_write`: in each notation, the text of a decimal is a numeral with its value;
  * `Binary64.smallInteger?_eq_some_iff`: which numbers are written as integers;
  * `number_text_denotes`: the literals of finite numbers are numerals that are rounded to them, and
    equal just for numbers that are equal.
-/
import Reenact.Proofs.JsonNumerals
import Reenact.Proofs.NumberLiterals
import Reenact.Proofs.ShortestDecimals

namespace Reenact

open Binary64 (decimal)
open Json (Numeral IsDigits natural)

/-! ## Digits -/

theorem natural_digitsOf (n : Nat) : natural (digitsOf n) = n := Nat.ofDigitChars_ten_toDigits

theorem natural_zero_cons (digits : List Char) : natural ('0' :: digits) = natural digits := rfl

theorem natural_zeros_append (n : Nat) (digits : List Char) :
    natural (List.replicate n '0' ++ digits) = natural digits := by
  rw [natural, Nat.ofDigitChars_append, Nat.ofDigitChars_replicate_zero, Nat.mul_zero, natural]

theorem natural_append_zeros (digits : List Char) (n : Nat) :
    natural (digits ++ List.replicate n '0') = natural digits * 10 ^ n := by
  rw [natural, Nat.ofDigitChars_append, Nat.ofDigitChars_replicate_zero, Nat.mul_comm, natural]

theorem isDigits_digitsOf (n : Nat) : IsDigits (digitsOf n) :=
  ⟨digitsOf_ne_nil n, isDigit_digitsOf n⟩

theorem isDigits_append {digits rest : List Char} (h : IsDigits digits)
    (hrest : rest.all Char.isDigit = true) : IsDigits (digits ++ rest) :=
  ⟨List.append_ne_nil_of_left_ne_nil h.ne_nil rest, Notation.isDigit_append h.isDigit hrest⟩

theorem isDigits_zeros_append {digits : List Char} (n : Nat) (h : IsDigits digits) :
    IsDigits (List.replicate n '0' ++ digits) :=
  ⟨List.append_ne_nil_of_right_ne_nil _ h.ne_nil,
    Notation.isDigit_append (Notation.isDigit_replicate n) h.isDigit⟩

/-- Only the digits of zero begin with a zero. -/
theorem head?_digitsOf {n : Nat} (hn : n ≠ 0) : (digitsOf n).head? ≠ some '0' := by
  induction n using Nat.strongRecOn with
  | ind n ih =>
    rw [digitsOf, Nat.toDigits_eq_if (by decide)]
    split
    · next hlt =>
      have hdigits : ∀ d < 10, d ≠ 0 → [Nat.digitChar d].head? ≠ some '0' := by decide
      exact hdigits n hlt hn
    · rw [List.head?_append_of_ne_nil _ Nat.toDigits_ne_nil]
      exact ih (n / 10) (by omega) (by omega)

theorem leading_digitsOf (n : Nat) : (digitsOf n).head? = some '0' → digitsOf n = ['0'] := by
  by_cases hn : n = 0
  · rw [hn]
    exact fun _ => rfl
  · exact fun h => absurd h (head?_digitsOf hn)

theorem decimal_mul_pow (negative : Bool) (digits k : Nat) (exponent : Int) :
    decimal negative (digits * 10 ^ k) exponent = decimal negative digits (exponent + k) := by
  rw [decimal, decimal, zpow_add₀ (by norm_num), zpow_natCast]
  push_cast
  ring

/-! ## Numerals in a notation -/

/-- The exponent has a small letter and no plus sign. -/
def Json.Numeral.IsPlain (n : Numeral) : Prop :=
  ∀ e ∈ n.exponent, e.letter = 'e' ∧ e.sign ≠ ['+']

/-- Behind any sign, the text is a plain numeral with the value of a decimal, and not that of an
    integer. -/
def Notation.Denotes (text : List Char) (digits : Nat) (exponent : Int) : Prop :=
  ∀ negative, ∃ n : Numeral, n.negative = negative ∧
    n.text = (if negative then ['-'] else []) ++ text ∧
    n.value = decimal negative digits exponent ∧ n.IsPlain ∧ ¬n.IsInteger

namespace Notation

variable {digits : List Char}

/-- Digits, a point and digits. -/
theorem denotes_fraction {whole fraction : List Char} (hwhole : IsDigits whole)
    (hleading : whole.head? = some '0' → whole = ['0']) (hfraction : IsDigits fraction) :
    Denotes (whole ++ '.' :: fraction) (natural (whole ++ fraction)) (-fraction.length) := by
  intro negative
  refine ⟨⟨negative, whole, fraction, none, hwhole, hleading, hfraction.isDigit⟩, rfl, ?_, ?_,
    nofun, fun h => hfraction.ne_nil h.1⟩
  · simp [Numeral.text, Numeral.tail, hfraction.ne_nil]
  · simp [Numeral.value]

theorem Denotes.of_eq {text : List Char} {n m : Nat} {e f : Int} (h : Denotes text n e)
    (hvalue : ∀ negative, decimal negative n e = decimal negative m f) : Denotes text m f := by
  intro negative
  obtain ⟨numeral, hnegative, htext, hn, hplain⟩ := h negative
  exact ⟨numeral, hnegative, htext, hn.trans (hvalue negative), hplain⟩

/-- Digits behind a zero, the point and `k` zeros. -/
theorem denotes_behind_zeros (hdigits : IsDigits digits) (k : Nat) :
    Denotes ('0' :: '.' :: (List.replicate k '0' ++ digits)) (natural digits)
      (-(k + digits.length : Nat)) := by
  have hzero : IsDigits ['0'] := ⟨by decide, by decide⟩
  refine (denotes_fraction hzero (fun _ => rfl) (isDigits_zeros_append k hdigits)).of_eq
    fun negative => ?_
  rw [List.singleton_append, natural_zero_cons, natural_zeros_append, List.length_append,
    List.length_replicate]

/-- Digits in front of `k` zeros, the point and another zero. -/
theorem denotes_before_zeros (hdigits : IsDigits digits) (hleading : digits.head? ≠ some '0')
    (k : Nat) : Denotes (digits ++ List.replicate k '0' ++ ['.', '0']) (natural digits) k := by
  have hzero : IsDigits ['0'] := ⟨by decide, by decide⟩
  have hwhole := isDigits_append hdigits (isDigit_replicate k)
  have hhead : (digits ++ List.replicate k '0').head? ≠ some '0' := by
    rwa [List.head?_append_of_ne_nil _ hdigits.ne_nil]
  have hzeros : digits ++ List.replicate k '0' ++ ['0'] =
      digits ++ List.replicate (k + 1) '0' := by
    rw [List.replicate_succ', List.append_assoc]
  refine (denotes_fraction hwhole (fun h => absurd h hhead) hzero).of_eq fun negative => ?_
  rw [hzeros, natural_append_zeros, decimal_mul_pow]
  congr 1
  simp only [List.length_singleton]
  omega

/-- Digits with the point among them. -/
theorem denotes_among (hdigits : IsDigits digits) (hleading : digits.head? ≠ some '0') {p : Nat}
    (hp : p ≠ 0) (hlt : p < digits.length) :
    Denotes (digits.take p ++ '.' :: digits.drop p) (natural digits) (p - digits.length) := by
  have htake : IsDigits (digits.take p) :=
    ⟨by simp [hp, hdigits.ne_nil], isDigit_take hdigits.isDigit p⟩
  have hdrop : IsDigits (digits.drop p) := ⟨by simpa using hlt, isDigit_drop hdigits.isDigit p⟩
  have hhead : (digits.take p).head? ≠ some '0' := by rwa [List.head?_take, if_neg hp]
  refine (denotes_fraction htake (fun h => absurd h hhead) hdrop).of_eq fun negative => ?_
  rw [List.take_append_drop, List.length_drop]
  congr 1
  omega

/-- Digits with a point are the same digits with zeros, which the power of ten makes up for. -/
theorem denotes_withPoint (hdigits : IsDigits digits) (hleading : digits.head? ≠ some '0')
    (point : Int) : Denotes (withPoint digits point) (natural digits) (point - digits.length) := by
  unfold withPoint
  split
  · next p =>
    rw [Int.ofNat_eq_natCast]
    split
    · next hp =>
      have h := denotes_behind_zeros hdigits 0
      rwa [show (-(0 + digits.length : Nat) : Int) = p - digits.length by omega] at h
    split
    · next hle =>
      have h := denotes_before_zeros hdigits hleading (p - digits.length)
      rwa [Nat.cast_sub hle] at h
    · next hp hlt => exact denotes_among hdigits hleading hp (Nat.lt_of_not_le hlt)
  · next p =>
    have h := denotes_behind_zeros hdigits (p + 1)
    rwa [show (-(p + 1 + digits.length : Nat) : Int) = .negSucc p - digits.length by omega] at h

/-- An exponent as it is written for an integer. -/
def exponentOf (i : Int) : Json.Exponent where
  letter := 'e'
  sign := if i < 0 then ['-'] else []
  digits := digitsOf i.natAbs
  letter_mem := by decide
  sign_mem := by split <;> decide
  isDigits := isDigits_digitsOf _

theorem text_exponentOf (i : Int) : (exponentOf i).text = 'e' :: integerText i := by
  unfold Json.Exponent.text exponentOf integerText
  split <;> rfl

theorem value_exponentOf (i : Int) : (exponentOf i).value = i := by
  simp only [Json.Exponent.value, exponentOf, natural_digitsOf]
  by_cases h : i < 0
  · rw [if_pos h, if_pos rfl]
    omega
  · rw [if_neg h, if_neg (by decide)]
    omega

theorem denotes_withExponent (hdigits : IsDigits digits) (point : Int) :
    Denotes (withExponent digits point) (natural digits) (point - digits.length) := by
  obtain ⟨c, rest, rfl⟩ := List.exists_cons_of_ne_nil hdigits.ne_nil
  have hall := hdigits.isDigit
  rw [List.all_cons, Bool.and_eq_true] at hall
  have hleading : [c].head? = some '0' → [c] = ['0'] := by
    intro h
    rw [Option.some.inj h]
  have hc : IsDigits [c] := ⟨List.cons_ne_nil _ _, by rw [List.all_cons, hall.1]; rfl⟩
  intro negative
  refine ⟨⟨negative, [c], rest, some (exponentOf (point - 1)), hc, hleading, hall.2⟩, rfl, ?_, ?_,
    ?_, fun h => ?_⟩
  · have htail : withExponent (c :: rest) point =
        [c] ++ ((if rest = [] then [] else '.' :: rest) ++ 'e' :: integerText (point - 1)) := by
      cases rest <;> rfl
    simp only [Numeral.text, Numeral.tail, Option.map_some, Option.getD_some, text_exponentOf]
    rw [htail, List.append_assoc]
  · simp only [Numeral.value, Option.map_some, Option.getD_some, value_exponentOf]
    congr 1
    simp only [List.length_cons]
    omega
  · rintro e ⟨⟩
    refine ⟨rfl, ?_⟩
    show (if point - 1 < 0 then ['-'] else []) ≠ ['+']
    split <;> decide
  · cases h.2.1

/-- **The text of a decimal is a numeral with its value**, in each notation. -/
theorem denotes_write (n : Notation) {d : Decimal} (hd : d.digits ≠ 0) :
    Denotes (n.write d) d.digits d.exponent := by
  have hleading := head?_digitsOf hd
  have hexponent : ((digitsOf d.digits).length + d.exponent : Int) - (digitsOf d.digits).length =
      d.exponent := by omega
  unfold write
  dsimp only
  split
  · have := denotes_withPoint (isDigits_digitsOf d.digits) hleading
      ((digitsOf d.digits).length + d.exponent)
    rwa [natural_digitsOf, hexponent] at this
  · have := denotes_withExponent (isDigits_digitsOf d.digits)
      ((digitsOf d.digits).length + d.exponent)
    rwa [natural_digitsOf, hexponent] at this

end Notation

/-! ## Values of numbers -/

namespace Binary64

variable {x y : Binary64}

theorem natAbs_units (x : Binary64) : x.units.natAbs = unitsOf x.magnitude := by
  unfold units
  split <;> simp

theorem cast_unitsPerOne_ne_zero : (unitsPerOne : ℚ) ≠ 0 := Nat.cast_ne_zero.2 unitsPerOne_pos.ne'

theorem value_eq_intCast_iff {i : Int} : x.value = i ↔ x.units = i * unitsPerOne := by
  rw [value, div_eq_iff cast_unitsPerOne_ne_zero]
  norm_cast

theorem value_eq_value_iff : x.value = y.value ↔ x.units = y.units := by
  rw [value, value, div_left_inj' cast_unitsPerOne_ne_zero, Int.cast_inj]

/-- **The numbers that are written as integers** are the whole ones of less than `2 ^ 53`. -/
theorem smallInteger?_eq_some_iff {i : Int} :
    x.smallInteger? = some i ↔ x.value = i ∧ i.natAbs < 2 ^ 53 := by
  have hpos := unitsPerOne_pos
  rw [value_eq_intCast_iff, smallInteger?, ← natAbs_units]
  generalize unitsPerOne = one at hpos ⊢
  generalize x.units = u
  constructor
  · intro h
    split at h
    · next hsmall =>
      cases h
      obtain ⟨k, rfl⟩ : (one : Int) ∣ u := Int.natCast_dvd.2 (Nat.dvd_of_mod_eq_zero hsmall.1)
      rw [Int.natAbs_mul, Int.natAbs_natCast, Nat.mul_div_cancel_left _ hpos] at hsmall
      rw [Int.mul_ediv_cancel_left _ (by omega)]
      exact ⟨mul_comm _ _, hsmall.2⟩
    · cases h
  · rintro ⟨rfl, hi⟩
    rw [Int.natAbs_mul, Int.natAbs_natCast, Nat.mul_mod_left, Nat.mul_div_cancel _ hpos,
      Int.mul_ediv_cancel _ (by omega), if_pos ⟨rfl, hi⟩]

/-- Numbers other than zero are the same if their values are. -/
theorem eq_of_value_eq (h : x.value = y.value) (hx : x.units ≠ 0) : x = y := by
  have hunits := value_eq_value_iff.1 h
  have hne : ∀ z : Binary64, z.units ≠ 0 → (z.isNegative = true ↔ z.units < 0) := by
    intro z hz
    rw [← Int.natAbs_ne_zero, natAbs_units] at hz
    rw [units_neg_iff, and_iff_left hz]
  have hsign : x.isNegative = y.isNegative := by
    rw [Bool.eq_iff_iff, hne x hx, hne y (hunits ▸ hx), hunits]
  rw [← ofMagnitude_magnitude x, ← ofMagnitude_magnitude y, hsign, magnitude_inj hsign.symm h.symm]

/-- A number with the other sign is what a decimal is rounded to only if it is zero. -/
theorem value_eq_zero_of_isRounded {negative : Bool} {digits : Nat} {exponent : Int}
    (h : IsRounded (decimal negative digits exponent) x) (hsign : x.isNegative ≠ negative) :
    x.value = 0 := by
  have hzero : zero.value = 0 := by decide +kernel
  have habs : |sign negative| = 1 := by unfold sign; split <;> simp
  have hopposite : sign x.isNegative = -sign negative := by
    unfold sign
    cases hx : x.isNegative <;> cases negative <;> simp_all
  have hdecimal : (0 : ℚ) ≤ digits * 10 ^ exponent :=
    mul_nonneg (Nat.cast_nonneg _) (zpow_nonneg (by norm_num) _)
  have hvalue : (0 : ℚ) ≤ unitsOf x.magnitude / unitsPerOne :=
    div_nonneg (Nat.cast_nonneg _) (Nat.cast_nonneg _)
  have hnearest := h.nearest zero rfl
  have hapart : decimal negative digits exponent - x.value = sign negative *
      (digits * 10 ^ exponent + unitsOf x.magnitude / unitsPerOne) := by
    rw [value_eq, hopposite, decimal]
    ring
  rw [hapart, hzero, sub_zero, decimal, abs_mul, abs_mul, habs, one_mul, one_mul,
    abs_of_nonneg hdecimal, abs_of_nonneg (add_nonneg hdecimal hvalue)] at hnearest
  rw [value_eq, mul_div_assoc, le_antisymm (by linarith) hvalue, mul_zero]

/-- **All numbers that a decimal is rounded to have one value**: two zeros may be among them. -/
theorem value_of_isRounded {negative : Bool} {digits : Nat} {exponent : Int}
    (h : IsRounded (decimal negative digits exponent) x) :
    x.value = (ofDecimal negative digits exponent).value := by
  by_cases hsign : x.isNegative = negative
  · subst hsign
    rw [← (eq_ofDecimal_iff digits exponent).2 h]
  · have hx := value_eq_zero_of_isRounded h hsign
    -- the zero with the sign of the decimal is as near
    obtain ⟨z, rfl, hmagnitude⟩ : ∃ z : Binary64, z.isNegative = negative ∧ z.magnitude = 0 :=
      ⟨ofMagnitude negative 0, isNegative_ofMagnitude (by decide),
        magnitude_ofMagnitude (by decide)⟩
    have hz : z.value = 0 := by
      rw [value_eq, hmagnitude]
      simp [unitsOf]
    have hrounded : IsRounded (decimal z.isNegative digits exponent) z := by
      refine ⟨isNaN_eq_false_iff.2 (hmagnitude ▸ Nat.zero_le _), fun y hy => ?_, fun _ _ _ _ => ?_⟩
      · rw [hz, ← hx]
        exact h.nearest y hy
      · rw [hmagnitude]
    rw [hx, ← hz, ← (eq_ofDecimal_iff digits exponent).2 hrounded]

end Binary64

/-! ## Literals -/

/-- The numeral of an integer. -/
def Json.Numeral.ofInt (i : Int) : Numeral where
  negative := i < 0
  whole := digitsOf i.natAbs
  fraction := []
  exponent := none
  isDigits := isDigits_digitsOf _
  leading := leading_digitsOf _
  isDigit_fraction := rfl

theorem text_ofInt (i : Int) : (Numeral.ofInt i).text = integerText i := by
  by_cases h : i < 0
  · simp [Numeral.text, Numeral.tail, Numeral.ofInt, integerText, h]
  · simp [Numeral.text, Numeral.tail, Numeral.ofInt, integerText, h]

/-- Small integers are read as themselves. -/
theorem denotes_ofInt {i : Int} (hi : i.natAbs < 2 ^ 53) :
    (Numeral.ofInt i).Denotes (.integer i) := by
  refine ⟨⟨rfl, rfl, ?_⟩, ?_⟩
  · simp only [Numeral.ofInt, natural_digitsOf, decide_eq_true_eq]
    split
    · omega
    · omega
  · simp only [Numeral.integer, Numeral.ofInt, natural_digitsOf, decide_eq_true_eq]
    split
    · omega
    · omega

/-- The value of a number that was read. -/
def Json.Number.value : Json.Number → ℚ
  | integer i => i
  | real x => x.value

/-- The literal of a finite number is a numeral that denotes it. -/
theorem exists_numeral {x : Binary64} (hfinite : x.isFinite = true) :
    ∃ (n : Numeral) (number : Json.Number), numberText x = n.text ∧ n.IsPlain ∧
      x.IsRounded n.value ∧ n.Denotes number ∧ number.value = x.value ∧
      ∀ i, x.smallInteger? = some i → n = .ofInt i := by
  have hnumber : x.isNaN = false := decide_eq_false (Nat.lt_asymm (of_decide_eq_true hfinite))
  rw [numberText_of_isFinite hfinite]
  cases hsmall : x.smallInteger? with
  | some i =>
    obtain ⟨hvalue, hi⟩ := Binary64.smallInteger?_eq_some_iff.1 hsmall
    have hdenotes := denotes_ofInt hi
    have hn : (Numeral.ofInt i).value = x.value := by
      rw [Numeral.value_of_isInteger hdenotes.1, ← hdenotes.2, hvalue]
    refine ⟨.ofInt i, .integer i, (text_ofInt i).symm, nofun, hn ▸ Binary64.isRounded_value hnumber,
      hdenotes, hvalue.symm, ?_⟩
    rintro _ ⟨⟩
    rfl
  | none =>
    have hx : x.magnitude ≠ 0 := by
      intro hzero
      exact Binary64.unitsOf_ne_zero_of_not_smallInteger hsmall (by rw [hzero]; rfl)
    obtain ⟨hrounded, hdigits⟩ := Binary64.isRounded_shortest hfinite hx
    obtain ⟨n, hnegative, htext, hvalue, hplain, hinteger⟩ :=
      Notation.denotes_write .literal hdigits x.isNegative
    rw [← hvalue] at hrounded
    exact ⟨n, .real x, htext.symm, hplain, hrounded, ⟨hinteger, hnegative.symm, hfinite, hrounded⟩,
      rfl, nofun⟩

/-- **The literal of a finite number denotes it.**  It is a numeral: digits with a minus sign in
    front for negative numbers, and a fraction and an exponent where they are needed.  The exact
    value of the numeral is rounded to the number, and to no number with another value.  A whole
    number of less than `2 ^ 53` either way is written with its digits only.  Two literals are the
    same just if the numbers are equal, which the two zeros are. -/
theorem number_text_denotes :
    (∀ x : Binary64, x.isFinite = true → ∃ n : Numeral, numberText x = n.text ∧ n.IsPlain ∧
      x.IsRounded n.value ∧ (∀ y : Binary64, y.IsRounded n.value → y.value = x.value) ∧
      ∀ i : Int, x.value = i → i.natAbs < 2 ^ 53 → n.negative = decide (i < 0) ∧
        natural n.whole = i.natAbs ∧ n.fraction = [] ∧ n.exponent = none) ∧
    ∀ x y : Binary64, x.isFinite = true → y.isFinite = true →
      (numberText x = numberText y ↔ x.value = y.value) := by
  refine ⟨fun x hx => ?_, fun x y hx hy => ⟨fun htext => ?_, fun hvalue => ?_⟩⟩
  · obtain ⟨n, -, htext, hplain, hrounded, -, -, hsmall⟩ := exists_numeral hx
    refine ⟨n, htext, hplain, hrounded, fun y hy => ?_, fun i hvalue hi => ?_⟩
    · rw [Binary64.value_of_isRounded hy, Binary64.value_of_isRounded hrounded]
    · rw [hsmall i (Binary64.smallInteger?_eq_some_iff.2 ⟨hvalue, hi⟩)]
      exact ⟨rfl, natural_digitsOf _, rfl, rfl⟩
  -- what the text is read as has the value of both
  · obtain ⟨n, number, hn, -, -, hnumber, hxvalue, -⟩ := exists_numeral hx
    obtain ⟨m, other, hm, -, -, hother, hyvalue, -⟩ := exists_numeral hy
    have hread := Numeral.ofWord?_text hnumber
    rw [← hn, htext, hm, Numeral.ofWord?_text hother] at hread
    rw [← hxvalue, ← hyvalue, Option.some.inj hread]
  · rw [numberText_of_isFinite hx, numberText_of_isFinite hy]
    have hsmall : ∀ i, x.smallInteger? = some i ↔ y.smallInteger? = some i := by
      intro i
      rw [Binary64.smallInteger?_eq_some_iff, Binary64.smallInteger?_eq_some_iff, hvalue]
    rw [← Option.ext hsmall]
    cases hxsmall : x.smallInteger? with
    | some i => rfl
    | none =>
      have hunits : x.units ≠ 0 := by
        rw [← Int.natAbs_ne_zero, Binary64.natAbs_units]
        exact Binary64.unitsOf_ne_zero_of_not_smallInteger hxsmall
      rw [Binary64.eq_of_value_eq hvalue hunits]

/-- The negative zero, the smallest positive number, and the numbers on both sides of where integers
    are no longer written as such. -/
theorem number_texts_at_limits :
    let negativeZero : Binary64 := ⟨0x8000000000000000⟩
    let smallest : Binary64 := ⟨1⟩
    let below : Binary64 := ⟨0x433fffffffffffff⟩
    let limit : Binary64 := ⟨0x4340000000000000⟩
    numberText negativeZero = numberText Binary64.zero ∧
      (∃ n : Numeral, n.text = "5e-324".toList ∧ smallest.IsRounded n.value) ∧
      numberText below = "9007199254740991".toList ∧
      numberText limit = "9007199254740992.0".toList ∧ below.value ≠ limit.value := by
  intro negativeZero smallest below limit
  obtain ⟨hdenotes, hsame⟩ := number_text_denotes
  have hsmallest : numberText smallest = "5e-324".toList := by decide +kernel
  have hbelow : numberText below = "9007199254740991".toList := by decide +kernel
  have hlimit : numberText limit = "9007199254740992.0".toList := by decide +kernel
  refine ⟨(hsame _ _ (by decide) (by decide)).2 (by decide +kernel), ?_, hbelow, hlimit, ?_⟩
  · obtain ⟨n, htext, -, hrounded, -⟩ := hdenotes smallest (by decide)
    exact ⟨n, htext ▸ hsmallest, hrounded⟩
  · intro hvalue
    have htext := (hsame below limit (by decide) (by decide)).2 hvalue
    rw [hbelow, hlimit] at htext
    exact absurd htext (by decide)

end Reenact
