/-
  Numerals of JSON texts.

  A numeral is digits without a superfluous leading zero, with an optional sign in front and an
  optional fraction and exponent behind.  It is an integer if it has only digits and fits into 64
  bits, and otherwise the finite number that its value is rounded to.

  * `Numeral.text` is a numeral as it is written, `Numeral.value` its exact value;
  * `Numeral.Denotes`: what a numeral is read as;
  * `Numeral.ofWord?_text`: this is what it is read as.
-/
import Reenact.Json.Token
import Reenact.Proofs.DecimalRounding

namespace Reenact

namespace Json

/-- At least one digit, and nothing else. -/
structure IsDigits (text : List Char) : Prop where
  ne_nil : text ≠ []
  isDigit : text.all Char.isDigit = true

/-- The number that digits denote. -/
def natural (digits : List Char) : Nat := Nat.ofDigitChars 10 digits 0

/-- The exponent of a numeral, as it is written. -/
structure Exponent where
  letter : Char
  sign : List Char
  digits : List Char
  letter_mem : letter ∈ ['e', 'E']
  sign_mem : sign ∈ [[], ['+'], ['-']]
  isDigits : IsDigits digits

/-- A numeral, as it is written. -/
structure Numeral where
  /-- With a minus sign in front -/
  negative : Bool
  /-- The digits before the point -/
  whole : List Char
  /-- The digits behind the point; without any, there is no point -/
  fraction : List Char
  exponent : Option Exponent
  isDigits : IsDigits whole
  /-- Only a zero alone begins with a zero -/
  leading : whole.head? = some '0' → whole = ['0']
  isDigit_fraction : fraction.all Char.isDigit = true

def Exponent.text (e : Exponent) : List Char := e.letter :: (e.sign ++ e.digits)

def Exponent.value (e : Exponent) : Int :=
  if e.sign = ['-'] then -(natural e.digits : Int) else natural e.digits

namespace Numeral

/-- What is written behind the digits before the point. -/
def tail (n : Numeral) : List Char :=
  (if n.fraction = [] then [] else '.' :: n.fraction) ++ (n.exponent.map Exponent.text).getD []

def text (n : Numeral) : List Char :=
  (if n.negative then ['-'] else []) ++ n.whole ++ n.tail

/-- The exact value of a numeral: all its digits as one number, times a power of ten. -/
def value (n : Numeral) : ℚ :=
  Binary64.decimal n.negative (natural (n.whole ++ n.fraction))
    ((n.exponent.map Exponent.value).getD 0 - n.fraction.length)

/-- Digits alone that fit into 64 bits, with a sign or without one; there is no negative zero. -/
def IsInteger (n : Numeral) : Prop :=
  n.fraction = [] ∧ n.exponent = none ∧
    if n.negative then natural n.whole ≠ 0 ∧ natural n.whole ≤ 2 ^ 63 else natural n.whole < 2 ^ 64

/-- The number before the point, with the sign. -/
def integer (n : Numeral) : Int := if n.negative then -(natural n.whole : Int) else natural n.whole

/-- **What a numeral is read as**: itself, if it is an integer of 64 bits, and else the number that
    its value is rounded to, which has to be finite. -/
def Denotes (n : Numeral) : Number → Prop
  | .integer i => n.IsInteger ∧ i = n.integer
  | .real x =>
    ¬n.IsInteger ∧ x.isNegative = n.negative ∧ x.isFinite = true ∧ x.IsRounded n.value

theorem value_of_isInteger {n : Numeral} (h : n.IsInteger) : n.value = n.integer := by
  rw [value, integer, h.1, h.2.1]
  cases n.negative <;> simp [Binary64.decimal, Binary64.sign]

theorem negative_eq_of_isInteger {n : Numeral} (h : n.IsInteger) :
    n.negative = decide (n.integer < 0) := by
  have hrange := h.2.2
  rw [integer]
  cases hnegative : n.negative with
  | false => simp
  | true =>
    rw [hnegative] at hrange
    have := hrange.1
    simp
    omega

end Numeral

/-! ## Reading -/

/-- Digits end where something else begins. -/
theorem span_digits {digits rest : List Char} (hdigits : digits.all Char.isDigit = true)
    (hrest : ∀ c ∈ rest.head?, c.isDigit = false) :
    (digits ++ rest).takeWhile Char.isDigit = digits ∧
      (digits ++ rest).dropWhile Char.isDigit = rest := by
  rw [List.all_eq_true] at hdigits
  rw [List.takeWhile_append_of_pos hdigits, List.dropWhile_append_of_pos hdigits]
  cases rest with
  | nil => simp
  | cons c rest => simp [hrest c rfl]

theorem Exponent.exponent?_eq (e : Exponent) :
    Number.exponent? (e.sign ++ e.digits) = some e.value := by
  obtain ⟨letter, sign, digits, -, hsign, hne, hdigits⟩ := e
  have hnatural : Number.exponent?.natural? digits = some (natural digits) := by
    rw [Number.exponent?.natural?, if_pos]
    · rfl
    · simpa [hne] using List.all_eq_true.1 hdigits
  simp only [List.mem_cons, List.not_mem_nil, or_false] at hsign
  rcases hsign with rfl | rfl | rfl
  -- without a sign, a digit comes first
  · obtain ⟨c, digits, rfl⟩ := List.exists_cons_of_ne_nil hne
    have hc := List.all_eq_true.1 hdigits c List.mem_cons_self
    have hplus : c ≠ '+' := by rintro rfl; exact absurd hc (by decide)
    have hminus : c ≠ '-' := by rintro rfl; exact absurd hc (by decide)
    simp [Number.exponent?, hnatural, Exponent.value, hplus, hminus]
  · simp [Number.exponent?, hnatural, Exponent.value]
  · simp [Number.exponent?, hnatural, Exponent.value]

namespace Numeral

variable (n : Numeral)

/-- The number that the value of a numeral is rounded to, unless it is infinite. -/
def rounded? : Option Number :=
  Number.ofFinite? <| Binary64.ofDecimal n.negative (natural (n.whole ++ n.fraction))
    ((n.exponent.map Exponent.value).getD 0 - n.fraction.length)

theorem ofParts?_eq :
    Number.ofParts? n.negative n.whole n.fraction ((n.exponent.map Exponent.text).getD []) =
      n.rounded? := by
  unfold rounded? Number.ofParts?
  cases hexponent : n.exponent with
  | none => simp [natural]; rfl
  | some e =>
    have hletter := e.letter_mem
    simp only [List.mem_cons, List.not_mem_nil, or_false] at hletter
    simp only [Option.map_some, Option.getD_some, Exponent.text, if_pos hletter, e.exponent?_eq,
      Option.bind_some]
    rfl

theorem isWhole_eq : Number.isWhole n.whole = true := by
  obtain ⟨-, whole, -, -, ⟨hne, hdigits⟩, hleading, -⟩ := n
  obtain ⟨c, rest, rfl⟩ := List.exists_cons_of_ne_nil hne
  rw [Number.isWhole.eq_def]
  split
  · contradiction
  · rfl
  · rename_i hzero heq
    cases heq
    have hc : c ≠ '0' := by
      rintro rfl
      cases hleading rfl
      exact hzero rfl rfl
    simpa [hc] using hdigits

theorem isInteger_iff : n.IsInteger ↔
    n.fraction = [] ∧ n.exponent = none ∧ Number.isKept n.negative (natural n.whole) = true := by
  unfold IsInteger Number.isKept
  cases n.negative <;> simp

theorem head?_exponentText : ∀ c ∈ ((n.exponent.map Exponent.text).getD []).head?,
    c.isDigit = false ∧ c ≠ '.' := by
  cases n.exponent with
  | none => simp
  | some e =>
    have hletter := e.letter_mem
    simp only [List.mem_cons, List.not_mem_nil, or_false] at hletter
    rcases hletter with h | h <;> simp [Exponent.text, h]

theorem ofUnsigned?_eq [Decidable n.IsInteger] :
    Number.ofUnsigned? n.negative (n.whole ++ n.tail) =
      if n.IsInteger then some (.integer n.integer) else n.rounded? := by
  have hexponent := n.head?_exponentText
  have htail : ∀ c ∈ n.tail.head?, c.isDigit = false := by
    unfold tail
    split
    · exact fun c hc => (hexponent c hc).1
    · simp
  obtain ⟨htake, hdrop⟩ := span_digits n.isDigits.isDigit htail
  rw [Number.ofUnsigned?, htake, hdrop, n.isWhole_eq, ← ofParts?_eq]
  by_cases hfraction : n.fraction = []
  · rw [tail, if_pos hfraction, List.nil_append, hfraction]
    cases he : n.exponent with
    | none =>
      have hinteger : n.IsInteger ↔ Number.isKept n.negative (natural n.whole) = true := by
        rw [isInteger_iff, and_iff_right hfraction, and_iff_right he]
      simp only [hinteger]
      rfl
    | some e =>
      have hne : ¬n.IsInteger := fun h => by
        rw [isInteger_iff, he] at h
        cases h.2.1
      have hpoint : e.letter ≠ '.' := (hexponent e.letter (by simp [he, Exponent.text])).2
      simp [hne, Exponent.text, hpoint]
  · have hne : ¬n.IsInteger := fun h => hfraction h.1
    obtain ⟨htake, hdrop⟩ := span_digits n.isDigit_fraction fun c hc => (hexponent c hc).1
    rw [tail, if_neg hfraction, if_neg hne]
    simp [htake, hdrop, hfraction]

/-- **Numerals are read as what they denote.** -/
theorem ofWord?_text {n : Numeral} {number : Number} (h : n.Denotes number) :
    Number.ofWord? n.text = some number := by
  classical
  have hread : Number.ofUnsigned? n.negative (n.whole ++ n.tail) = some number := by
    rw [ofUnsigned?_eq]
    cases number with
    | integer i => rw [if_pos h.1, h.2]
    | real x =>
      obtain ⟨hne, hsign, hfinite, hrounded⟩ := h
      rw [value, ← hsign, ← Binary64.eq_ofDecimal_iff] at hrounded
      rw [if_neg hne, rounded?, ← hsign, ← hrounded, Number.ofFinite?, if_pos hfinite]
  rw [text, List.append_assoc]
  cases hnegative : n.negative with
  | true => simpa [Number.ofWord?, hnegative] using hread
  | false =>
    obtain ⟨c, rest, hwhole⟩ := List.exists_cons_of_ne_nil n.isDigits.ne_nil
    have hc : c.isDigit = true := List.all_eq_true.1 n.isDigits.isDigit c (by simp [hwhole])
    have hminus : c ≠ '-' := by rintro rfl; exact absurd hc (by decide)
    simpa [Number.ofWord?, hwhole, hminus, hnegative] using hread

/-! ## Words -/

/-- The characters of a numeral that are not digits. -/
def signs : List Char := ['-', '+', '.', 'e', 'E']

theorem mem_text {n : Numeral} {c : Char} (h : c ∈ n.text) : c.isDigit = true ∨ c ∈ signs := by
  have hexponent : c ∈ (n.exponent.map Exponent.text).getD [] → c.isDigit = true ∨ c ∈ signs := by
    cases n.exponent with
    | none => simp
    | some e =>
      obtain ⟨letter, sign, digits, hletter, hsign, -, hdigits⟩ := e
      simp only [List.mem_cons, List.not_mem_nil, or_false] at hletter hsign
      simp only [Option.map_some, Option.getD_some, Exponent.text, List.mem_cons, List.mem_append]
      rintro (rfl | hc | hc)
      · rcases hletter with rfl | rfl <;> exact .inr (by decide)
      · rcases hsign with rfl | rfl | rfl
        · cases hc
        all_goals
          rw [List.mem_singleton] at hc
          subst hc
          exact .inr (by decide)
      · exact .inl (List.all_eq_true.1 hdigits c hc)
  simp only [text, tail, List.mem_append] at h
  rcases h with (h | h) | h | h
  · split at h
    · rw [List.mem_singleton] at h
      subst h
      exact .inr (by decide)
    · cases h
  · exact .inl (List.all_eq_true.1 n.isDigits.isDigit c h)
  · split at h
    · cases h
    · rcases List.mem_cons.1 h with rfl | h
      · exact .inr (by decide)
      · exact .inl (List.all_eq_true.1 n.isDigit_fraction c h)
  · exact hexponent h

theorem text_ne_nil (n : Numeral) : n.text ≠ [] := by
  simp [text, n.isDigits.ne_nil]

/-- The characters that end a word. -/
def ends : List Char := [' ', '\t', '\n', '\r', '"', '[', ']', '{', '}', ',', ':']

theorem mem_ends {c : Char} (h : Lexer.endsWord c = true) : c ∈ ends := by
  simp only [Lexer.endsWord, isSpace, Bool.or_eq_true, beq_iff_eq] at h
  rcases h with ((((rfl | rfl) | rfl) | rfl) | rfl) | h
  iterate 5 decide
  unfold Token.mark? at h
  split at h
  all_goals first | decide | contradiction

/-- No character of a numeral ends a word. -/
theorem endsWord_text {n : Numeral} {c : Char} (h : c ∈ n.text) : Lexer.endsWord c = false := by
  have hnot : ends.all (fun c => !(c.isDigit || signs.contains c)) = true := by decide
  rw [Bool.eq_false_iff]
  intro hends
  have hc := List.all_eq_true.1 hnot c (mem_ends hends)
  rcases mem_text h with hmem | hmem <;> simp [hmem] at hc

/-- **Numerals are words**, and none of those that stand for themselves. -/
theorem word?_text {n : Numeral} {number : Number} (h : n.Denotes number) :
    Token.word? n.text = some (.number number) := by
  have hletter : ∀ c, ¬(c.isDigit = true ∨ c ∈ signs) → c ∉ n.text := fun c hc hmem =>
    hc (mem_text hmem)
  have hnull : n.text ≠ "null".toList := fun heq =>
    hletter 'n' (by decide) (heq ▸ by decide)
  have htrue : n.text ≠ "true".toList := fun heq =>
    hletter 't' (by decide) (heq ▸ by decide)
  have hfalse : n.text ≠ "false".toList := fun heq =>
    hletter 'f' (by decide) (heq ▸ by decide)
  rw [Token.word?, if_neg hnull, if_neg htrue, if_neg hfalse, ofWord?_text h]
  rfl

end Numeral

end Json

end Reenact
