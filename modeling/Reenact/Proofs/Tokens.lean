/-
  Tokens with text behind them.

  A token is read to its end and no further if the first character behind it does not belong to it:
  behind a name that is a letter, digit or underscore (`next?_word`), behind a number one of those
  or a point (`next?_numeral`), behind a symbol one with which a longer symbol, a comment, a number
  or a long bracket begins (`next?_symbol`).
-/
import Mathlib.Data.List.Infix
import Mathlib.Data.List.TakeWhile
import Reenact.Literal.Name
import Reenact.Proofs.Lexer

namespace Reenact.Lexer

/-- The first character of a text is not one of those with a property. -/
def Apart (p : Char → Bool) (text : List Char) : Prop := ∀ c ∈ text.head?, p c = false

@[simp] theorem apart_nil (p : Char → Bool) : Apart p [] := nofun

@[simp] theorem apart_cons {p : Char → Bool} {c : Char} {text : List Char} :
    Apart p (c :: text) ↔ p c = false := by
  simp [Apart]

theorem Apart.imp {p q : Char → Bool} {text : List Char} (h : Apart p text)
    (himp : ∀ c, q c = true → p c = true) : Apart q text := by
  intro c hc
  by_contra hq
  rw [Bool.not_eq_false] at hq
  exact absurd (himp c hq) (by simp [h c hc])

theorem next?_nil : next? [] = none := by
  rw [next?, skip?]; rfl

/-! ## Names -/

/-- A letter or underscore, then letters, digits and underscores. -/
def IsWord (text : List Char) : Prop :=
  ∃ c more, text = c :: more ∧ isWordChar c = true ∧ c.isDigit = false ∧ more.all isWordChar = true

theorem isWord_of_isName {n : String} (h : isName n = true) : IsWord n.toList := by
  unfold isName at h
  obtain ⟨h, -⟩ := Bool.and_eq_true_iff.1 h
  split at h
  · cases h
  · rename_i c more hn
    simp only [Bool.and_eq_true, Bool.not_eq_true'] at h
    exact ⟨c, more, hn, h.1.1, h.1.2, h.2⟩

theorem keywords_of_isName {n : String} (h : isName n = true) : n ∉ keywords := by
  have := (Bool.and_eq_true_iff.1 h).2
  simpa using this

theorem not_isSpace_of_isWordChar {c : Char} (h : isWordChar c = true) : isSpace c = false := by
  by_contra hspace
  simp only [Bool.not_eq_false, isSpace, isBlank, Bool.or_eq_true, beq_iff_eq] at hspace
  rcases hspace with ((((rfl | rfl) | rfl) | rfl) | rfl) | rfl <;> exact absurd h (by decide)

theorem token?_word {w rest : List Char} (hw : IsWord w) (hrest : Apart isWordChar rest) :
    token? (w ++ rest) = some (.name w, rest) := by
  obtain ⟨c, more, rfl, hc, hd, hmore⟩ := hw
  rw [List.all_eq_true] at hmore
  rw [List.cons_append, token?, if_pos (by simp [hc, hd])]
  have htake : rest.takeWhile isWordChar = [] ∧ rest.dropWhile isWordChar = rest := by
    cases rest with
    | nil => exact ⟨rfl, rfl⟩
    | cons d rest => simp [apart_cons.1 hrest]
  rw [List.takeWhile_append_of_pos hmore, List.dropWhile_append_of_pos hmore, htake.1, htake.2,
    List.append_nil]

theorem next?_word {w rest : List Char} (hw : IsWord w) (hrest : Apart isWordChar rest) :
    next? (w ++ rest) = some (.name w, rest) := by
  rw [← token?_word hw hrest]
  obtain ⟨c, more, rfl, hc, -⟩ := hw
  refine next?_of_not_space (not_isSpace_of_isWordChar hc) ?_ _
  rintro rfl
  exact absurd hc (by decide)

/-! ## Numbers -/

/-- Digits and points, with exponents that may have a minus sign. -/
def isNumeral : (marked : Bool) → List Char → Bool
  | marked, [] => !marked
  | marked, c :: more =>
    (c.isDigit || c == '.' || c == 'e' || marked && c == '-') && isNumeral (c == 'e') more

theorem isNumeral_point (marked : Bool) (more : List Char) :
    isNumeral marked ('.' :: more) = isNumeral false more := rfl

theorem isNumeral_mark (marked : Bool) (more : List Char) :
    isNumeral marked ('e' :: more) = isNumeral true more := rfl

theorem isNumeral_minus (more : List Char) :
    isNumeral true ('-' :: more) = isNumeral false more := rfl

/-- A character that would be read on with a number. -/
def joinsNumeral (c : Char) : Bool := isWordChar c || c == '.'

theorem isWordChar_of_isDigit {c : Char} (h : c.isDigit = true) : isWordChar c = true := by
  simp [isWordChar, Char.isAlphanum, h]

theorem isNumeral_append_of_digits {digits : List Char} (h : digits.all Char.isDigit = true)
    (more : List Char) {marked : Bool} (hmarked : marked = false ∨ digits ≠ []) :
    isNumeral marked (digits ++ more) = isNumeral false more := by
  induction digits generalizing marked with
  | nil =>
    rcases hmarked with rfl | hne
    · rfl
    · exact absurd rfl hne
  | cons c digits ih =>
    obtain ⟨hc, h⟩ := Bool.and_eq_true_iff.1 (List.all_cons.symm.trans h)
    have he : (c == 'e') = false := by
      rw [beq_eq_false_iff_ne]
      rintro rfl
      exact absurd hc (by decide)
    rw [List.cons_append, isNumeral, hc, he, ih h (.inl rfl)]
    rfl

theorem isNumeral_of_digits {digits : List Char} (h : digits.all Char.isDigit = true)
    {marked : Bool} (hmarked : marked = false ∨ digits ≠ []) : isNumeral marked digits = true := by
  rw [← List.append_nil digits, isNumeral_append_of_digits h [] hmarked]
  rfl

/-- What is read as a number to its end. -/
structure Numeral (text : List Char) : Prop where
  isNumeral : isNumeral false text = true
  isDigit_head : ∃ c ∈ text.head?, c.isDigit = true

theorem Numeral.append {digits more : List Char} (h : digits.all Char.isDigit = true)
    (hne : digits ≠ []) (hmore : Lexer.isNumeral false more = true) : Numeral (digits ++ more) where
  isNumeral := by rw [isNumeral_append_of_digits h more (.inl rfl), hmore]
  isDigit_head := by
    refine ⟨digits.head hne, ?_, List.all_eq_true.1 h _ (List.head_mem hne)⟩
    rw [List.head?_append, List.head?_eq_some_head hne]
    rfl

theorem Numeral.of_digits {digits : List Char} (h : digits.all Char.isDigit = true)
    (hne : digits ≠ []) : Numeral digits := by
  rw [← List.append_nil digits]
  exact .append h hne rfl

theorem ne_x_of_isNumeral {text : List Char} {marked : Bool} (h : isNumeral marked text = true) :
    ∀ c ∈ text, c ≠ 'x' ∧ c ≠ 'X' ∧ c ≠ 'E' := by
  induction text generalizing marked with
  | nil => simp
  | cons c text ih =>
    obtain ⟨hc, h⟩ := Bool.and_eq_true_iff.1 h
    intro d hd
    rcases List.mem_cons.1 hd with rfl | hd
    · refine ⟨?_, ?_, ?_⟩ <;> rintro rfl <;> simp at hc
    · exact ih h d hd

/-- Such a number is not read as a hexadecimal one. -/
theorem exponentMark_of_isNumeral {text rest : List Char} (h : isNumeral false text = true)
    (hne : text ≠ []) (hrest : Apart joinsNumeral rest) (c : Char) :
    exponentMark (text ++ rest) c = (c == 'e' || c == 'E') := by
  have hsecond : ∀ d ∈ (text ++ rest).tail.head?, d ≠ 'x' ∧ d ≠ 'X' := by
    cases text with
    | nil => exact absurd rfl hne
    | cons b text =>
      cases text with
      | nil =>
        intro d hd
        have hd := hrest d hd
        refine ⟨?_, ?_⟩ <;> rintro rfl <;> exact absurd hd (by decide)
      | cons d text =>
        rintro _ ⟨⟩
        have := ne_x_of_isNumeral h d (by simp)
        exact ⟨this.1, this.2.1⟩
  have hprefix : ∀ d, d = 'x' ∨ d = 'X' → ['0', d].isPrefixOf (text ++ rest) = false := by
    intro d hd
    rw [Bool.eq_false_iff]
    intro hp
    obtain ⟨more, hmore⟩ := List.isPrefixOf_iff_prefix.1 hp
    have := hsecond d (by rw [← hmore]; simp)
    rcases hd with rfl | rfl
    · exact this.1 rfl
    · exact this.2 rfl
  have hx : "0x".toList.isPrefixOf (text ++ rest) = false := hprefix 'x' (Or.inl rfl)
  have hX : "0X".toList.isPrefixOf (text ++ rest) = false := hprefix 'X' (Or.inr rfl)
  rw [exponentMark, hx, hX]
  rfl

theorem numeral_append {mark : Char → Bool} (hmark : ∀ c, mark c = (c == 'e' || c == 'E'))
    {rest : List Char} (hrest : Apart joinsNumeral rest) :
    ∀ {text : List Char} {marked : Bool}, isNumeral marked text = true →
      numeral mark marked (text ++ rest) = (text, rest)
  | [], marked, h => by
    have hm : marked = false := by simpa [isNumeral] using h
    subst hm
    cases rest with
    | nil => rfl
    | cons c rest =>
      have hc := apart_cons.1 hrest
      rw [joinsNumeral] at hc
      rw [List.nil_append, numeral, if_neg (by simp [hc])]
  | c :: text, marked, h => by
    obtain ⟨hc, hmore⟩ := Bool.and_eq_true_iff.1 h
    have hE : mark c = (c == 'e') := by
      rw [hmark, beq_false_of_ne (ne_x_of_isNumeral h c List.mem_cons_self).2.2, Bool.or_false]
    have hread : (isWordChar c || c == '.' || marked && (c == '+' || c == '-')) = true := by
      simp only [Bool.or_eq_true, Bool.and_eq_true, beq_iff_eq] at hc ⊢
      rcases hc with ((hc | rfl) | rfl) | ⟨hm, rfl⟩
      · exact Or.inl (Or.inl (isWordChar_of_isDigit hc))
      · exact Or.inl (Or.inr rfl)
      · exact Or.inl (Or.inl (by decide))
      · exact Or.inr ⟨hm, Or.inr rfl⟩
    rw [List.cons_append, numeral, if_pos hread, hE, numeral_append hmark hrest hmore]

/-- **A number is read to its end.** -/
theorem next?_numeral {text rest : List Char} (h : Numeral text) (hrest : Apart joinsNumeral rest) :
    next? (text ++ rest) = some (.number text, rest) := by
  obtain ⟨h, c, hc, hd⟩ := h
  cases text with
  | nil => cases hc
  | cons b text =>
    cases hc
    have hw := isWordChar_of_isDigit hd
    have hm : c ≠ '-' := by rintro rfl; exact absurd hd (by decide)
    rw [List.cons_append, next?_of_not_space (not_isSpace_of_isWordChar hw) hm, token?,
      if_neg (by simp [hd]), if_pos (by simp [hd]), ← List.cons_append,
      numeral_append (exponentMark_of_isNumeral h (List.cons_ne_nil _ _) hrest) hrest h]

/-! ## Symbols -/

/-- Right behind the symbol `s`, the character would be read as part of one token with it, or of a
    comment. -/
def joins (s : List Char) (c : Char) : Bool :=
  symbols.any ((s ++ [c]).isPrefixOf ·) || s == ['-'] && c == '-' ||
    s == ['.'] && c.isDigit || s == ['['] && (c == '[' || c == '=')

theorem find?_symbols : ∀ s ∈ symbols, symbols.find? (·.isPrefixOf s) = some s := by decide

theorem symbol?_append {s rest : List Char} (hs : s ∈ symbols) (hrest : Apart (joins s) rest) :
    symbol? (s ++ rest) = some (.symbol s, rest) := by
  have hsame : ∀ t ∈ symbols, t.isPrefixOf (s ++ rest) = t.isPrefixOf s := by
    intro t ht
    rw [Bool.eq_iff_iff, List.isPrefixOf_iff_prefix, List.isPrefixOf_iff_prefix]
    refine ⟨fun h => ?_, fun h => h.trans (List.prefix_append _ _)⟩
    rcases List.prefix_or_prefix_of_prefix h (List.prefix_append _ _) with h' | ⟨more, rfl⟩
    · exact h'
    · -- `t` goes on behind `s`, with the character that stands there
      cases more with
      | nil => rw [List.append_nil]
      | cons c more =>
        obtain ⟨behind, hb⟩ := (List.prefix_append_right_inj s).1 h
        subst hb
        have hjoin : joins s c = true := by
          have hany : symbols.any ((s ++ [c]).isPrefixOf ·) = true :=
            List.any_eq_true.2 ⟨_, ht, List.isPrefixOf_iff_prefix.2 ⟨more, by simp⟩⟩
          simp [joins, hany]
        rw [apart_cons.1 hrest] at hjoin
        cases hjoin
  have hfind : symbols.find? (·.isPrefixOf (s ++ rest)) = some s := by
    rw [← find?_symbols s hs, ← List.head?_filter, ← List.head?_filter, List.filter_congr hsame]
  rw [symbol?, hfind, Option.map_some, List.drop_left]

/-- Only a symbol can be read from a text with this beginning. -/
def beginsSymbol : List Char → Bool
  | [] => false
  | c :: more =>
    !isSpace c && !isWordChar c && c != '-' && c != '"' && c != '\'' && c != '[' &&
      (c != '.' || more.head? == some '.')

theorem beginsSymbol_of_mem : ∀ s ∈ symbols,
    s = ['-'] ∨ s = ['.'] ∨ s = ['['] ∨ beginsSymbol s = true := by decide

theorem isDigit_of_not_isWordChar {c : Char} (h : isWordChar c = false) : c.isDigit = false := by
  by_contra hd
  rw [Bool.not_eq_false] at hd
  simp [isWordChar, Char.isAlphanum, hd] at h

theorem next?_of_beginsSymbol {s : List Char} (h : beginsSymbol s = true) (rest : List Char) :
    next? (s ++ rest) = symbol? (s ++ rest) := by
  unfold beginsSymbol at h
  split at h
  · cases h
  · rename_i c more
    simp only [Bool.and_eq_true, Bool.not_eq_true', bne_iff_ne, Bool.or_eq_true] at h
    obtain ⟨⟨⟨⟨⟨⟨hs, hw⟩, hm⟩, hq⟩, ha⟩, hb⟩, hdot⟩ := h
    have hnum : (c == '.' && (more ++ rest).head?.any Char.isDigit) = false := by
      rcases hdot with hdot | hdot
      · simp [hdot]
      · obtain ⟨more, rfl⟩ : ∃ more', more = '.' :: more' := by
          cases more <;> simp_all
        simp
    rw [List.cons_append, next?_of_not_space hs hm, token?, if_neg (by simp [hw]),
      if_neg (by rw [isDigit_of_not_isWordChar hw, hnum]; decide), if_neg (by simp [hq, ha]),
      if_neg (by simp [hb])]

/-- **A symbol is read to its end.** -/
theorem next?_symbol {s rest : List Char} (hs : s ∈ symbols) (hrest : Apart (joins s) rest) :
    next? (s ++ rest) = some (.symbol s, rest) := by
  rw [← symbol?_append hs hrest]
  rcases beginsSymbol_of_mem s hs with rfl | rfl | rfl | h
  · have hskip : skip? ('-' :: rest) = some ('-' :: rest) := by
      rw [skip?, if_neg (by decide)]
      rintro more - rfl
      exact absurd (apart_cons.1 hrest) (by decide)
    rw [List.cons_append, List.nil_append, next?, hskip, Option.bind_some]
    rfl
  · rw [List.cons_append, List.nil_append, next?_of_not_space (by decide) (by decide), token?,
      if_neg (by decide), if_neg, if_neg (by decide), if_neg (by simp)]
    cases rest with
    | nil => simp
    | cons c rest =>
      have hc := apart_cons.1 hrest
      simp only [joins, Bool.or_eq_false_iff] at hc
      have : c.isDigit = false := by simpa using hc.1.2
      simp [this]
  · rw [List.cons_append, List.nil_append, next?_of_not_space (by decide) (by decide), token?,
      if_neg (by decide), if_neg (by simp), if_neg (by decide), if_neg]
    cases rest with
    | nil => simp
    | cons c rest =>
      have hc := apart_cons.1 hrest
      simp only [joins, Bool.or_eq_false_iff] at hc
      have : c ≠ '[' ∧ c ≠ '=' := by simpa using hc.2
      simp [this]
  · exact next?_of_beginsSymbol h rest

/-- No symbol is read on with a letter. -/
theorem joins_of_isWordChar {c : Char} (hc : isWordChar c = true) (hdigit : c.isDigit = false)
    (s : List Char) : joins s c = false := by
  have hsymbols : symbols.any ((s ++ [c]).isPrefixOf ·) = false := by
    have hnone : ∀ t ∈ symbols, t.all (!isWordChar ·) = true := by decide
    rw [List.any_eq_false]
    intro t ht hp
    obtain ⟨more, hmore⟩ := List.isPrefixOf_iff_prefix.1 hp
    have := List.all_eq_true.1 (hnone t ht) c (by rw [← hmore]; simp)
    rw [hc] at this
    cases this
  have hne : ∀ d, isWordChar d = false → (c == d) = false := by
    intro d hd
    rw [beq_eq_false_iff_ne]
    rintro rfl
    rw [hc] at hd
    cases hd
  simp only [joins, hsymbols, hdigit, hne '-' (by decide), hne '[' (by decide), hne '=' (by decide),
    Bool.and_false, Bool.or_false]

theorem joins_minus (c : Char) : joins ['-'] c = (c == '-') := by
  have hsymbols : symbols.any ((['-'] ++ [c]).isPrefixOf ·) = false := rfl
  rw [joins, hsymbols]
  simp

theorem joins_bracket (c : Char) : joins ['['] c = (c == '[' || c == '=') := by
  have hsymbols : symbols.any ((['['] ++ [c]).isPrefixOf ·) = false := rfl
  rw [joins, hsymbols]
  simp

/-- The symbols that are read to their end whatever stands behind them, for one character. -/
def delimiters : List Char := ['(', ')', '{', '}', ']', ';', ',']

theorem next?_delimiter {d : Char} (hd : d ∈ delimiters) (rest : List Char) :
    next? (d :: rest) = some (.symbol [d], rest) := by
  have hmem : ∀ d ∈ delimiters, [d] ∈ symbols := by simp [delimiters, symbols]
  refine next?_symbol (s := [d]) (hmem d hd) fun c _ => ?_
  simp only [delimiters, List.mem_cons, List.not_mem_nil, or_false] at hd
  rcases hd with rfl | rfl | rfl | rfl | rfl | rfl | rfl <;> rfl

end Reenact.Lexer
