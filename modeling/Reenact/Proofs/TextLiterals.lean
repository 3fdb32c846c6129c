/-
  What the literals of strings denote.

  * `shortText?_write`: quotes give the text back, whatever it is and whatever stands behind them;
  * `longBracket?_write`: long brackets of a safe level end where they were ended, and give the text
    back but for its line ends (`lineEndsRead`);
  * `textLiteral_read`: so the literal of a string is read to its end, and denotes the string unless
    it is in long brackets and has a carriage return.
-/
import Mathlib.Data.List.Infix
import Mathlib.Data.List.TakeWhile
import Reenact.Literal.Text
import Reenact.Proofs.Lexer

namespace Reenact

open Lexer

/-! ## Quotes -/

namespace Quoted

theorem length_threeDigits {n : Nat} (h : n < 1000) : (threeDigits n).length = 3 := by
  have hlen : (digitsOf n).length ≤ 3 := (Nat.length_toDigits_le_iff (by decide) (by decide)).2 h
  simp only [threeDigits, List.length_append, List.length_replicate]
  omega

theorem isDigit_of_mem_threeDigits {n : Nat} {c : Char} (h : c ∈ threeDigits n) :
    c.isDigit = true := by
  rcases List.mem_append.1 h with h | h
  · rw [(List.mem_replicate.1 h).2]; decide
  · exact Nat.isDigit_of_mem_toDigits (by decide) (by decide) h

theorem ofDigitChars_threeDigits (n : Nat) : Nat.ofDigitChars 10 (threeDigits n) 0 = n := by
  rw [threeDigits, Nat.ofDigitChars_append, Nat.ofDigitChars_replicate_zero, Nat.mul_zero]
  exact Nat.ofDigitChars_ten_toDigits

theorem decimal?_threeDigits {c : Char} (h : c.toNat ≤ 0x7f) (rest : List Char) :
    decimal? (threeDigits c.toNat ++ rest) = some (c, rest) := by
  have hlen := length_threeDigits (Nat.lt_of_le_of_lt h (by decide))
  have hdigits : ((threeDigits c.toNat ++ rest).take 3).takeWhile Char.isDigit =
      threeDigits c.toNat := by
    rw [← hlen, List.take_left]
    exact List.takeWhile_eq_self_iff.2 fun _ => isDigit_of_mem_threeDigits
  have hne : threeDigits c.toNat ≠ [] := by
    rintro he
    simp [he] at hlen
  simp only [decimal?, hdigits, ofDigitChars_threeDigits, List.drop_left]
  rw [if_neg, Char.ofNat_toNat]
  simpa [hne] using h

theorem escape?_threeDigits {c : Char} (h : c.toNat ≤ 0x7f) (rest : List Char) :
    escape? (threeDigits c.toNat ++ rest) = some (c, rest) := by
  have hd := decimal?_threeDigits h rest
  cases ht : threeDigits c.toNat with
  | nil =>
    have hlen := length_threeDigits (Nat.lt_of_le_of_lt h (by decide))
    simp [ht] at hlen
  | cons d digits =>
    have hdigit : d.isDigit = true := isDigit_of_mem_threeDigits (n := c.toNat) (by simp [ht])
    rw [ht, List.cons_append] at hd
    rw [List.cons_append, escape?, if_pos hdigit, hd]

theorem toNat_le_of_isControl {c : Char} (h : isControl c = true) : c.toNat ≤ 0x7f := by
  simp only [isControl, Bool.or_eq_true, decide_eq_true_eq, beq_iff_eq] at h
  omega

theorem shortText?_escape {quote : Char} (hq : quote = '"' ∨ quote = '\'') (c : Char)
    (rest : List Char) : shortText? quote (escape quote c ++ rest) =
      (shortText? quote rest).map fun (value, behind) => (c :: value, behind) := by
  have hback : ∀ {text behind}, escape? text = some (c, behind) →
      shortText? quote ('\\' :: text) =
        (shortText? quote behind).map fun (value, behind) => (c :: value, behind) := by
    intro text behind h
    have hne : ¬ '\\' = quote := by rcases hq with rfl | rfl <;> decide
    rw [shortText?, if_neg hne, if_pos rfl]
    split
    · rename_i he
      rw [h] at he
      cases he
      rfl
    · rename_i he
      rw [h] at he
      cases he
  unfold escape
  split
  · rename_i h; subst h; exact hback rfl
  split
  · rename_i h; subst h; exact hback rfl
  split
  · rename_i h; subst h; exact hback rfl
  split
  · rename_i h; subst h; exact hback rfl
  split
  · rename_i h; subst h; exact hback (by rcases hq with rfl | rfl <;> rfl)
  split
  · rename_i h; exact hback (escape?_threeDigits (toNat_le_of_isControl h) rest)
  · rename_i hslash _ hreturn hfeed hquote _
    have hline : isLineEnd c = false := by simp [isLineEnd, hreturn, hfeed]
    rw [List.singleton_append, shortText?, if_neg hquote, if_neg hslash, if_neg (by simp [hline])]

/-- **Quotes give the text back.** -/
theorem shortText?_write {quote : Char} (hq : quote = '"' ∨ quote = '\'') (rest : List Char) :
    ∀ text : List Char, shortText? quote (text.flatMap (escape quote) ++ quote :: rest) =
      some (text, rest)
  | [] => by rw [List.flatMap_nil, List.nil_append, shortText?, if_pos rfl]
  | c :: text => by
    rw [List.flatMap_cons, List.append_assoc, shortText?_escape hq, shortText?_write hq rest text]
    rfl

theorem token?_write {quote : Char} (hq : quote = '"' ∨ quote = '\'') (text rest : List Char) :
    token? (write quote text ++ rest) = some (.text text, rest) := by
  have hshort : token? (write quote text ++ rest) =
      (shortText? quote (text.flatMap (escape quote) ++ quote :: rest)).map
        fun (value, behind) => (.text value, behind) := by
    have hw : write quote text ++ rest =
        quote :: (text.flatMap (escape quote) ++ quote :: rest) := by
      simp [write]
    rw [hw]
    rcases hq with rfl | rfl <;> rfl
  rw [hshort, shortText?_write hq]; rfl

end Quoted

/-! ## Long brackets -/

namespace LongBracket

theorem occursIn_cons {text s : List Char} (c : Char) (h : occursIn text s = true) :
    occursIn text (c :: s) = true := by
  rw [occursIn, h, Bool.or_true]

theorem occursIn_of_begins {text s : List Char} (h : text <+: s) : occursIn text s = true := by
  cases s with
  | nil => simpa [occursIn] using h
  | cons c s => rw [occursIn, List.isPrefixOf_iff_prefix.2 h, Bool.true_or]

theorem isSafe_iff {text : List Char} {level : Nat} : isSafe text level = true ↔
    occursIn (closing level) text = false ∧ ¬ closingStem level <:+ text := by
  rw [isSafe, Bool.and_eq_true, Bool.not_eq_true', Bool.not_eq_true', ← List.isSuffixOf_iff_suffix,
    Bool.not_eq_true]

theorem isSafe_of_cons {c : Char} {text : List Char} {level : Nat}
    (h : isSafe (c :: text) level = true) : isSafe text level = true := by
  obtain ⟨ho, hs⟩ := isSafe_iff.1 h
  refine isSafe_iff.2 ⟨Bool.eq_false_iff.2 fun h => ?_, fun h => hs (h.trans (List.suffix_cons _ _))⟩
  rw [occursIn_cons c h] at ho
  cases ho

/-- In a text with a safe level and its closing bracket, no other closing bracket of that level
    begins before the end of the text: it would be in the text, or else its characters in the text
    were all of it but the last. -/
theorem closing_not_begins {text : List Char} {level : Nat} (h : isSafe text level = true)
    (hne : text ≠ []) (rest : List Char) : ¬ closing level <+: text ++ (closing level ++ rest) := by
  obtain ⟨ho, hs⟩ := isSafe_iff.1 h
  have hnot : ¬ closing level <+: text := fun hp => by
    rw [occursIn_of_begins hp] at ho
    cases ho
  intro hp
  rcases List.prefix_or_prefix_of_prefix hp (List.prefix_append _ _) with hp' | hp'
  · exact hnot hp'
  rcases List.prefix_concat_iff.1 hp' with he | ⟨more, hmore⟩
  · exact hnot (he ▸ List.prefix_refl _)
  -- `more` is what the closing bracket has beyond the text, less its last character
  cases more with
  | nil => exact hs (by rw [← hmore, List.append_nil])
  | cons d more =>
    -- so `d` opens a closing bracket, but only the first character of one is no equals sign
    have he : text ++ (d :: (more ++ [']'])) = closing level := by
      rw [closing, ← hmore, List.append_assoc, List.cons_append]
    have hd : d :: (more ++ [']']) <+: ']' :: (List.replicate level '=' ++ [']'] ++ rest) := by
      refine (List.prefix_append_right_inj text).1 ?_
      rw [he]
      exact hp
    have hd := (List.cons_prefix_cons.1 hd).1
    cases text with
    | nil => exact hne rfl
    | cons c text =>
      have hmem : d ∈ List.replicate level '=' := by
        have htail := (List.cons.inj hmore).2
        rw [← htail]
        exact List.mem_append_right _ List.mem_cons_self
      rw [(List.mem_replicate.1 hmem).2] at hd
      exact absurd hd (by decide)

/-- **A long bracket of a safe level ends where it was ended.** -/
theorem untilClosing?_of_isSafe {level : Nat} (rest : List Char) : ∀ {text : List Char},
    isSafe text level = true → untilClosing? level (text ++ (closing level ++ rest)) =
      some (text, rest)
  | [], _ => untilClosing?_closing level rest
  | c :: text, h => by
    refine untilClosing?_cons ?_ (untilClosing?_of_isSafe rest (isSafe_of_cons h))
    have hp := closing_not_begins h (List.cons_ne_nil _ _) rest
    exact Bool.eq_false_iff.2 fun hb => hp (List.isPrefixOf_iff_prefix.1 hb)

/-- What a text is read as when it is between long brackets. -/
def denoted (text : List Char) : List Char :=
  unifyLineEnds (if text.head? = some '\r' then dropLineEnd text else text)

/-- The line feed behind the opening bracket is the one that is dropped. -/
theorem dropLineEnd_lead (text : List Char) :
    dropLineEnd ((if text.head? = some '\n' then ['\n'] else []) ++ text) =
      if text.head? = some '\r' then dropLineEnd text else text := by
  cases text with
  | nil => rfl
  | cons c text =>
    simp only [List.head?_cons, Option.some.injEq]
    by_cases hn : c = '\n'
    · subst hn; rfl
    · rw [if_neg hn, List.nil_append]
      by_cases hr : c = '\r'
      · rw [if_pos hr]
      · rw [if_neg hr, dropLineEnd_of_head]
        rintro d ⟨⟩
        simp [isLineEnd, hn, hr]

theorem denoted_eq_self_iff {text : List Char} : denoted text = text ↔ '\r' ∉ text := by
  constructor
  · intro h hmem
    rw [← h] at hmem
    exact not_mem_unifyLineEnds _ hmem
  · intro h
    have hhead : ¬ text.head? = some '\r' := fun he => h (List.mem_of_head? he)
    rw [denoted, if_neg hhead, unifyLineEnds_of_not_mem h]

theorem write_eq (text : List Char) : write text =
    '[' :: (List.replicate (level text) '=' ++ '[' ::
      ((if text.head? = some '\n' then ['\n'] else []) ++ text ++ closing (level text))) := by
  simp [write, opening]

theorem longBracket?_write (text rest : List Char) :
    longBracket? (List.replicate (level text) '=' ++ '[' ::
      ((if text.head? = some '\n' then ['\n'] else []) ++ text ++ closing (level text)) ++ rest) =
      some (denoted text, rest) := by
  have hsafe := untilClosing?_of_isSafe rest (isSafe_level text)
  have huntil : untilClosing? (level text)
      ((if text.head? = some '\n' then ['\n'] else []) ++ text ++ closing (level text) ++ rest) =
        some ((if text.head? = some '\n' then ['\n'] else []) ++ text, rest) := by
    rw [List.append_assoc, List.append_assoc]
    split
    · exact untilClosing?_cons rfl hsafe
    · exact hsafe
  rw [longBracket?, List.append_assoc, List.cons_append, openingLevel?_replicate, Nat.zero_add]
  simp only [Option.bind_eq_bind, Option.bind_some, huntil]
  rw [dropLineEnd_lead]; rfl

theorem token?_write (text rest : List Char) :
    token? (write text ++ rest) = some (.text (denoted text), rest) := by
  have hlong : token? (write text ++ rest) =
      (longBracket? (List.replicate (level text) '=' ++ '[' ::
        ((if text.head? = some '\n' then ['\n'] else []) ++ text ++ closing (level text)) ++
          rest)).map fun (value, behind) => (.text value, behind) := by
    rw [write_eq, List.cons_append]
    cases level text <;> rfl
  rw [hlong, longBracket?_write]; rfl

end LongBracket

/-! ## Literals of strings -/

namespace TextForm

theorem of_eq_quotes {text : List Char} {quote : Char} (h : of text = quotes quote) :
    quote = '"' ∨ quote = '\'' := by
  unfold of at h
  split at h
  · cases h
  split at h
  · cases h; exact Or.inl rfl
  split at h <;> cases h
  exact Or.inr rfl

theorem of_eq_longBrackets_iff {text : List Char} :
    of text = longBrackets ↔ '\n' ∈ text ∨ '"' ∈ text ∧ '\'' ∈ text := by
  by_cases hn : '\n' ∈ text <;> by_cases hd : '"' ∈ text <;> by_cases hs : '\'' ∈ text <;>
    simp [of, hn, hd, hs]

/-- What a text is read as when it is written in a form. -/
def denoted : TextForm → List Char → List Char
  | quotes _, text => text
  | longBrackets, text => LongBracket.denoted text

end TextForm

theorem token?_textLiteral (v : String) (rest : List Char) :
    token? ((textLiteral v).toList ++ rest) =
      some (.text ((TextForm.of v.toList).denoted v.toList), rest) := by
  rw [textLiteral, String.toList_ofList]
  cases h : TextForm.of v.toList with
  | quotes quote => exact Quoted.token?_write (TextForm.of_eq_quotes h) _ _
  | longBrackets => exact LongBracket.token?_write _ _

/-- **The literal of a string is read to its end**, whatever stands behind it, and denotes the
    string, but for the line ends in long brackets: the string comes back exactly if it has no
    carriage return there. -/
theorem textLiteral_read (v : String) (rest : List Char) :
    ∃ w, token? ((textLiteral v).toList ++ rest) = some (.text w, rest) ∧
      (w = v.toList ↔
        ¬ ('\r' ∈ v.toList ∧ ('\n' ∈ v.toList ∨ '"' ∈ v.toList ∧ '\'' ∈ v.toList))) := by
  refine ⟨_, token?_textLiteral v rest, ?_⟩
  rw [← TextForm.of_eq_longBrackets_iff]
  cases h : TextForm.of v.toList with
  | quotes quote => simp [TextForm.denoted]
  | longBrackets => simpa [TextForm.denoted] using LongBracket.denoted_eq_self_iff

/-- A carriage return in long brackets is not read back. -/
theorem textLiteral_carriage_return :
    token? (textLiteral "a\r\nb").toList = some (.text "a\nb".toList, []) ∧
      "a\nb".toList ≠ "a\r\nb".toList := by
  refine ⟨?_, by decide⟩
  rw [← List.append_nil (textLiteral "a\r\nb").toList, token?_textLiteral]
  decide

end Reenact
