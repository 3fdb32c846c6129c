/-
  Texts of JSON values.

  A value can be written in many ways: with blanks between its parts, with a character of a string
  as itself, as a letter behind a backslash or as code units, and with a number as any numeral that
  denotes it.

  * `Written`: a text is one of those that a value can be written as;
  * `Lexer.reads_written`: what such a text is as tokens; only the last word of a value has still to
    be ended by what follows it;
  * `Reader.run_tokens`: what these tokens are as a value;
  * `ofText?_of_written`: so a value is read from every text that it is written as.
-/
import Reenact.Json.Reader
import Reenact.Proofs.JsonNumerals

namespace Reenact

namespace Json

/-! ## Strings -/

/-- The digits of hexadecimal numerals, with their values. -/
def hexDigits : List (Char × Nat) :=
  "0123456789abcdef".toList.zipIdx ++ "ABCDEF".toList.zipIdx 10

/-- The letters that stand for a character behind a backslash. -/
def escapes : List (Char × Char) :=
  [('"', '"'), ('\\', '\\'), ('/', '/'), ('b', '\x08'), ('f', '\x0c'), ('n', '\n'), ('r', '\r'),
    ('t', '\t')]

/-- A code unit as four hexadecimal digits. -/
inductive UnitWritten : Nat → List Char → Prop where
  | digits {a b c d : Char × Nat} (ha : a ∈ hexDigits) (hb : b ∈ hexDigits) (hc : c ∈ hexDigits)
    (hd : d ∈ hexDigits) :
    UnitWritten (16 * (16 * (16 * a.2 + b.2) + c.2) + d.2) [a.1, b.1, c.1, d.1]

/-- The ways to write a character of a string. -/
inductive CharWritten (c : Char) : List Char → Prop where
  | plain (hquote : c ≠ '"') (hbackslash : c ≠ '\\') (hcontrol : 0x20 ≤ c.toNat) : CharWritten c [c]
  | escape {letter : Char} (h : (letter, c) ∈ escapes) : CharWritten c ['\\', letter]
  | unit {digits : List Char} (h : UnitWritten c.toNat digits) :
    CharWritten c ('\\' :: 'u' :: digits)
  /-- A leading and a trailing surrogate -/
  | pair {high low : List Char} (hlarge : 0x10000 ≤ c.toNat)
    (hhigh : UnitWritten (0xD800 + (c.toNat - 0x10000) / 0x400) high)
    (hlow : UnitWritten (0xDC00 + (c.toNat - 0x10000) % 0x400) low) :
    CharWritten c (('\\' :: 'u' :: high) ++ ('\\' :: 'u' :: low))

/-- The ways to write what is between the quotes of a string. -/
inductive TextWritten : List Char → List Char → Prop where
  | nil : TextWritten [] []
  | cons {c : Char} {s part body : List Char} (hc : CharWritten c part) (hs : TextWritten s body) :
    TextWritten (c :: s) (part ++ body)

/-! ## Values -/

/-- Spaces, tabs and line ends. -/
def IsBlank (text : List Char) : Prop := ∀ c ∈ text, c ∈ [' ', '\t', '\n', '\r']

/-- A value, or what is between the brackets of one. -/
inductive Piece where
  | value (j : Json)
  | items (items : List Json)
  | member (name : String) (j : Json)
  | members (members : List (String × Json))

/-- **The texts that a value can be written as.** -/
inductive Written : Piece → List Char → Prop where
  | null : Written (.value .null) "null".toList
  | boolean (b : Bool) : Written (.value (.boolean b)) (if b then "true" else "false").toList
  | number {n : Numeral} {number : Number} (h : n.Denotes number) :
    Written (.value (.number number)) n.text
  | text {s : String} {body : List Char} (h : TextWritten s.toList body) :
    Written (.value (.text s)) ('"' :: body ++ ['"'])
  | array {items : List Json} {t : List Char} (h : Written (.items items) t) :
    Written (.value (.array items)) ('[' :: t ++ [']'])
  | object {members : List (String × Json)} {t : List Char} (h : Written (.members members) t) :
    Written (.value (.object members)) ('{' :: t ++ ['}'])
  | noItems : Written (.items []) []
  | lastItem {j : Json} {t : List Char} (h : Written (.value j) t) : Written (.items [j]) t
  | item {j k : Json} {rest : List Json} {t more : List Char} (h : Written (.value j) t)
    (hrest : Written (.items (k :: rest)) more) :
    Written (.items (j :: k :: rest)) (t ++ ',' :: more)
  | member {name : String} {body blank : List Char} {j : Json} {t : List Char}
    (hname : TextWritten name.toList body) (hblank : IsBlank blank) (h : Written (.value j) t) :
    Written (.member name j) ('"' :: body ++ ['"'] ++ blank ++ ':' :: t)
  | noMembers : Written (.members []) []
  | lastMember {name : String} {j : Json} {t : List Char} (h : Written (.member name j) t) :
    Written (.members [(name, j)]) t
  | moreMembers {name : String} {j : Json} {m : String × Json} {rest : List (String × Json)}
    {t more : List Char} (h : Written (.member name j) t)
    (hrest : Written (.members (m :: rest)) more) :
    Written (.members ((name, j) :: m :: rest)) (t ++ ',' :: more)
  /-- Blanks around anything -/
  | blanks {p : Piece} {before t after : List Char} (hbefore : IsBlank before)
    (h : Written p t) (hafter : IsBlank after) : Written p (before ++ t ++ after)

/-- A character that may stand for itself in a string. -/
def isPlain (c : Char) : Bool := c != '"' && c != '\\' && 0x20 ≤ c.toNat

theorem TextWritten.plain {s : List Char} (h : s.all isPlain = true) : TextWritten s s := by
  induction s with
  | nil => exact .nil
  | cons c s ih =>
    rw [List.all_cons, Bool.and_eq_true] at h
    obtain ⟨hc, hs⟩ := h
    simp only [isPlain, Bool.and_eq_true, bne_iff_ne, ne_eq, decide_eq_true_eq] at hc
    exact .cons (.plain hc.1.1 hc.1.2 hc.2) (ih hs)

theorem Written.plainText (s : String) (h : s.toList.all isPlain = true) :
    Written (.value (.text s)) ('"' :: s.toList ++ ['"']) :=
  .text (.plain h)

theorem Written.plainMember (name : String) (hname : name.toList.all isPlain = true) {j : Json}
    {t : List Char} (h : Written (.value j) t) :
    Written (.member name j) ('"' :: name.toList ++ '"' :: ':' :: t) := by
  have hblank : IsBlank [] := fun _ h => nomatch h
  simpa using Written.member (.plain hname) hblank h

/-! ## Tokens -/

mutual

/-- The tokens of a value. -/
def tokens : Json → List Token
  | null => [.null]
  | boolean b => [.boolean b]
  | number n => [.number n]
  | text s => [.text s]
  | array items => .openArray :: itemsTokens items ++ [.closeArray]
  | object members => .openObject :: membersTokens members ++ [.closeObject]

/-- The tokens of items, with commas between. -/
def itemsTokens : List Json → List Token
  | [] => []
  | [j] => j.tokens
  | j :: k :: rest => j.tokens ++ .comma :: itemsTokens (k :: rest)

/-- The tokens of members, with commas between. -/
def membersTokens : List (String × Json) → List Token
  | [] => []
  | [(name, j)] => .text name :: .colon :: j.tokens
  | (name, j) :: m :: rest =>
    .text name :: .colon :: j.tokens ++ .comma :: membersTokens (m :: rest)

end

def Piece.tokens : Piece → List Token
  | value j => j.tokens
  | items js => itemsTokens js
  | member name j => .text name :: .colon :: j.tokens
  | members ms => membersTokens ms

/-! ## From characters to tokens -/

namespace Lexer

theorem run_nil (l : Lexer) : run l [] = some l := rfl

theorem run_cons (l : Lexer) (c : Char) (text : List Char) :
    run l (c :: text) = (step l c).bind (run · text) := rfl

theorem run_append (l : Lexer) (s t : List Char) : run l (s ++ t) = (run l s).bind (run · t) :=
  List.foldlM_append

theorem hexDigit?_eq {p : Char × Nat} (h : p ∈ hexDigits) : hexDigit? p.1 = some p.2 := by
  revert p
  decide

theorem escaped?_eq {p : Char × Char} (h : p ∈ escapes) :
    escaped? p.1 = some p.2 ∧ p.1 ≠ 'u' := by
  revert p
  decide

variable {read : List Char} {tokens : List Token}

theorem run_unit {leading : Option Nat} {unit : Nat} {digits : List Char}
    (h : UnitWritten unit digits) :
    run ⟨.codeUnit read leading 4 0, tokens⟩ digits =
      (afterUnit? read leading unit).map fun mode => ⟨mode, tokens⟩ := by
  obtain ⟨ha, hb, hc, hd⟩ := h
  simp [run_cons, run_nil, step, hexDigit?_eq ha, hexDigit?_eq hb, hexDigit?_eq hc, hexDigit?_eq hd]

/-- A character of a string is read, however it is written. -/
theorem run_char {c : Char} {part : List Char} (h : CharWritten c part) :
    run ⟨.string read, tokens⟩ part = some ⟨.string (c :: read), tokens⟩ := by
  have hvalid : c.toNat < 0xD800 ∨ 0xDFFF < c.toNat ∧ c.toNat < 0x110000 := c.valid
  cases h with
  | plain hquote hbackslash hcontrol =>
    simp [run_cons, run_nil, step, hquote, hbackslash, Nat.not_lt.2 hcontrol]
  | escape h =>
    obtain ⟨hletter, hne⟩ := escaped?_eq h
    simp [run_cons, run_nil, step, hletter, hne]
  | unit h =>
    have hleading : isLeading c.toNat = false := by
      simp only [isLeading, Bool.and_eq_false_iff, decide_eq_false_iff_not]
      omega
    have htrailing : isTrailing c.toNat = false := by
      simp only [isTrailing, Bool.and_eq_false_iff, decide_eq_false_iff_not]
      omega
    simp [run_cons, step, run_unit h, afterUnit?, hleading, htrailing]
  | pair hlarge hhigh hlow =>
    generalize hh : 0xD800 + (c.toNat - 0x10000) / 0x400 = high at hhigh
    generalize hl : 0xDC00 + (c.toNat - 0x10000) % 0x400 = low at hlow
    have hleading : isLeading high = true := by
      simp only [isLeading, Bool.and_eq_true, decide_eq_true_eq]
      omega
    have htrailing : isTrailing low = true := by
      simp only [isTrailing, Bool.and_eq_true, decide_eq_true_eq]
      omega
    have hvalue : 0x10000 + (high - 0xD800) * 0x400 + (low - 0xDC00) = c.toNat := by omega
    rw [run_append]
    simp [run_cons, step, run_unit hhigh, run_unit hlow, afterUnit?, hleading, htrailing, hvalue]

theorem run_text {s body : List Char} (h : TextWritten s body) :
    run ⟨.string read, tokens⟩ body = some ⟨.string (s.reverse ++ read), tokens⟩ := by
  induction h generalizing read with
  | nil => rfl
  | cons hc _ ih => rw [run_append, run_char hc, Option.bind_some, ih]; simp

/-- Between tokens, but for a word that has still to be ended. -/
inductive At : List Token → Lexer → Prop where
  | outside {tokens : List Token} : At tokens ⟨.outside, tokens⟩
  | word {tokens : List Token} {read : List Char} {word : Token}
    (h : Token.word? read.reverse = some word) : At (word :: tokens) ⟨.word read, tokens⟩

theorem At.step_end {l : Lexer} {c : Char} (h : At tokens l) (hc : endsWord c = true) :
    step l c = some (outside? tokens c) := by
  cases h with
  | outside => rfl
  | word h => simp [step, hc, h]

theorem At.finish?_eq {l : Lexer} (h : At tokens l) : finish? l = some tokens.reverse := by
  cases h with
  | outside => rfl
  | word h => simp [finish?, h]

theorem isSpace_of_mem {c : Char} (h : c ∈ [' ', '\t', '\n', '\r']) : isSpace c = true := by
  simp only [List.mem_cons, List.not_mem_nil, or_false] at h
  rcases h with rfl | rfl | rfl | rfl <;> rfl

theorem run_blank {blank : List Char} (hblank : IsBlank blank) :
    run ⟨.outside, tokens⟩ blank = some ⟨.outside, tokens⟩ := by
  induction blank with
  | nil => rfl
  | cons c blank ih =>
    have hc := isSpace_of_mem (hblank c List.mem_cons_self)
    rw [run_cons, step, outside?, if_pos hc, Option.bind_some]
    exact ih fun c hc => hblank c (List.mem_cons_of_mem _ hc)

/-- Blanks end a word, and are passed over. -/
theorem At.run_blank {l : Lexer} {blank : List Char} (h : At tokens l) (hblank : IsBlank blank) :
    ∃ l', run l blank = some l' ∧ At tokens l' := by
  cases blank with
  | nil => exact ⟨l, rfl, h⟩
  | cons c blank =>
    have hc := isSpace_of_mem (hblank c List.mem_cons_self)
    refine ⟨⟨.outside, tokens⟩, ?_, .outside⟩
    rw [run_cons, h.step_end (by simp [endsWord, hc]), outside?, if_pos hc, Option.bind_some]
    exact Lexer.run_blank fun c hc => hblank c (List.mem_cons_of_mem _ hc)

theorem outside?_mark {c : Char} {mark : Token} (h : Token.mark? c = some mark) :
    outside? tokens c = ⟨.outside, mark :: tokens⟩ := by
  have hspace : isSpace c = false ∧ c ≠ '"' := by
    unfold Token.mark? at h
    split at h
    all_goals first | decide | contradiction
  rw [outside?, hspace.1, if_neg Bool.false_ne_true, if_neg hspace.2, h]

theorem outside?_word {c : Char} (h : endsWord c = false) :
    outside? tokens c = ⟨.word [c], tokens⟩ := by
  simp only [endsWord, Bool.or_eq_false_iff, beq_eq_false_iff_ne, Option.isSome_eq_false_iff,
    Option.isNone_iff_eq_none] at h
  rw [outside?, h.1.1, if_neg Bool.false_ne_true, if_neg h.1.2, h.2]

theorem run_word {text : List Char} (hends : ∀ c ∈ text, endsWord c = false) :
    run ⟨.word read, tokens⟩ text = some ⟨.word (text.reverse ++ read), tokens⟩ := by
  induction text generalizing read with
  | nil => rfl
  | cons c text ih =>
    have hstep : step ⟨.word read, tokens⟩ c = some ⟨.word (c :: read), tokens⟩ := by
      simp [step, hends c List.mem_cons_self]
    rw [run_cons, hstep, Option.bind_some, ih fun c hc => hends c (List.mem_cons_of_mem _ hc)]
    simp

/-- A text has the given tokens, wherever it begins between tokens. -/
def Reads (text : List Char) (ts : List Token) : Prop :=
  ∀ tokens, ∃ l, run ⟨.outside, tokens⟩ text = some l ∧ At (ts.reverse ++ tokens) l

theorem reads_nil : Reads [] [] := fun _ => ⟨_, rfl, .outside⟩

/-- A word is read up to its end. -/
theorem reads_word {text : List Char} {word : Token} (hword : Token.word? text = some word)
    (hne : text ≠ []) (hends : text.all (!endsWord ·) = true) : Reads text [word] := by
  intro tokens
  have hends : ∀ c ∈ text, endsWord c = false := by simpa using hends
  obtain ⟨c, rest, rfl⟩ := List.exists_cons_of_ne_nil hne
  refine ⟨⟨.word (c :: rest).reverse, tokens⟩, ?_, .word (by rwa [List.reverse_reverse])⟩
  rw [run_cons, step, outside?_word (hends c List.mem_cons_self), Option.bind_some,
    run_word fun c hc => hends c (List.mem_cons_of_mem _ hc)]
  simp

theorem reads_text {s : String} {body : List Char} (h : TextWritten s.toList body) :
    Reads ('"' :: body ++ ['"']) [.text s] := by
  intro tokens
  refine ⟨⟨.outside, .text s :: tokens⟩, ?_, .outside⟩
  rw [List.cons_append, run_cons]
  simp [step, outside?, isSpace, run_append, run_text h, run_cons, run_nil]

namespace Reads

variable {s t : List Char} {ss ts : List Token}

/-- A mark between two texts. -/
theorem mark (hs : Reads s ss) {c : Char} {mark : Token} (hmark : Token.mark? c = some mark)
    (ht : Reads t ts) : Reads (s ++ c :: t) (ss ++ mark :: ts) := by
  intro tokens
  obtain ⟨l, hl, hat⟩ := hs tokens
  have hends : endsWord c = true := by simp [endsWord, hmark]
  obtain ⟨l', hl', hat'⟩ := ht (mark :: (ss.reverse ++ tokens))
  refine ⟨l', ?_, by simpa using hat'⟩
  rw [run_append, hl, Option.bind_some, run_cons, hat.step_end hends, outside?_mark hmark,
    Option.bind_some, hl']

theorem blanks {before after : List Char} (hbefore : IsBlank before) (h : Reads t ts)
    (hafter : IsBlank after) : Reads (before ++ t ++ after) ts := by
  intro tokens
  obtain ⟨l, hl, hat⟩ := h tokens
  obtain ⟨l', hl', hat'⟩ := hat.run_blank hafter
  refine ⟨l', ?_, hat'⟩
  rw [run_append, run_append, run_blank hbefore, Option.bind_some, hl, Option.bind_some, hl']

end Reads

/-- **The tokens of a text** are those of what it is written for. -/
theorem reads_written {p : Piece} {t : List Char} (h : Written p t) : Reads t p.tokens := by
  induction h with
  | null => exact reads_word rfl (by decide) (by decide)
  | boolean b => cases b <;> exact reads_word rfl (by decide) (by decide)
  | number h =>
    refine reads_word (Numeral.word?_text h) (Numeral.text_ne_nil _) ?_
    simpa using fun _ => Numeral.endsWord_text
  | text h => exact reads_text h
  | array _ ih => exact ((reads_nil.mark rfl ih).mark rfl reads_nil)
  | object _ ih => exact ((reads_nil.mark rfl ih).mark rfl reads_nil)
  | noItems => exact reads_nil
  | lastItem _ ih => exact ih
  | item _ _ ih ihrest => exact ih.mark rfl ihrest
  | member hname hblank _ ih =>
    have hnil : IsBlank [] := fun _ h => nomatch h
    exact ((reads_text hname).blanks hnil hblank).mark rfl ih
  | noMembers => exact reads_nil
  | lastMember _ ih => exact ih
  | moreMembers _ _ ih ihrest => exact ih.mark rfl ihrest
  | blanks hbefore _ hafter ih => exact ih.blanks hbefore hafter

end Lexer

/-! ## From tokens to values -/

namespace Reader

variable {limit : Nat} {stack : List Open} {more : List Token}

theorem run_cons (r : Reader) (t : Token) (tokens : List Token) :
    run limit r (t :: tokens) = (step limit r t).bind (run limit · tokens) := rfl

/-- No value begins with the end of an array. -/
theorem tokens_eq_cons (j : Json) : ∃ t ts, j.tokens = t :: ts ∧ t ≠ .closeArray := by
  cases j <;> exact ⟨_, _, rfl, by simp⟩

theorem itemsTokens_eq_cons (j : Json) (rest : List Json) :
    ∃ t ts, itemsTokens (j :: rest) = t :: ts ∧ t ≠ .closeArray := by
  obtain ⟨t, ts, ht, hne⟩ := tokens_eq_cons j
  cases rest with
  | nil => exact ⟨t, ts, by rw [itemsTokens, ht], hne⟩
  | cons k rest => exact ⟨t, _, by rw [itemsTokens, ht, List.cons_append], hne⟩

/-- The first item of an array is read as any other. -/
theorem run_firstItem (j : Json) (rest : List Json) :
    run limit ⟨stack, .firstItem⟩ (itemsTokens (j :: rest) ++ more) =
      run limit ⟨.array [] :: stack, .value⟩ (itemsTokens (j :: rest) ++ more) := by
  obtain ⟨t, ts, ht, hne⟩ := itemsTokens_eq_cons j rest
  rw [ht, List.cons_append, run_cons, run_cons]
  congr 1
  cases t <;> first | rfl | exact absurd rfl hne

/-- The name of a member leads to its value. -/
theorem run_member (former : List (String × Json)) (name : String) :
    run limit ⟨stack, .name former⟩ (.text name :: .colon :: more) =
      run limit ⟨.object former name :: stack, .value⟩ more := rfl

/-- The first member of an object is read as any other. -/
theorem run_firstName (m : String × Json) (rest : List (String × Json)) :
    run limit ⟨stack, .firstName⟩ (membersTokens (m :: rest) ++ more) =
      run limit ⟨stack, .name []⟩ (membersTokens (m :: rest) ++ more) := by
  cases rest <;> rfl

theorem run_openArray (h : stack.length < limit) :
    run limit ⟨stack, .value⟩ (.openArray :: more) = run limit ⟨stack, .firstItem⟩ more := by
  simp [run_cons, step, valueStep, h]

theorem run_openObject (h : stack.length < limit) :
    run limit ⟨stack, .value⟩ (.openObject :: more) = run limit ⟨stack, .firstName⟩ more := by
  simp [run_cons, step, valueStep, h]

mutual

/-- **The tokens of a value are read as the value**, if there are not too many arrays and objects
    around any part of it. -/
theorem run_tokens {stack : List Open} {more : List Token} :
    ∀ j : Json, stack.length + j.depth ≤ limit →
      run limit ⟨stack, .value⟩ (j.tokens ++ more) = run limit ⟨stack, .rest j⟩ more
  | .null, _ => rfl
  | .boolean _, _ => rfl
  | .number _, _ => rfl
  | .text _, _ => rfl
  | .array items, h => by
    rw [depth] at h
    rw [tokens, List.append_assoc, List.cons_append, run_openArray (by omega)]
    cases items with
    | nil => rfl
    | cons j rest =>
      rw [run_firstItem]
      exact run_itemsTokens (j :: rest) (List.cons_ne_nil _ _) (by omega)
  | .object members, h => by
    rw [depth] at h
    rw [tokens, List.append_assoc, List.cons_append, run_openObject (by omega)]
    cases members with
    | nil => rfl
    | cons m rest =>
      rw [run_firstName]
      exact run_membersTokens (m :: rest) (List.cons_ne_nil _ _) (by omega)

theorem run_itemsTokens {stack : List Open} {more : List Token} {former : List Json} :
    ∀ items : List Json, items ≠ [] → stack.length + 1 + itemsDepth items ≤ limit →
      run limit ⟨.array former :: stack, .value⟩ (itemsTokens items ++ .closeArray :: more) =
        run limit ⟨stack, .rest (.array (former.reverse ++ items))⟩ more
  | [], hne, _ => absurd rfl hne
  | [j], _, h => by
    rw [itemsDepth] at h
    rw [itemsTokens, run_tokens j (by rw [List.length_cons]; omega), run_cons]
    simp [step, restStep]
  | j :: k :: rest, _, h => by
    rw [itemsDepth] at h
    have hrest := @run_itemsTokens stack more (j :: former) (k :: rest) (List.cons_ne_nil _ _)
      (by omega)
    rw [itemsTokens, List.append_assoc, run_tokens j (by rw [List.length_cons]; omega),
      List.cons_append, run_cons]
    simpa [step, restStep] using hrest

theorem run_membersTokens {stack : List Open} {more : List Token}
    {former : List (String × Json)} :
    ∀ members : List (String × Json), members ≠ [] →
      stack.length + 1 + membersDepth members ≤ limit →
      run limit ⟨stack, .name former⟩ (membersTokens members ++ .closeObject :: more) =
        run limit ⟨stack, .rest (.object (former.reverse ++ members))⟩ more
  | [], hne, _ => absurd rfl hne
  | [(name, j)], _, h => by
    rw [membersDepth] at h
    rw [membersTokens, List.cons_append, List.cons_append, run_member,
      run_tokens j (by rw [List.length_cons]; omega), run_cons]
    simp [step, restStep]
  | (name, j) :: m :: rest, _, h => by
    rw [membersDepth] at h
    have hrest := @run_membersTokens stack more ((name, j) :: former) (m :: rest)
      (List.cons_ne_nil _ _) (by omega)
    rw [membersTokens, List.append_assoc, List.cons_append, List.cons_append, run_member,
      run_tokens j (by rw [List.length_cons]; omega), List.cons_append, run_cons]
    simpa [step, restStep] using hrest

end

end Reader

/-- **A value is read from every text that it is written as.** -/
theorem ofText?_of_written {limit : Nat} {j : Json} {text : String}
    (h : Written (.value j) text.toList) (hdepth : j.depth ≤ limit) :
    ofText? limit text = some j := by
  obtain ⟨l, hl, hat⟩ := Lexer.reads_written h []
  have hrun := @Reader.run_tokens limit [] [] j (by simpa using hdepth)
  rw [List.append_nil] at hrun hat
  rw [ofText?, Token.ofText?, hl, Option.bind_some, hat.finish?_eq, Option.bind_some,
    List.reverse_reverse]
  exact congrArg (·.bind Reader.finish?) hrun

end Json

end Reenact
