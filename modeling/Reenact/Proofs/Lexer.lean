/-
  Reading Lua source text, token by token.

  `next?` skips blanks and comments and reads one token; it has no result at the end of the text,
  and where no token can be read.  String tokens carry the text that they denote.  Three rules matter
  for what is written elsewhere:

  * a bracket with another bracket or an `=` behind it opens a long bracket, and cannot be a symbol;
  * a long bracket ends at the first closing bracket of its level, whatever stands before it;
  * in a long bracket, the first line end is dropped if the text begins with it, and any other
    line end is read as a line feed.

  Of the escapes in quotes, those of a letter, a quote, a line end and an ASCII code are read.  The
  characters of a number are read as far as they go, and not checked.
-/
import Reenact.Text.Ascii

namespace Reenact

/-- A token. -/
inductive Token where
  /-- A name or a reserved word -/
  | name (text : List Char)
  | number (text : List Char)
  /-- A string, by the text that it denotes -/
  | text (value : List Char)
  | symbol (text : List Char)
deriving DecidableEq, Repr

namespace Lexer

/-! ## Line ends -/

def isLineEnd (c : Char) : Bool := c == '\n' || c == '\r'

/-- The text behind the line end that it begins with, if it does.  A line feed and a carriage return
    are one line end, in either order. -/
def dropLineEnd : List Char → List Char
  | '\n' :: '\r' :: rest | '\r' :: '\n' :: rest | '\n' :: rest | '\r' :: rest => rest
  | text => text

/-- The text with a line feed for each line end. -/
def unifyLineEnds : List Char → List Char
  | '\n' :: '\r' :: rest | '\r' :: '\n' :: rest | '\r' :: rest => '\n' :: unifyLineEnds rest
  | c :: rest => c :: unifyLineEnds rest
  | [] => []

theorem dropLineEnd_of_head {text : List Char} (h : ∀ c ∈ text.head?, isLineEnd c = false) :
    dropLineEnd text = text := by
  unfold dropLineEnd
  split <;> first | rfl | exact absurd (h _ rfl) (by decide)

theorem not_mem_unifyLineEnds (text : List Char) : '\r' ∉ unifyLineEnds text := by
  induction text using unifyLineEnds.induct with
  | case1 rest ih | case2 rest ih | case3 rest _ ih => simp [unifyLineEnds, ih]
  | case4 c rest h₁ h₂ h₃ ih =>
    rw [unifyLineEnds]
    · rintro hmem
      rcases List.mem_cons.1 hmem with hc | hmem
      · exact h₃ hc.symm
      · exact ih hmem
    all_goals assumption
  | case5 => simp [unifyLineEnds]

theorem unifyLineEnds_of_not_mem {text : List Char} (h : '\r' ∉ text) :
    unifyLineEnds text = text := by
  induction text using unifyLineEnds.induct with
  | case1 rest ih | case2 rest ih | case3 rest ih => simp at h
  | case4 c rest h₁ h₂ h₃ ih =>
    rw [unifyLineEnds, ih fun hmem => h (List.mem_cons_of_mem _ hmem)]
    all_goals assumption
  | case5 => rfl

/-! ## Long brackets -/

/-- The level of an opening long bracket behind its first character, and the text behind it.
    `level` is the number of `=` that were read. -/
def openingLevel? (level : Nat) : List Char → Option (Nat × List Char)
  | '=' :: rest => openingLevel? (level + 1) rest
  | '[' :: rest => some (level, rest)
  | _ => none

/-- The closing long bracket of a level. -/
def closingBracket (level : Nat) : List Char := ']' :: List.replicate level '=' ++ [']']

/-- The text up to the first closing long bracket of a level, and the text behind that. -/
def untilClosing? (level : Nat) : List Char → Option (List Char × List Char)
  | [] => none
  | c :: rest =>
    if (closingBracket level).isPrefixOf (c :: rest) then some ([], rest.drop (level + 1))
    else (untilClosing? level rest).map fun (body, behind) => (c :: body, behind)

/-- What a long bracket denotes, and the text behind it.  Its first character was read. -/
def longBracket? (text : List Char) : Option (List Char × List Char) := do
  let (level, rest) ← openingLevel? 0 text
  let (body, behind) ← untilClosing? level rest
  return (unifyLineEnds (dropLineEnd body), behind)

theorem openingLevel?_length : ∀ {level text m rest},
    openingLevel? level text = some (m, rest) → rest.length < text.length
  | _, [], _, _, h => by simp [openingLevel?] at h
  | level, c :: text, m, rest, h => by
    unfold openingLevel? at h
    split at h
    · rename_i heq
      cases heq
      exact Nat.lt_succ_of_lt (openingLevel?_length h)
    · rename_i heq
      cases heq; cases h
      exact Nat.lt_succ_self _
    · cases h

theorem untilClosing?_length {level : Nat} : ∀ {text body behind},
    untilClosing? level text = some (body, behind) → behind.length < text.length
  | [], _, _, h => by cases h
  | c :: text, body, behind, h => by
    rw [untilClosing?] at h
    split at h
    · cases h
      simp only [List.length_drop, List.length_cons]
      omega
    · obtain ⟨⟨body', behind'⟩, hr, he⟩ := Option.map_eq_some_iff.1 h
      cases he
      exact Nat.lt_succ_of_lt (untilClosing?_length hr)

theorem openingLevel?_replicate (n : Nat) (rest : List Char) : ∀ level,
    openingLevel? level (List.replicate n '=' ++ '[' :: rest) = some (level + n, rest) := by
  induction n with
  | zero => intro level; simp [openingLevel?]
  | succ n ih =>
    intro level
    rw [List.replicate_succ, List.cons_append, openingLevel?, ih]
    congr 2
    omega

theorem untilClosing?_closing (level : Nat) (rest : List Char) :
    untilClosing? level (closingBracket level ++ rest) = some ([], rest) := by
  have h : (closingBracket level).isPrefixOf (closingBracket level ++ rest) = true :=
    List.isPrefixOf_iff_prefix.2 (List.prefix_append _ _)
  have hlen : level + 1 = (List.replicate level '=' ++ [']']).length := by simp
  change (if (closingBracket level).isPrefixOf (closingBracket level ++ rest) = true then _
    else _) = _
  rw [if_pos h, hlen]
  exact congrArg (fun behind => some ([], behind)) List.drop_left

/-- What does not begin with a closing bracket is read character by character. -/
theorem untilClosing?_cons {level : Nat} {c : Char} {text body behind : List Char}
    (h : (closingBracket level).isPrefixOf (c :: text) = false)
    (hr : untilClosing? level text = some (body, behind)) :
    untilClosing? level (c :: text) = some (c :: body, behind) := by
  rw [untilClosing?, if_neg (by simp [h]), hr]; rfl

/-! ## Blanks and comments -/

/-- A blank or a character that ends a line. -/
def isSpace (c : Char) : Bool := isBlank c || c == '\x0b'

/-- The text behind a comment whose two hyphens were read. -/
def comment? (text : List Char) : Option (List Char) :=
  match text with
  | '[' :: rest =>
    match openingLevel? 0 rest with
    | some (level, body) => (untilClosing? level body).map Prod.snd
    | none => some (rest.dropWhile fun c => !isLineEnd c)
  | text => some (text.dropWhile fun c => !isLineEnd c)

theorem length_dropWhile_le {α : Type} (p : α → Bool) (l : List α) :
    (l.dropWhile p).length ≤ l.length :=
  (List.dropWhile_sublist p).length_le

theorem comment?_length {text behind : List Char} (h : comment? text = some behind) :
    behind.length ≤ text.length := by
  unfold comment? at h
  split at h
  · rename_i rest
    split at h
    · rename_i level body ho
      obtain ⟨⟨_, _⟩, hu, he⟩ := Option.map_eq_some_iff.1 h
      cases he
      have h₁ := openingLevel?_length ho
      have h₂ := untilClosing?_length hu
      simp only [List.length_cons] at h₁ h₂ ⊢
      omega
    · cases h
      exact Nat.le_succ_of_le (length_dropWhile_le _ _)
  · cases h
    exact length_dropWhile_le _ _

/-- The text behind blanks and comments. -/
def skip? (text : List Char) : Option (List Char) :=
  match text with
  | '-' :: '-' :: rest =>
    match _ : comment? rest with
    | some behind => skip? behind
    | none => none
  | c :: rest => if isSpace c then skip? rest else some (c :: rest)
  | [] => some []
termination_by text.length
decreasing_by
  · have := comment?_length ‹_›
    simp only [List.length_cons]
    omega
  · simp

theorem skip?_space {c : Char} (h : isSpace c = true) (rest : List Char) :
    skip? (c :: rest) = skip? rest := by
  have hc : c ≠ '-' := by rintro rfl; exact absurd h (by decide)
  rw [skip?, if_pos h]
  exact fun _ he _ => hc he

theorem skip?_of_not_space {c : Char} (h : isSpace c = false) (hc : c ≠ '-') (rest : List Char) :
    skip? (c :: rest) = some (c :: rest) := by
  rw [skip?, if_neg (by simp [h])]
  exact fun _ he _ => hc he

theorem skip?_spaces (n : Nat) (rest : List Char) :
    skip? (List.replicate n ' ' ++ rest) = skip? rest := by
  induction n with
  | zero => rfl
  | succ n ih => rw [List.replicate_succ, List.cons_append, skip?_space (by decide), ih]

theorem skip?_length {text behind : List Char} (h : skip? text = some behind) :
    behind.length ≤ text.length := by
  fun_induction skip? text with
  | case1 rest ahead hcomment ih =>
    have hle := comment?_length hcomment
    have hih := ih h
    simp only [List.length_cons]
    omega
  | case2 => cases h
  | case3 c rest _ _ ih => exact Nat.le_succ_of_le (ih h)
  | case4 => cases h; exact Nat.le_refl _
  | case5 => cases h; exact Nat.le_refl _

/-! ## Quotes -/

/-- The character with the code that at most three digits give, and the text behind them. -/
def decimal? (text : List Char) : Option (Char × List Char) :=
  let digits := (text.take 3).takeWhile Char.isDigit
  let code := Nat.ofDigitChars 10 digits 0
  if digits.isEmpty || 0x7f < code then none else some (Char.ofNat code, text.drop digits.length)

/-- The character that a letter or quote denotes behind a backslash. -/
def escaped? : Char → Option Char
  | 'a' => some '\x07'
  | 'b' => some '\x08'
  | 't' => some '\t'
  | 'n' => some '\n'
  | 'v' => some '\x0b'
  | 'f' => some '\x0c'
  | 'r' => some '\r'
  | '\\' => some '\\'
  | '"' => some '"'
  | '\'' => some '\''
  | _ => none

/-- The character that an escape denotes, and the text behind it.  Its backslash was read. -/
def escape? : List Char → Option (Char × List Char)
  | [] => none
  | c :: rest =>
    if c.isDigit then decimal? (c :: rest)
    else if isLineEnd c then some ('\n', dropLineEnd (c :: rest))
    else (escaped? c).map fun e => (e, rest)

theorem dropLineEnd_length_lt {c : Char} (h : isLineEnd c = true) (rest : List Char) :
    (dropLineEnd (c :: rest)).length < (c :: rest).length := by
  unfold dropLineEnd
  split
  · rename_i heq; cases heq; simp only [List.length_cons]; omega
  · rename_i heq; cases heq; simp only [List.length_cons]; omega
  · rename_i heq; cases heq; exact Nat.lt_succ_self _
  · rename_i heq; cases heq; exact Nat.lt_succ_self _
  · simp_all [isLineEnd]

theorem escape?_length {text behind : List Char} {c : Char} (h : escape? text = some (c, behind)) :
    behind.length < text.length := by
  unfold escape? at h
  split at h
  · cases h
  · split at h
    · unfold decimal? at h
      dsimp only at h
      split at h
      · cases h
      · rename_i hd
        cases h
        simp only [Bool.or_eq_true, not_or, List.isEmpty_iff] at hd
        have := List.length_pos_iff.2 hd.1
        simp only [List.length_drop, List.length_cons] at this ⊢
        omega
    · split at h
      · rename_i hl
        cases h
        exact dropLineEnd_length_lt hl _
      · obtain ⟨_, -, he⟩ := Option.map_eq_some_iff.1 h
        cases he
        exact Nat.lt_succ_self _

/-- What a text in quotes denotes, and the text behind the closing quote.  The opening quote was
    read. -/
def shortText? (quote : Char) (text : List Char) : Option (List Char × List Char) :=
  match text with
  | [] => none
  | c :: rest =>
    if c = quote then some ([], rest)
    else if c = '\\' then
      match _ : escape? rest with
      | some (escaped, behind) =>
        (shortText? quote behind).map fun (value, behind) => (escaped :: value, behind)
      | none => none
    else if isLineEnd c then none
    else (shortText? quote rest).map fun (value, behind) => (c :: value, behind)
termination_by text.length
decreasing_by
  · have := escape?_length ‹_›
    simp only [List.length_cons]
    omega
  · simp

theorem shortText?_length {quote : Char} {text value behind : List Char}
    (h : shortText? quote text = some (value, behind)) : behind.length < text.length := by
  fun_induction shortText? quote text generalizing value with
  | case1 | case4 | case5 => cases h
  | case2 rest => cases h; exact Nat.lt_succ_self _
  | case3 rest escaped ahead hescape _ ih =>
    have hlt := escape?_length hescape
    obtain ⟨⟨_, _⟩, hmore, he⟩ := Option.map_eq_some_iff.1 h
    cases he
    exact Nat.lt_succ_of_lt (Nat.lt_trans (ih hmore) hlt)
  | case6 c rest _ _ _ ih =>
    obtain ⟨⟨_, _⟩, hmore, he⟩ := Option.map_eq_some_iff.1 h
    cases he
    exact Nat.lt_succ_of_lt (ih hmore)

theorem longBracket?_length {text value behind : List Char}
    (h : longBracket? text = some (value, behind)) : behind.length < text.length := by
  simp only [longBracket?, Option.bind_eq_bind, Option.bind_eq_some_iff, Option.pure_def,
    Option.some.injEq, Prod.mk.injEq, Prod.exists] at h
  obtain ⟨level, rest, hopen, body, behind', hclose, -, rfl⟩ := h
  exact Nat.lt_trans (untilClosing?_length hclose) (openingLevel?_length hopen)

/-! ## Tokens -/

/-- The characters of a number, and the text behind them.  A sign belongs to it right after a
    character that `isMark`. -/
def numeral (isMark : Char → Bool) : (marked : Bool) → List Char → List Char × List Char
  | _, [] => ([], [])
  | marked, c :: rest =>
    if isWordChar c || c == '.' || marked && (c == '+' || c == '-') then
      let (more, behind) := numeral isMark (isMark c) rest
      (c :: more, behind)
    else ([], c :: rest)

/-- The mark of the exponent in a number. -/
def exponentMark (text : List Char) (c : Char) : Bool :=
  if "0x".toList.isPrefixOf text || "0X".toList.isPrefixOf text then c == 'p' || c == 'P'
  else c == 'e' || c == 'E'

/-- The symbols, longer ones before those that they begin with. -/
def symbols : List (List Char) :=
  [['.', '.', '.'],
    ['.', '.'], ['=', '='], ['~', '='], ['<', '='], ['>', '='], ['<', '<'], ['>', '>'], ['/', '/'],
    [':', ':'],
    ['+'], ['-'], ['*'], ['/'], ['%'], ['^'], ['#'], ['&'], ['~'], ['|'], ['<'], ['>'], ['='],
    ['('], [')'], ['{'], ['}'], ['['], [']'], [';'], [':'], [','], ['.']]

/-- The longest symbol that the text begins with, and the text behind it. -/
def symbol? (text : List Char) : Option (Token × List Char) :=
  (symbols.find? (·.isPrefixOf text)).map fun s => (.symbol s, text.drop s.length)

/-- The token that the text begins with, and the text behind it. -/
def token? : List Char → Option (Token × List Char)
  | [] => none
  | c :: rest =>
    if isWordChar c && !c.isDigit then
      some (.name (c :: rest.takeWhile isWordChar), rest.dropWhile isWordChar)
    else if c.isDigit || c == '.' && rest.head?.any Char.isDigit then
      let (digits, behind) := numeral (exponentMark (c :: rest)) false (c :: rest)
      some (.number digits, behind)
    else if c == '"' || c == '\'' then
      (shortText? c rest).map fun (value, behind) => (.text value, behind)
    else if c == '[' && rest.head?.any fun d => d == '[' || d == '=' then
      (longBracket? rest).map fun (value, behind) => (.text value, behind)
    else symbol? (c :: rest)

theorem numeral_length (isMark : Char → Bool) : ∀ (text : List Char) (marked : Bool),
    (numeral isMark marked text).2.length ≤ text.length
  | [], _ => Nat.le_refl _
  | c :: rest, marked => by
    unfold numeral
    split
    · exact Nat.le_succ_of_le (numeral_length isMark rest (isMark c))
    · exact Nat.le_refl _

/-- **A token takes some of the text.** -/
theorem token?_length {text behind : List Char} {t : Token} (h : token? text = some (t, behind)) :
    behind.length < text.length := by
  unfold token? at h
  split at h
  · cases h
  next c rest =>
  split at h
  · cases h
    exact Nat.lt_succ_of_le (length_dropWhile_le _ _)
  split at h
  · next hdigit =>
    -- the first character belongs to the number
    have hfirst : (isWordChar c || c == '.' ||
        false && (c == '+' || c == '-')) = true := by
      simp only [Bool.or_eq_true, Bool.and_eq_true] at hdigit ⊢
      rcases hdigit with hc | ⟨hc, -⟩
      · exact Or.inl (Or.inl (by simp [isWordChar, Char.isAlphanum, hc]))
      · exact Or.inl (Or.inr hc)
    rw [numeral, if_pos hfirst] at h
    cases h
    exact Nat.lt_succ_of_le (numeral_length _ rest _)
  split at h
  · obtain ⟨⟨_, _⟩, hshort, he⟩ := Option.map_eq_some_iff.1 h
    cases he
    exact Nat.lt_succ_of_lt (shortText?_length hshort)
  split at h
  · obtain ⟨⟨_, _⟩, hlong, he⟩ := Option.map_eq_some_iff.1 h
    cases he
    exact Nat.lt_succ_of_lt (longBracket?_length hlong)
  · obtain ⟨s, hs, he⟩ := Option.map_eq_some_iff.1 h
    cases he
    have hne : ∀ s ∈ symbols, 0 < s.length := by decide
    have hpos : 0 < s.length := hne s (List.mem_of_find?_eq_some hs)
    simp only [List.length_drop, List.length_cons]
    omega

/-- The next token, and the text behind it. -/
def next? (text : List Char) : Option (Token × List Char) := (skip? text).bind token?

/-- The next `n` tokens, and the text behind them. -/
def take? : (n : Nat) → List Char → Option (List Token × List Char)
  | 0, text => some ([], text)
  | n + 1, text => do
    let (token, rest) ← next? text
    let (tokens, behind) ← take? n rest
    return (token :: tokens, behind)

theorem next?_length {text behind : List Char} {t : Token} (h : next? text = some (t, behind)) :
    behind.length < text.length := by
  obtain ⟨ahead, hskip, htoken⟩ := Option.bind_eq_some_iff.1 h
  exact Nat.lt_of_lt_of_le (token?_length htoken) (skip?_length hskip)

theorem next?_space {c : Char} (h : isSpace c = true) (rest : List Char) :
    next? (c :: rest) = next? rest := by
  rw [next?, next?, skip?_space h]

theorem next?_of_not_space {c : Char} (h : isSpace c = false) (hc : c ≠ '-') (rest : List Char) :
    next? (c :: rest) = token? (c :: rest) := by
  rw [next?, skip?_of_not_space h hc]; rfl

theorem next?_spaces (n : Nat) (rest : List Char) :
    next? (List.replicate n ' ' ++ rest) = next? rest := by
  rw [next?, next?, skip?_spaces]

theorem take?_succ {n : Nat} {text rest behind : List Char} {t : Token} {ts : List Token}
    (h : next? text = some (t, rest)) (hr : take? n rest = some (ts, behind)) :
    take? (n + 1) text = some (t :: ts, behind) := by
  rw [take?, h]
  simp [hr]

/-- **A bracket before a bracket opens a long bracket**: it is no symbol, whatever follows. -/
theorem next?_brackets_ne_symbol (rest s behind : List Char) :
    next? ('[' :: '[' :: rest) ≠ some (.symbol s, behind) := by
  rw [next?_of_not_space (by decide) (by decide)]
  intro h
  have hlong : token? ('[' :: '[' :: rest) =
      (longBracket? ('[' :: rest)).map fun (value, behind) => (.text value, behind) := rfl
  rw [hlong] at h
  obtain ⟨_, -, he⟩ := Option.map_eq_some_iff.1 h
  cases he

end Lexer

end Reenact
