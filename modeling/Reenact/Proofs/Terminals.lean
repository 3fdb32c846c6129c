/-
  Source text as terminals.

  A terminal is a token with its kind settled: a reserved word is none of the names, and a symbol is
  one of a fixed list.  `terminals?` reads a text to its end.

  `Spells p text ts` says that the text is read as the terminals `ts` wherever it stands, if the
  character behind it does not have the property `p`, with which its last token would go on.  It
  holds of every token (`Spells.name`, `Spells.number`, `Spells.literal`, `Spells.symbol`) and of
  texts one after another (`Spells.append`).
-/
import Reenact.Proofs.NumberLiterals
import Reenact.Proofs.TextLiterals
import Reenact.Syntax.Tree

namespace Reenact

open Lexer

/-! ## Reserved words and symbols -/

inductive Keyword where
  | and | break_ | do_ | else_ | elseif | end_ | false | for_ | function | goto | if_ | in_ | local_
  | nil | not | or | repeat_ | return_ | then_ | true | until_ | while_
deriving DecidableEq, Repr

namespace Keyword

def text : Keyword → String
  | and => "and" | break_ => "break" | do_ => "do" | else_ => "else" | elseif => "elseif"
  | end_ => "end" | false => "false" | for_ => "for" | function => "function" | goto => "goto"
  | if_ => "if" | in_ => "in" | local_ => "local" | nil => "nil" | not => "not" | or => "or"
  | repeat_ => "repeat" | return_ => "return" | then_ => "then" | true => "true"
  | until_ => "until" | while_ => "while"

def all : List Keyword :=
  [and, break_, do_, else_, elseif, end_, false, for_, function, goto, if_, in_, local_, nil, not,
    or, repeat_, return_, then_, true, until_, while_]

theorem map_text_all : all.map text = keywords := rfl

end Keyword

inductive Symbol where
  /-- `...` -/
  | dots
  /-- `..` -/
  | concat
  | eq | notEq | ltEq | gtEq | shl | shr | floorDiv
  /-- `::` -/
  | doubleColon
  | add | sub | mul | div | mod | pow | len | bitAnd
  | tilde
  | bitOr | lt | gt
  /-- `=` -/
  | assign
  | openParen | closeParen | openBrace | closeBrace | openBracket | closeBracket
  | semicolon | colon | comma | dot
deriving DecidableEq, Repr

namespace Symbol

def text : Symbol → List Char
  | dots => ['.', '.', '.'] | concat => ['.', '.'] | eq => ['=', '='] | notEq => ['~', '=']
  | ltEq => ['<', '='] | gtEq => ['>', '='] | shl => ['<', '<'] | shr => ['>', '>']
  | floorDiv => ['/', '/'] | doubleColon => [':', ':'] | add => ['+'] | sub => ['-'] | mul => ['*']
  | div => ['/'] | mod => ['%'] | pow => ['^'] | len => ['#'] | bitAnd => ['&'] | tilde => ['~']
  | bitOr => ['|'] | lt => ['<'] | gt => ['>'] | assign => ['='] | openParen => ['(']
  | closeParen => [')'] | openBrace => ['{'] | closeBrace => ['}'] | openBracket => ['[']
  | closeBracket => [']'] | semicolon => [';'] | colon => [':'] | comma => [','] | dot => ['.']

def all : List Symbol :=
  [dots, concat, eq, notEq, ltEq, gtEq, shl, shr, floorDiv, doubleColon, add, sub, mul, div, mod,
    pow, len, bitAnd, tilde, bitOr, lt, gt, assign, openParen, closeParen, openBrace, closeBrace,
    openBracket, closeBracket, semicolon, colon, comma, dot]

theorem map_text_all : all.map text = symbols := rfl

theorem text_mem_symbols (s : Symbol) : s.text ∈ symbols := by
  cases s <;> decide

end Symbol

/-! ## Terminals -/

/-- A token, with its kind settled. -/
inductive Terminal where
  | word (word : Keyword)
  | name (name : String)
  | number (digits : String)
  /-- A string, by the text that it denotes -/
  | text (value : String)
  | symbol (symbol : Symbol)
deriving DecidableEq, Repr

/-- The terminal that a token is. -/
def Token.terminal? : Token → Option Terminal
  | .name word =>
    match Keyword.all.find? (·.text.toList == word) with
    | some k => some (.word k)
    | none => some (.name (String.ofList word))
  | .number digits => some (.number (String.ofList digits))
  | .text value => some (.text (String.ofList value))
  | .symbol s => (Symbol.all.find? (·.text == s)).map .symbol

/-- The terminals of a text, up to its end. -/
def terminals? (text : List Char) : Option (List Terminal) :=
  match _ : next? text with
  | some (token, rest) => do
    let terminal ← token.terminal?
    let terminals ← terminals? rest
    return terminal :: terminals
  | none => if skip? text = some [] then some [] else none
termination_by text.length
decreasing_by exact next?_length ‹_›

theorem terminals?_of_none {text : List Char} (hnext : next? text = none) :
    terminals? text = if skip? text = some [] then some [] else none := by
  rw [terminals?]
  split
  · next h => rw [hnext] at h; cases h
  · rfl

theorem terminals?_of_some {text rest : List Char} {token : Token}
    (hnext : next? text = some (token, rest)) :
    terminals? text =
      token.terminal?.bind fun terminal => (terminals? rest).bind fun terminals =>
        some (terminal :: terminals) := by
  rw [terminals?]
  split
  · next h => rw [hnext] at h; cases h; rfl
  · next h => rw [hnext] at h; cases h

theorem terminals?_nil : terminals? [] = some [] := by
  have hskip : skip? [] = some [] := by rw [skip?]
  have hnext : next? [] = none := by rw [next?, hskip]; rfl
  rw [terminals?_of_none hnext, if_pos hskip]

theorem terminals?_next {text rest : List Char} {token : Token} {t : Terminal} {ts : List Terminal}
    (hnext : next? text = some (token, rest)) (ht : token.terminal? = some t)
    (hrest : terminals? rest = some ts) : terminals? text = some (t :: ts) := by
  rw [terminals?_of_some hnext, ht, hrest, Option.bind_some, Option.bind_some]

/-- Texts of which the same is ahead are read alike. -/
theorem terminals?_congr {text text' : List Char} (h : skip? text = skip? text') :
    terminals? text = terminals? text' := by
  have hnext : next? text = next? text' := by rw [next?, next?, h]
  cases hread : next? text' with
  | none => rw [terminals?_of_none hread, terminals?_of_none (hnext.trans hread), h]
  | some read => rw [terminals?_of_some hread, terminals?_of_some (hnext.trans hread)]

theorem terminals?_space {c : Char} (h : isSpace c = true) (rest : List Char) :
    terminals? (c :: rest) = terminals? rest :=
  terminals?_congr (skip?_space h rest)

theorem terminal?_word (k : Keyword) : (Token.name k.text.toList).terminal? = some (.word k) := by
  have hfind : Keyword.all.find? (·.text.toList == k.text.toList) = some k := by
    cases k <;> decide
  rw [Token.terminal?, hfind]

theorem terminal?_symbol (s : Symbol) : (Token.symbol s.text).terminal? = some (.symbol s) := by
  cases s <;> rfl

theorem terminal?_name {n : String} (h : isName n = true) :
    (Token.name n.toList).terminal? = some (.name n) := by
  have hnone : Keyword.all.find? (·.text.toList == n.toList) = none := by
    rw [List.find?_eq_none]
    intro k hk he
    have htext : k.text = n := String.toList_inj.1 (beq_iff_eq.1 he)
    refine keywords_of_isName h ?_
    rw [← Keyword.map_text_all, ← htext]
    exact List.mem_map_of_mem hk
  rw [Token.terminal?, hnone, String.ofList_toList]

/-! ## Spelling -/

/-- The text is read as the terminals, in front of any character without the property. -/
def Spells (p : Char → Bool) (text : List Char) (ts : List Terminal) : Prop :=
  ∀ rest us, Apart p rest → terminals? rest = some us → terminals? (text ++ rest) = some (ts ++ us)

/-- The property of no character. -/
def never (_ : Char) : Bool := false

theorem apart_never (text : List Char) : Apart never text := fun _ _ => rfl

namespace Spells

variable {p q : Char → Bool} {a b : List Char} {ts us : List Terminal}

theorem nil (p : Char → Bool) : Spells p [] [] := fun _ _ _ h => h

theorem mono (h : Spells p a ts) (himp : ∀ c, p c = true → q c = true) : Spells q a ts :=
  fun rest us hrest => h rest us (hrest.imp himp)

theorem ofNever (h : Spells never a ts) : Spells q a ts := h.mono nofun

/-- **Texts one after another.**  The second begins with a character that does not belong to the
    last token of the first, or is empty. -/
theorem append (ha : Spells p a ts) (hb : Spells q b us)
    (hbegin : ∀ rest, Apart q rest → Apart p (b ++ rest)) : Spells q (a ++ b) (ts ++ us) := by
  intro rest vs hrest hvs
  rw [List.append_assoc, List.append_assoc]
  exact ha _ _ (hbegin rest hrest) (hb rest vs hrest hvs)

theorem append_cons {c : Char} (ha : Spells p a ts) (hb : Spells q (c :: b) us)
    (hc : p c = false) : Spells q (a ++ c :: b) (ts ++ us) :=
  ha.append hb fun _ _ => apart_cons.2 hc

theorem append_never (ha : Spells never a ts) (hb : Spells q b us) :
    Spells q (a ++ b) (ts ++ us) :=
  ha.append hb fun _ _ => apart_never _

theorem append_nil (ha : Spells p a ts) : Spells p (a ++ []) (ts ++ []) := by
  rwa [List.append_nil, List.append_nil]

theorem space {c : Char} (h : Spells p a ts) (hc : isSpace c = true) : Spells p (c :: a) ts := by
  intro rest us hrest hus
  rw [List.cons_append, terminals?_space hc]
  exact h rest us hrest hus

/-- White space alone. -/
theorem white {c : Char} (hc : isSpace c = true) : Spells never [c] [] := (nil never).space hc

theorem spaces (h : Spells p a ts) : ∀ n, Spells p (List.replicate n ' ' ++ a) ts
  | 0 => h
  | n + 1 => (spaces h n).space (by decide)

theorem next {t : Terminal} {token : Token}
    (hnext : ∀ rest, Apart p rest → next? (a ++ rest) = some (token, rest))
    (ht : token.terminal? = some t) : Spells p a [t] :=
  fun rest _ hrest hus => terminals?_next (hnext rest hrest) ht hus

theorem name {n : String} (h : isName n = true) : Spells isWordChar n.toList [.name n] :=
  next (fun _ hrest => next?_word (isWord_of_isName h) hrest) (terminal?_name h)

theorem isWord_text (k : Keyword) : IsWord k.text.toList := by
  cases k <;> exact ⟨_, _, rfl, by decide⟩

theorem word (k : Keyword) : Spells isWordChar k.text.toList [.word k] :=
  next (fun _ hrest => next?_word (isWord_text k) hrest) (terminal?_word k)

theorem symbol (s : Symbol) : Spells (joins s.text) s.text [.symbol s] :=
  next (fun _ hrest => next?_symbol s.text_mem_symbols hrest) (terminal?_symbol s)

/-- Parentheses, braces and the like are read wherever they stand. -/
theorem delimiter {s : Symbol} {d : Char} (hs : s.text = [d]) (hd : d ∈ delimiters) :
    Spells never [d] [.symbol s] := by
  refine next (fun rest _ => next?_delimiter hd rest) ?_
  rw [← hs]
  exact terminal?_symbol s

theorem number {digits : List Char} (h : Numeral digits) :
    Spells joinsNumeral digits [.number (String.ofList digits)] :=
  next (fun _ hrest => next?_numeral h hrest) rfl

end Spells

/-! ## Literals -/

/-- The string that the literal of a string denotes. -/
def textRead (v : String) : String := String.ofList ((TextForm.of v.toList).denoted v.toList)

theorem textLiteral_begins (v : String) :
    ∃ c more, (textLiteral v).toList = c :: more ∧ (c = '"' ∨ c = '\'' ∨ c = '[') := by
  rw [textLiteral, String.toList_ofList]
  cases hform : TextForm.of v.toList with
  | quotes quote =>
    refine ⟨quote, _, rfl, ?_⟩
    rcases TextForm.of_eq_quotes hform with rfl | rfl <;> simp
  | longBrackets => exact ⟨'[', _, rfl, by simp⟩

theorem Spells.literal (v : String) : Spells never (textLiteral v).toList [.text (textRead v)] := by
  have hnext : ∀ rest, next? ((textLiteral v).toList ++ rest) =
      some (.text ((TextForm.of v.toList).denoted v.toList), rest) := by
    intro rest
    rw [← token?_textLiteral v rest]
    obtain ⟨c, more, hliteral, hc⟩ := textLiteral_begins v
    rw [hliteral]
    rcases hc with rfl | rfl | rfl <;> exact next?_of_not_space (by decide) (by decide) _
  exact .next (fun rest _ => hnext rest) rfl

/-- The terminals of a number, which is written with a minus sign if it is negative. -/
def numberTerminals (source : String) : List Terminal :=
  match source.toList with
  | '-' :: digits => [.symbol .sub, .number (String.ofList digits)]
  | _ => [.number source]

theorem numberTerminals_negative (digits : List Char) :
    numberTerminals (String.ofList ('-' :: digits)) =
      [.symbol .sub, .number (String.ofList digits)] := by
  simp only [numberTerminals, String.toList_ofList]

theorem numberTerminals_numeral {digits : List Char} (h : Numeral digits) :
    numberTerminals (String.ofList digits) = [.number (String.ofList digits)] := by
  rw [numberTerminals, String.toList_ofList]
  split
  · obtain ⟨c, ⟨⟩, hdigit⟩ := h.isDigit_head
    exact absurd hdigit (by decide)
  · rfl

theorem Spells.numberLiteral {x : Binary64} (h : x.isFinite = true) :
    Spells joinsNumeral (numberLiteral x).toList (numberTerminals (Reenact.numberLiteral x)) := by
  obtain ⟨digits, hdigits, htext⟩ := numberText_numeral h
  rw [Reenact.numberLiteral, String.toList_ofList, htext]
  split
  · rw [numberTerminals_negative]
    cases digits with
    | nil => obtain ⟨_, hc, -⟩ := hdigits.isDigit_head; cases hc
    | cons c digits =>
      refine (Spells.symbol .sub).append_cons (.number hdigits) ?_
      obtain ⟨_, ⟨⟩, hdigit⟩ := hdigits.isDigit_head
      rw [Symbol.text, joins_minus, beq_eq_false_iff_ne]
      rintro rfl
      exact absurd hdigit (by decide)
  · rw [numberTerminals_numeral hdigits]
    exact .number hdigits

end Reenact
