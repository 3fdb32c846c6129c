/-
  Tokens of a JSON text.

  The text is read by a machine, character by character, without looking ahead.  A run of characters
  outside of strings that are neither blanks nor marks is a word, which ends where one of those
  comes; it has to be a number, `true`, `false` or `null`.

  * `Lexer.step` is the machine, `Lexer.finish?` what it says at the end of the text;
  * `Token.ofText?` are the tokens of a text, if it has any reading as tokens.
-/
import Reenact.Json.Basic

namespace Reenact

namespace Json

/-- A token. -/
inductive Token where
  | openArray | closeArray | openObject | closeObject | comma | colon
  | null
  | boolean (value : Bool)
  | number (value : Number)
  | text (value : String)
deriving DecidableEq

/-- A blank between tokens. -/
def isSpace (c : Char) : Bool := c == ' ' || c == '\t' || c == '\n' || c == '\r'

/-- The token that is one character. -/
def Token.mark? : Char → Option Token
  | '[' => some .openArray
  | ']' => some .closeArray
  | '{' => some .openObject
  | '}' => some .closeObject
  | ',' => some .comma
  | ':' => some .colon
  | _ => none

/-- The token that is a word. -/
def Token.word? (word : List Char) : Option Token :=
  if word = "null".toList then some .null
  else if word = "true".toList then some (.boolean true)
  else if word = "false".toList then some (.boolean false)
  else (Number.ofWord? word).map .number

/-- Where the machine is.  The characters read of a token come last first. -/
inductive Mode where
  /-- Between tokens -/
  | outside
  | word (read : List Char)
  | string (read : List Char)
  /-- After a backslash -/
  | escape (read : List Char)
  /-- After `\u` and some of its four digits: the leading surrogate before it if there is one, the
      number of digits to come, and the value of those that came -/
  | codeUnit (read : List Char) (leading : Option Nat) (digits value : Nat)
  /-- After a leading surrogate, before the backslash of the trailing one -/
  | surrogate (read : List Char) (leading : Nat)
  /-- After that backslash -/
  | surrogateEscape (read : List Char) (leading : Nat)

/-- The machine: where it is, and the tokens read, last first. -/
structure Lexer where
  mode : Mode := .outside
  tokens : List Token := []

namespace Lexer

/-- The value of a hexadecimal digit. -/
def hexDigit? (c : Char) : Option Nat :=
  if c.isDigit then some (c.toNat - '0'.toNat)
  else if 'a' ≤ c ∧ c ≤ 'f' then some (c.toNat - 'a'.toNat + 10)
  else if 'A' ≤ c ∧ c ≤ 'F' then some (c.toNat - 'A'.toNat + 10)
  else none

/-- The character that a letter after a backslash stands for. -/
def escaped? : Char → Option Char
  | '"' => some '"'
  | '\\' => some '\\'
  | '/' => some '/'
  | 'b' => some '\x08'
  | 'f' => some '\x0c'
  | 'n' => some '\n'
  | 'r' => some '\r'
  | 't' => some '\t'
  | _ => none

def isLeading (unit : Nat) : Bool := 0xD800 ≤ unit && unit < 0xDC00

def isTrailing (unit : Nat) : Bool := 0xDC00 ≤ unit && unit < 0xE000

/-- Goes on after a code unit: a leading surrogate needs a trailing one, which is one only after a
    leading one. -/
def afterUnit? (read : List Char) (leading : Option Nat) (unit : Nat) : Option Mode :=
  match leading with
  | none =>
    if isLeading unit then some (.surrogate read unit)
    else if isTrailing unit then none
    else some (.string (Char.ofNat unit :: read))
  | some high =>
    if isTrailing unit then
      some (.string (Char.ofNat (0x10000 + (high - 0xD800) * 0x400 + (unit - 0xDC00)) :: read))
    else none

/-- Reads a character between tokens. -/
def outside? (tokens : List Token) (c : Char) : Lexer :=
  if isSpace c then ⟨.outside, tokens⟩
  else if c = '"' then ⟨.string [], tokens⟩
  else match Token.mark? c with
    | some mark => ⟨.outside, mark :: tokens⟩
    | none => ⟨.word [c], tokens⟩

/-- A character that ends a word. -/
def endsWord (c : Char) : Bool := isSpace c || c == '"' || (Token.mark? c).isSome

/-- Reads a character. -/
def step (l : Lexer) (c : Char) : Option Lexer :=
  match l.mode with
  | .outside => some (outside? l.tokens c)
  | .word read =>
    if endsWord c then
      (Token.word? read.reverse).map fun word => outside? (word :: l.tokens) c
    else some { l with mode := .word (c :: read) }
  | .string read =>
    if c = '"' then some ⟨.outside, .text (String.ofList read.reverse) :: l.tokens⟩
    else if c = '\\' then some { l with mode := .escape read }
    else if c.toNat < 0x20 then none
    else some { l with mode := .string (c :: read) }
  | .escape read =>
    if c = 'u' then some { l with mode := .codeUnit read none 4 0 }
    else (escaped? c).map fun c => { l with mode := .string (c :: read) }
  | .codeUnit read leading digits value =>
    (hexDigit? c).bind fun digit =>
      let value := 16 * value + digit
      if digits ≤ 1 then (afterUnit? read leading value).map fun mode => { l with mode }
      else some { l with mode := .codeUnit read leading (digits - 1) value }
  | .surrogate read leading =>
    if c = '\\' then some { l with mode := .surrogateEscape read leading } else none
  | .surrogateEscape read leading =>
    if c = 'u' then some { l with mode := .codeUnit read (some leading) 4 0 } else none

/-- Reads characters one after another. -/
def run (l : Lexer) (text : List Char) : Option Lexer := text.foldlM step l

/-- The tokens at the end of the text; inside a string there is no end. -/
def finish? (l : Lexer) : Option (List Token) :=
  match l.mode with
  | .outside => some l.tokens.reverse
  | .word read => (Token.word? read.reverse).map fun word => (word :: l.tokens).reverse
  | _ => none

end Lexer

/-- The tokens of a text. -/
def Token.ofText? (text : List Char) : Option (List Token) := (Lexer.run {} text).bind Lexer.finish?

end Json

end Reenact
