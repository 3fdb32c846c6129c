/-
  Reading a JSON value from its tokens.

  The arrays and objects that are still open are kept on a stack, each with what was read of it, and
  every token either opens one, closes one, or goes into the innermost one.  How many may be open at
  a time is limited.

  * `Reader.step` is the reader, `Reader.finish?` what it says at the end;
  * `ofText?` is the value of a text.
-/
import Reenact.Json.Token

namespace Reenact

namespace Json

/-- An array or object in which a value is being read, with its items or members so far, last
    first. -/
inductive Open where
  | array (items : List Json)
  /-- `name` is that of the member whose value is being read -/
  | object (members : List (String × Json)) (name : String)

/-- What has to come next.  An array or object is put on the stack only while a value is read in
    it; in between its members are here. -/
inductive Next where
  | value
  /-- The first item of an array, or its end -/
  | firstItem
  /-- The first name of an object, or its end -/
  | firstName
  /-- The name of a further member -/
  | name (members : List (String × Json))
  /-- The colon behind a name -/
  | colon (members : List (String × Json)) (name : String)
  /-- A comma or an end: a value has just been read -/
  | rest (value : Json)

/-- The reader: the arrays and objects around what comes next, innermost first. -/
structure Reader where
  stack : List Open := []
  next : Next := .value

namespace Reader

/-- Reads a token where a value may begin, with at most `limit` arrays and objects open. -/
def valueStep (limit : Nat) (stack : List Open) : Token → Option Reader
  | .null => some ⟨stack, .rest .null⟩
  | .boolean b => some ⟨stack, .rest (.boolean b)⟩
  | .number n => some ⟨stack, .rest (.number n)⟩
  | .text s => some ⟨stack, .rest (.text s)⟩
  | .openArray => if stack.length < limit then some ⟨stack, .firstItem⟩ else none
  | .openObject => if stack.length < limit then some ⟨stack, .firstName⟩ else none
  | _ => none

/-- Reads a token after a value in the innermost open array or object. -/
def restStep (stack : List Open) (value : Json) : Token → Option Reader
  | .comma =>
    match stack with
    | .array items :: outer => some ⟨.array (value :: items) :: outer, .value⟩
    | .object members name :: outer => some ⟨outer, .name ((name, value) :: members)⟩
    | [] => none
  | .closeArray =>
    match stack with
    | .array items :: outer => some ⟨outer, .rest (.array (value :: items).reverse)⟩
    | _ => none
  | .closeObject =>
    match stack with
    | .object members name :: outer =>
      some ⟨outer, .rest (.object ((name, value) :: members).reverse)⟩
    | _ => none
  | _ => none

/-- Reads a token. -/
def step (limit : Nat) (r : Reader) (t : Token) : Option Reader :=
  match r.next with
  | .value => valueStep limit r.stack t
  | .firstItem =>
    match t with
    | .closeArray => some { r with next := .rest (.array []) }
    | t => valueStep limit (.array [] :: r.stack) t
  | .firstName =>
    match t with
    | .closeObject => some { r with next := .rest (.object []) }
    | .text name => some { r with next := .colon [] name }
    | _ => none
  | .name members =>
    match t with
    | .text name => some { r with next := .colon members name }
    | _ => none
  | .colon members name =>
    match t with
    | .colon => some ⟨.object members name :: r.stack, .value⟩
    | _ => none
  | .rest value => restStep r.stack value t

/-- Reads tokens one after another. -/
def run (limit : Nat) (r : Reader) (tokens : List Token) : Option Reader :=
  tokens.foldlM (step limit) r

/-- The value at the end of the tokens, where nothing is open. -/
def finish? (r : Reader) : Option Json :=
  match r.stack, r.next with
  | [], .rest value => some value
  | _, _ => none

end Reader

/-- The value of a text, with at most `limit` arrays and objects around any part of it. -/
def ofText? (limit : Nat) (text : String) : Option Json :=
  (Token.ofText? text.toList).bind fun tokens =>
    (Reader.run limit {} tokens).bind Reader.finish?

end Json

end Reenact
