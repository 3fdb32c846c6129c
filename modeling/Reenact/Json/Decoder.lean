/-
  Decoders: what a JSON value says as a value of some type, or the first thing wrong with it.

  Things are looked at in the order of the text.  A record is an object with its fields as members,
  in any order, or an array of its fields in the order of their declaration; an object may have
  other members, which are passed over, and an array may not be longer.  A choice is the name of one
  of its variants, or an object with one member, named after the variant.

  * `Problem` are the things that can be wrong with a well-formed text, `Problem.message` their
    wording;
  * `Fields` describes the fields of a record, put together by `required`, `optional` and `and`;
  * `record` and `choice` are the decoders of records and choices.
-/
import Reenact.Json.Basic
import Reenact.Text.Shown
import Reenact.Decimal.Notation
import Reenact.Literal.Number

namespace Reenact

namespace Json

/-! ## Problems -/

/-- What a decoder expects. -/
inductive Expected where
  | unit | boolean | text | real | integer | sequence | pair
  /-- The name of a record, as it is to be written -/
  | record (name : String)
deriving DecidableEq, Repr

def Expected.phrase : Expected → String
  | unit => "unit"
  | boolean => "a boolean"
  | text => "a string"
  | real => "f64"
  | integer => "i64"
  | sequence => "a sequence"
  | pair => "a tuple of size 2"
  | record name => name

/-- How a variant holds its content. -/
inductive Content where
  | none | value | fields
deriving DecidableEq, Repr

def Content.phrase : Content → String
  | none => "unit variant"
  | value => "newtype variant"
  | fields => "struct variant"

/-- Something wrong with a well-formed text. -/
inductive Problem where
  /-- A value of another form -/
  | wrongForm (found : Json) (expected : Expected)
  /-- An integer out of range -/
  | outOfRange (found : Int)
  /-- An array that ends too early -/
  | tooShort (length : Nat) (expected : Expected)
  /-- A record in an array that ends before a field that it needs -/
  | missingItem (length : Nat) (name : String) (fields : Nat)
  | missingField (field : String)
  | repeatedField (field : String)
  | unknownVariant (name : String) (known : List String)
  /-- The name alone of a variant that has content -/
  | missingContent (content : Content)

/-- Why a text has no value of a type. -/
inductive Failure where
  /-- The text is not well-formed, or has more or less than one thing where one is due -/
  | illFormed
  | problem (problem : Problem)

/-- A number with all its digits and a fraction. -/
def Number.shown : Number → String
  | integer i => "integer " ++ "`" ++ toString i ++ "`"
  | real x => "floating point " ++ "`" ++ String.ofList (x.text .plain) ++ "`"

/-- A value as a message shows it: arrays and objects by their form alone. -/
def shown : Json → String
  | null => "null"
  | boolean b => "boolean " ++ "`" ++ (if b then "true" else "false") ++ "`"
  | number n => n.shown
  | text s => "string " ++ String.ofList (Shown.write s.toList)
  | array _ => "sequence"
  | object _ => "map"

/-- Names in backquotes, as what one of them was expected. -/
def oneOf (names : List String) : String :=
  match names.map fun name => "`" ++ name ++ "`" with
  | [a, b] => a ++ " or " ++ b
  | names => "one of " ++ ", ".intercalate names

def Problem.message : Problem → String
  | wrongForm found expected => "invalid type: " ++ found.shown ++ ", expected " ++ expected.phrase
  | outOfRange found =>
    "invalid value: " ++ (Number.integer found).shown ++ ", expected " ++ Expected.integer.phrase
  | tooShort length expected => s!"invalid length {length}, expected {expected.phrase}"
  | missingItem length name fields =>
    s!"invalid length {length}, expected {name} with {fields} " ++
      (if fields = 1 then "element" else "elements")
  | missingField field => "missing field `" ++ field ++ "`"
  | repeatedField field => "duplicate field `" ++ field ++ "`"
  | unknownVariant name known => "unknown variant `" ++ name ++ "`, expected " ++ oneOf known
  | missingContent content =>
    "invalid type: " ++ Content.none.phrase ++ ", expected " ++ content.phrase

def Failure.message : Failure → String
  | illFormed => "not well-formed"
  | problem p => p.message

/-! ## Decoders of single values -/

/-- What a value says as a value of a type. -/
abbrev Decoder (α : Type) := Json → Except Failure α

/-- Fails on a value of another form. -/
def wrongForm {α : Type} (found : Json) (expected : Expected) : Except Failure α :=
  .error (.problem (.wrongForm found expected))

def unitDecoder : Decoder Unit
  | null => .ok ()
  | j => wrongForm j .unit

def booleanDecoder : Decoder Bool
  | boolean b => .ok b
  | j => wrongForm j .boolean

def textDecoder : Decoder String
  | text s => .ok s
  | j => wrongForm j .text

def realDecoder : Decoder Binary64
  | number n => .ok n.toBinary64
  | j => wrongForm j .real

/-- An integer with sign and 64 bits. -/
def integerDecoder : Decoder Int64
  | number (.integer i) =>
    if i < 0x8000000000000000 then .ok (Int64.ofInt i) else .error (.problem (.outOfRange i))
  | j => wrongForm j .integer

/-- Null for nothing. -/
def nullable {α : Type} (decode : Decoder α) : Decoder (Option α)
  | null => .ok none
  | j => some <$> decode j

/-- The items of an array, one after another. -/
def listDecoder {α : Type} (decode : Decoder α) : Decoder (List α)
  | array items => items.mapM decode
  | j => wrongForm j .sequence

/-- An array of two items. -/
def pairDecoder {α β : Type} (first : Decoder α) (second : Decoder β) : Decoder (α × β)
  | array [] => .error (.problem (.tooShort 0 .pair))
  | array [a] => do
    let _ ← first a
    .error (.problem (.tooShort 1 .pair))
  | array [a, b] => return (← first a, ← second b)
  | array (a :: b :: _) => do
    let _ ← first a
    let _ ← second b
    .error .illFormed
  | j => wrongForm j .pair

/-! ## Records -/

/-- The fields of a record, as the parts of a value of type `α`. -/
structure Fields (α : Type) where
  /-- What was read of the fields while going through the members of an object -/
  Slots : Type
  empty : Slots
  /-- The number of fields -/
  size : Nat
  /-- Reads a member, unless it is none of the fields -/
  member : String → Json → Slots → Option (Except Failure Slots)
  /-- The value, once all members were read -/
  finish : Slots → Except Failure α
  /-- Reads the first items of an array, and leaves the others.  The first argument is the
      name and size of the record, the second the number of items before these. -/
  items : String × Nat → Nat → List Json → Except Failure (α × List Json)

namespace Fields

/-- A field that is read once; the other functions say what it is if it is not there. -/
def field {α : Type} (name : String) (decode : Decoder α) (absent : Except Failure α)
    (ended : String × Nat → Nat → Except Failure α) : Fields α where
  Slots := Option α
  empty := none
  size := 1
  member n j former :=
    if n = name then
      some (match former with
        | some _ => .error (.problem (.repeatedField name))
        | none => some <$> decode j)
    else none
  finish
    | some a => .ok a
    | none => absent
  items
    | record, before, [] => return (← ended record before, [])
    | _, _, j :: rest => return (← decode j, rest)

/-- A field that has to be there. -/
def required {α : Type} (name : String) (decode : Decoder α) : Fields α :=
  field name decode (.error (.problem (.missingField name)))
    fun record before => .error (.problem (.missingItem before record.1 record.2))

/-- A field that has a value also if it is not there. -/
def optional {α : Type} (name : String) (decode : Decoder α) (value : α) : Fields α :=
  field name decode (.ok value) fun _ _ => .ok value

/-- Fields followed by others. -/
def and {α β : Type} (f : Fields α) (g : Fields β) : Fields (α × β) where
  Slots := f.Slots × g.Slots
  empty := (f.empty, g.empty)
  size := f.size + g.size
  member name j former :=
    match f.member name j former.1 with
    | some read => some ((·, former.2) <$> read)
    | none => (g.member name j former.2).map fun read => (former.1, ·) <$> read
  finish former := return (← f.finish former.1, ← g.finish former.2)
  items record before js := do
    let (a, js) ← f.items record before js
    let (b, js) ← g.items record (before + f.size) js
    return ((a, b), js)

/-- A value made from fields. -/
def map {α β : Type} (f : Fields α) (make : α → β) : Fields β :=
  { f with
    finish := fun former => make <$> f.finish former
    items := fun record before js => (fun (a, js) => (make a, js)) <$> f.items record before js }

/-- Reads the members of an object, one after another. -/
def members {α : Type} (f : Fields α) : List (String × Json) → f.Slots → Except Failure f.Slots
  | [], former => .ok former
  | (name, j) :: rest, former =>
    match f.member name j former with
    | none => members f rest former
    | some read => do members f rest (← read)

end Fields

/-- A record; `name` is what it is called in messages. -/
def record {α : Type} (name : String) (f : Fields α) : Decoder α
  | object members => do f.finish (← f.members members f.empty)
  | array items => do
    let (a, rest) ← f.items (name, f.size) 0 items
    if rest.isEmpty then .ok a else .error .illFormed
  | j => wrongForm j (.record name)

/-! ## Choices -/

/-- A variant of a choice: its names, what it holds, and how that is read. -/
structure Variant (α : Type) where
  names : List String
  content : Content
  decode : Decoder α

namespace Variant

/-- A variant without content, written as its name or with null as its content. -/
def constant {α : Type} (names : List String) (a : α) : Variant α :=
  ⟨names, .none, fun j => (fun () => a) <$> unitDecoder j⟩

/-- A variant with one value as its content. -/
def value {α β : Type} (names : List String) (decode : Decoder β) (make : β → α) : Variant α :=
  ⟨names, .value, fun j => make <$> decode j⟩

/-- A variant with fields as its content; `choice` is what the choice is called in messages. -/
def fields {α : Type} (choice name : String) (f : Fields α) : Variant α :=
  ⟨[name], .fields, record ("struct variant " ++ choice ++ "::" ++ name) f⟩

/-- The variant of a name. -/
def find {α : Type} (variants : List (Variant α)) (name : String) : Except Failure (Variant α) :=
  match variants.find? (·.names.contains name) with
  | some v => .ok v
  | none => .error (.problem (.unknownVariant name (variants.flatMap (·.names))))

end Variant

/-- A choice between variants. -/
def choice {α : Type} (variants : List (Variant α)) : Decoder α
  | text name => do
    let v ← Variant.find variants name
    match v.content with
    | .none => v.decode null
    | content => .error (.problem (.missingContent content))
  | object ((name, j) :: rest) => do
    let a ← (← Variant.find variants name).decode j
    if rest.isEmpty then .ok a else .error .illFormed
  | _ => .error .illFormed

end Json

end Reenact
