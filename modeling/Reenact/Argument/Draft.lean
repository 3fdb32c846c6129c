/-
  Drafting the arguments of a call: an expression for each, and the locals that it needs.

  A scalar or a value of the host is one expression.  A table inside a table gets a local of its own
  that is declared before the one it is in, so that no constructor contains another.  An instance is
  a handle, or with `useInstanceIds` off, its path.  A table is refused if it has a nil or a NaN for
  a key, or if tables are nested too deeply; what was drafted of that argument is then dropped.

  * `Draft` is what has been drafted so far: the handles, the locals not yet taken, and how many
    nested names were given out;
  * `Drafting.form` says what it takes to write a value, `Drafting.table` writes a constructor;
  * `Draft.argument` drafts one argument.
-/
import Reenact.Argument.LocalName
import Reenact.Argument.Constructor
import Reenact.Handles
import Reenact.Syntax.Tree
import Reenact.Literal.Name
import Reenact.Value.KeyOrder

namespace Reenact

/-- Why an argument cannot be written. -/
inductive Malformed where
  /-- A key is nil -/
  | nilKey
  /-- A key is a NaN -/
  | nanKey
  /-- More tables are nested than are followed -/
  | tooDeep
deriving DecidableEq, Repr

/-- How many nested tables are followed. -/
def deepestTable : Nat := 200

def Malformed.message : Malformed → String
  | nilKey => "table key is nil"
  | nanKey => "table key is NaN"
  | tooDeep => s!"tables nested deeper than {deepestTable} levels"

/-- What has been drafted so far. -/
structure Draft where
  handles : Handles := .empty
  /-- The locals of nested tables that were not taken yet, in order. -/
  hoisted : List Stat := []
  /-- How many nested names were given out. -/
  nestedNames : Nat := 0

/-- A step of drafting: it changes the draft, also where it fails. -/
abbrev Drafting (α : Type) := EStateM Malformed Draft α

/-- What is the same for all arguments of a call. -/
structure Scene where
  settings : Settings
  /-- The path of an instance, as source text -/
  locate : Instance → String

namespace Drafting

variable (scene : Scene) (position : Nat)

/-- A new name for a table or instance inside the argument. -/
def nestedName (kind : Kind) : Drafting String :=
  modifyGet fun d =>
    let number := d.nestedNames + 1
    (LocalName.ofNested kind position number, { d with nestedNames := number })

/-- A handle for an instance: the one that it has, else the given name. -/
def refer (name : String) (i : Instance) : Drafting String :=
  modifyGet fun d =>
    let (name, handles) := d.handles.refer name i
    (name, { d with handles })

/-- Declares the local of a nested table. -/
def hoist (name : String) (table : Expr) : Drafting Unit :=
  modify fun d => { d with hoisted := d.hoisted ++ [.localName name table] }

/-- What it takes to write a value. -/
inductive Form where
  /-- An expression, and nothing else -/
  | expr (e : Expr)
  /-- A constructor with a field for each pair -/
  | table (pairs : List (Value × Value))
  /-- A handle -/
  | handle (i : Instance)

/-- What it takes to write a value. -/
def form : Value → Form
  | .nil => .expr .nil
  | .boolean b => .expr (.boolean b)
  | .number x => .expr (.ofNumber x)
  | .text s => .expr (.ofText s)
  | .table pairs => .table pairs
  | .reference i =>
    if scene.settings.useInstanceIds then .handle i else .expr (.raw (scene.locate i))
  | .dateTime millis => raw (Constructor.dateTime scene.settings millis)
  | .pathWaypoint p action => raw (Constructor.pathWaypoint p action)
  | .ray origin direction => raw (Constructor.ray origin direction)
  | .region center size => raw (Constructor.region center size)
  | .colorSequence keypoints => raw (Constructor.colorSequence keypoints)
  | .numberSequence keypoints => raw (Constructor.numberSequence keypoints)
  | .colorKeypoint k => raw (Constructor.colorKeypoint k)
  | .numberKeypoint k => raw (Constructor.numberKeypoint k)
  | .other typeName source => raw (Constructor.other typeName source)
where
  raw (source : List Char) : Form := .expr (.raw (String.ofList source))

/-- How the key of a pair is written. -/
inductive KeyForm where
  /-- Not at all: it is the number of the next position -/
  | positional
  /-- As a name -/
  | named (name : String)
  /-- As an expression in brackets -/
  | keyed

/-- The form of a key where `next` is the next position. -/
def keyForm (next : Nat) : Value → Except Malformed KeyForm
  | .nil => .error .nilKey
  | .number x =>
    if x.isNaN then .error .nanKey
    else if x.isNat next then .ok .positional else .ok .keyed
  | .text s => if isName s then .ok (.named s) else .ok .keyed
  | _ => .ok .keyed

/-- The fields for pairs, from the position `next` on. -/
def fields (value : Value → Drafting Expr) : (next : Nat) → List (Value × Value) →
    Drafting (List Field)
  | _, [] => pure []
  | next, (k, v) :: rest =>
    match keyForm next k with
    | .error e => throw e
    | .ok .positional => do
      let written ← value v
      return .positional written :: (← fields value (next + 1) rest)
    | .ok (.named name) => do
      let written ← value v
      return .named name written :: (← fields value next rest)
    | .ok .keyed => do
      let key ← value k
      let written ← value v
      return .keyed key written :: (← fields value next rest)

/-- The pairs of a table in the order in which they are written. -/
def ordered (pairs : List (Value × Value)) : List (Value × Value) :=
  if scene.settings.sortTableKeys then Value.sortPairs pairs else pairs

/-- A table constructor.  `room` is how many nested tables are still followed, this one included. -/
def table : (room : Nat) → List (Value × Value) → Drafting Expr
  | 0, _ => throw .tooDeep
  | room + 1, pairs =>
    .table <$> fields (fun v =>
      match form scene v with
      | .expr e => pure e
      | .table inner => do
        let constructor ← table room inner
        let name ← nestedName position .table
        hoist name constructor
        return .name name
      | .handle i => do
        let name ← nestedName position .reference
        .name <$> refer name i) 1 (ordered scene pairs)

end Drafting

/-- A drafted argument. -/
inductive Drafted where
  /-- A local with a value -/
  | bound (name : String) (value : Expr)
  /-- A handle -/
  | handle (name : String)

/-- The name by which the call passes the argument. -/
def Drafted.name : Drafted → String
  | bound name _ | handle name => name

/-- The local of the argument, if it has one. -/
def Drafted.locals : Drafted → List Stat
  | bound name value => [.localName name value]
  | handle _ => []

namespace Drafting

variable (scene : Scene) (position : Nat)

/-- Drafts the argument at a position. -/
def argument (v : Value) : Drafting Drafted :=
  match form scene v with
  | .expr e => pure (.bound (LocalName.ofArgument v position) e)
  | .table pairs =>
    .bound (LocalName.ofArgument v position) <$> table scene position deepestTable pairs
  | .handle i => .handle <$> refer (LocalName.ofArgument v position) i

end Drafting

namespace Draft

/-- Drafts the argument at a position.  If that fails, the handles and locals that came with it are
    dropped again; the numbers of its nested names stay used. -/
def argument (scene : Scene) (position : Nat) (v : Value) (d : Draft) :
    Except Malformed Drafted × Draft :=
  match (Drafting.argument scene position v).run d with
  | .ok drafted after => (.ok drafted, after)
  | .error e after =>
    (.error e,
      { after with
        handles := after.handles.truncate d.handles.size
        hoisted := after.hoisted.take d.hoisted.length })

/-- The locals of nested tables, and the draft without them. -/
def takeHoisted (d : Draft) : List Stat × Draft := (d.hoisted, { d with hoisted := [] })

end Draft

end Reenact
