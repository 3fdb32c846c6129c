/-
  Reconstructions: captured calls written out as snippets.

  A snippet has a heading; if it has handles, the function that resolves them, a comment with the
  path of each, and the statement that binds them; the locals of the arguments; and the call.  An
  argument that cannot be written is passed as a local with the value nil and the reason in a
  comment, so the call keeps its number of arguments and a snippet never fails.  A call without a
  script is not written out; one line says so.

  * `reconstruct?` makes the parts of a snippet, if the call has a script;
  * `Reconstruction.text` writes them, `Reconstruction.events` are the events of doing so;
  * `writeCall` does all of it for any call.
-/
import Reenact.Call
import Reenact.Instance.Path
import Reenact.Resolution
import Reenact.Syntax.Layout
import Reenact.Trace

namespace Reenact

/-- The first line of every snippet. -/
def heading : String := "-- Pseudo code generated by remospy's AST renderer"

/-- All that is written for a call without a script. -/
def unattributed : String := "-- Call could not be attributed to a script"

/-- The handle of a remote that has no other. -/
def remoteHandle : String := "RemoteInstance"

/-- The local for the reply to a call. -/
def replyName : String := "ReturnValue"

/-! ## Arguments -/

/-- An argument of a snippet. -/
structure WrittenArgument where
  position : Nat
  kind : Kind
  /-- What was drafted, or why nothing was. -/
  outcome : Except Malformed Drafted
  /-- The locals of the tables inside it. -/
  hoisted : List Stat

namespace WrittenArgument

/-- The name by which the call passes the argument. -/
def name (a : WrittenArgument) : String :=
  match a.outcome with
  | .ok drafted => drafted.name
  | .error _ => LocalName.ofFailed a.position

/-- The comment that stands for an argument that cannot be written. -/
def placeholder (cause : Malformed) : Expr := .raw s!"nil --[[ {cause.message} ]]"

/-- The locals of the argument, in the order in which they are declared. -/
def locals (a : WrittenArgument) : List Stat :=
  match a.outcome with
  | .ok drafted => a.hoisted ++ drafted.locals
  | .error cause => [.localName (LocalName.ofFailed a.position) (placeholder cause)]

def event (a : WrittenArgument) : Event :=
  match a.outcome with
  | .ok drafted => .argumentWritten a.position a.kind drafted.name
  | .error cause => .argumentRefused a.position cause

end WrittenArgument

/-- Writes the argument at a position.  The locals of the tables inside it are taken from the draft
    once it is done; there are none to take where it fails. -/
def writeArgument (scene : Scene) (position : Nat) (v : Value) (d : Draft) :
    WrittenArgument × Draft :=
  match d.argument scene position v with
  | (.ok drafted, after) =>
    let (hoisted, rest) := after.takeHoisted
    (⟨position, v.kind, .ok drafted, hoisted⟩, rest)
  | (.error cause, after) => (⟨position, v.kind, .error cause, []⟩, after)

/-- Writes arguments one after another, the first of them at a position. -/
def writeArguments (scene : Scene) : (position : Nat) → List Value → Draft →
    List WrittenArgument × Draft
  | _, [], d => ([], d)
  | position, v :: rest, d =>
    let (a, d) := writeArgument scene position v d
    let (as, d) := writeArguments scene (position + 1) rest d
    (a :: as, d)

/-! ## Snippets -/

/-- The parts of a snippet. -/
structure Reconstruction where
  remotePath : String
  arguments : List WrittenArgument
  handles : Handles
  /-- The call itself. -/
  call : Stat

/-- The call of a method of the remote, with a local for the reply if it has one. -/
def callStatement (kind : RemoteKind) (target : Expr) (arguments : List String) : Stat :=
  let call := Expr.methodCall target kind.method (arguments.map .name)
  match kind.exchange with
  | .fire => .call call
  | .invoke => .localName replyName call

/-- The expression for the remote of a call, and the handles with one for it if it needs one. -/
def remoteTarget (scene : Scene) (remote : Instance) (handles : Handles) : Expr × Handles :=
  if scene.settings.useRemoteId then
    let (name, handles) := handles.refer remoteHandle remote
    (.name name, handles)
  else (.raw (scene.locate remote), handles)

/-- The parts of the snippet of a call, if it has a script. -/
def reconstruct? (scene : Scene) (c : Call) : Option Reconstruction :=
  if c.script.isNone then none
  else
    let (arguments, draft) := writeArguments scene 1 c.arguments {}
    let (target, handles) := remoteTarget scene c.remote draft.handles
    some
      { remotePath := scene.locate c.remote
        arguments
        handles
        call := callStatement c.remoteKind target (arguments.map (·.name)) }

namespace Reconstruction

/-- The locals of all arguments. -/
def locals (r : Reconstruction) : List Stat := r.arguments.flatMap (·.locals)

/-- The comment with the path of a handle. -/
def handleComment (scene : Scene) (l : Layout) (entry : String × Instance) : List Char :=
  "-- ".toList ++ entry.1.toList ++ " = ".toList ++ (scene.locate entry.2).toList ++
    l.lineBreak.toList

/-- The part of a snippet that binds its handles; nothing if it has none. -/
def preamble (scene : Scene) (l : Layout) (h : Handles) : List Char :=
  if h.isEmpty then []
  else
    Resolution.function.write l ++ l.lineBreak.toList ++
      h.entries.flatMap (handleComment scene l) ++
      (Resolution.bind h).write l ++ l.lineBreak.toList

/-- The part of a snippet that declares the locals; nothing if it has none. -/
def localsText (l : Layout) (locals : List Stat) : List Char :=
  if locals.isEmpty then [] else Stat.writeAll l locals ++ l.lineBreak.toList

/-- The text of a snippet. -/
def write (scene : Scene) (l : Layout) (r : Reconstruction) : List Char :=
  heading.toList ++ l.lineBreak.toList ++ l.lineBreak.toList ++ preamble scene l r.handles ++
    localsText l r.locals ++ r.call.write l

/-- The text of a snippet. -/
def text (scene : Scene) (l : Layout) (r : Reconstruction) : String :=
  String.ofList (r.write scene l)

/-- The events of writing a snippet. -/
def events (scene : Scene) (l : Layout) (r : Reconstruction) : List Event :=
  .started r.remotePath r.arguments.length ::
    (r.arguments.map (·.event) ++
      (r.handles.entries.map fun entry => .handleBound entry.1 entry.2.debugId) ++
      [.finished (r.text scene l).utf8ByteSize])

end Reconstruction

/-- A call written out, and the events of doing so. -/
def writeCall (scene : Scene) (l : Layout) (c : Call) : String × List Event :=
  match reconstruct? scene c with
  | none => (unattributed, [.skipped (scene.locate c.remote)])
  | some r => (r.text scene l, r.events scene l)

/-- A call written out, with its events added to a record. -/
def Recorder.writeCall (r : Recorder) (scene : Scene) (l : Layout) (c : Call) :
    String × Recorder :=
  let (text, events) := Reenact.writeCall scene l c
  (text, r.recordAll events)

/-- A call written out with paths from the scene and the default layout. -/
def renderCall (settings : Settings) (c : Call) : String :=
  (writeCall ⟨settings, Instance.path⟩ {} c).1

end Reenact
