/-
  Traces: what happened while calls were written out.

  Events come in the order in which things happen; a recorder keeps the first ones, up to a limit if
  it has one.
-/
import Reenact.Argument.Draft

namespace Reenact

/-- Something that happened while a call was written out. -/
inductive Event where
  /-- A call with a script was begun -/
  | started (remotePath : String) (arguments : Nat)
  /-- The argument at a position is passed by a name -/
  | argumentWritten (position : Nat) (kind : Kind) (name : String)
  /-- The argument at a position was refused -/
  | argumentRefused (position : Nat) (cause : Malformed)
  /-- A handle was bound -/
  | handleBound (name debugId : String)
  /-- A call without a script was passed over -/
  | skipped (remotePath : String)
  /-- A call was written out, in so many bytes of UTF-8 -/
  | finished (bytes : Nat)
deriving DecidableEq, Repr

/-- A text with spaces behind it up to a width. -/
def padded (width : Nat) (text : String) : String :=
  text ++ String.ofList (List.replicate (width - text.length) ' ')

/-- An event as a line of a log. -/
def Event.line : Event → String
  | started path arguments => s!">>> PASS {path}  args={arguments}"
  | argumentWritten position kind name =>
    "  arg " ++ padded 3 (toString position) ++ padded 9 kind.tag ++ "-> " ++ name
  | argumentRefused position cause =>
    "  arg " ++ padded 3 (toString position) ++ "!! " ++ cause.message
  | handleBound name debugId => s!"  +++ {name} = {debugId}"
  | skipped path => s!"--- {path}: no originating script, skipped"
  | finished bytes => s!"<<< PASS {bytes} bytes"

/-- A record of events. -/
structure Recorder where
  /-- The most events that are kept; without it all are. -/
  limit : Option Nat := none
  events : List Event := []

namespace Recorder

/-- Adds an event, if there is room for it. -/
def record (r : Recorder) (e : Event) : Recorder :=
  if r.limit.any (· ≤ r.events.length) then r else { r with events := r.events ++ [e] }

/-- Adds events one after another. -/
def recordAll (r : Recorder) (events : List Event) : Recorder := events.foldl record r

end Recorder

end Reenact
