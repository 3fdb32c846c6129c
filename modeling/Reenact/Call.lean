/-
  Captured calls, and the filter on the remotes that they were made on.
-/
import Reenact.Value.Basic

namespace Reenact

/-- The class of a remote. -/
inductive RemoteKind where
  | remoteEvent | remoteFunction | bindableEvent | bindableFunction
deriving DecidableEq, Repr

/-- Whether a call has a reply. -/
inductive Exchange where
  /-- Without one -/
  | fire
  /-- With one -/
  | invoke
deriving DecidableEq, Repr

namespace RemoteKind

def name : RemoteKind → String
  | remoteEvent => "RemoteEvent" | remoteFunction => "RemoteFunction"
  | bindableEvent => "BindableEvent" | bindableFunction => "BindableFunction"

def exchange : RemoteKind → Exchange
  | remoteEvent | bindableEvent => .fire
  | remoteFunction | bindableFunction => .invoke

/-- The method by which the script made the call. -/
def method : RemoteKind → String
  | remoteEvent => "FireServer" | remoteFunction => "InvokeServer"
  | bindableEvent => "Fire" | bindableFunction => "Invoke"

end RemoteKind

def Exchange.name : Exchange → String
  | fire => "fire" | invoke => "invoke"

/-- Who made a call. -/
inductive Caller where
  /-- A script of the game -/
  | game
  /-- Code brought in by the user -/
  | executor
deriving DecidableEq, Repr

/-- A captured call. -/
structure Call where
  /-- The script that made the call, if it is known -/
  script : Option Instance := none
  arguments : List Value := []
  remote : Instance
  remoteKind : RemoteKind
  /-- The reply, if one was seen -/
  returnValue : Option Value := none
  caller : Caller := .game

/-- The kinds of remotes whose calls are kept and shown. -/
structure Filter where
  remoteEvent : Bool := true
  remoteFunction : Bool := true
  bindableEvent : Bool := false
  bindableFunction : Bool := false
deriving DecidableEq, Repr

namespace Filter

/-- The filter that lets every kind pass. -/
def all : Filter := ⟨true, true, true, true⟩

def allows (f : Filter) : RemoteKind → Bool
  | .remoteEvent => f.remoteEvent
  | .remoteFunction => f.remoteFunction
  | .bindableEvent => f.bindableEvent
  | .bindableFunction => f.bindableFunction

end Filter

end Reenact
