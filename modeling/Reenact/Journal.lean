/-
  Journals: the calls that were kept, by the remote they were made on.

  Remotes are told apart by their debug ids and stand in the order of their first call, each as it
  was then.  A call is kept if it has a script and its kind of remote passes the filter; a change of
  the filter hides remotes, but forgets no call.
-/
import Reenact.Call
import Reenact.Roster

namespace Reenact

/-- The calls on one remote, oldest first, with the remote and its kind as of the first. -/
structure History where
  remote : Instance
  kind : RemoteKind
  calls : List Call

/-- The history with one more call; a first call begins one. -/
def History.extend (c : Call) : Option History → History
  | none => ⟨c.remote, c.remoteKind, [c]⟩
  | some h => { h with calls := h.calls ++ [c] }

/-- Kept calls by the debug id of their remote. -/
structure Journal where
  filter : Filter := {}
  histories : Roster History := .empty

namespace Journal

/-- A filter keeps a call. -/
def keeps (f : Filter) (c : Call) : Bool := f.allows c.remoteKind && c.script.isSome

/-- The journal with another filter. -/
def setFilter (j : Journal) (f : Filter) : Journal := { j with filter := f }

/-- Adds a call if it is kept, and says whether it was. -/
def record (j : Journal) (c : Call) : Bool × Journal :=
  if keeps j.filter c then
    (true, { j with histories := j.histories.alter c.remote.debugId (History.extend c) })
  else (false, j)

/-- Adds those of the calls that are kept, one after another. -/
def recordAll (j : Journal) (calls : List Call) : Journal :=
  calls.foldl (fun j c => (j.record c).2) j

/-- The remotes whose kind passes the filter. -/
def visible (j : Journal) : List History := j.histories.values.filter (j.filter.allows ·.kind)

/-- The calls on a remote. -/
def callsFor (j : Journal) (debugId : String) : List Call :=
  ((j.histories.get? debugId).map (·.calls)).getD []

/-- The number of kept calls. -/
def size (j : Journal) : Nat := j.histories.values.foldl (fun n h => n + h.calls.length) 0

def isEmpty (j : Journal) : Bool := j.histories.isEmpty

/-- The journal without its calls. -/
def clear (j : Journal) : Journal := { j with histories := .empty }

end Journal

end Reenact
