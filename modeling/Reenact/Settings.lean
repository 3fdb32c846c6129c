/-
  Settings: the choices to make when a call is written out.
-/

namespace Reenact

/-- How a call is written out. -/
structure Settings where
  /-- Instances stand as variables that are bound from their debug ids; else as their paths. -/
  useInstanceIds : Bool := true
  /-- The remote of the call is a variable bound from its debug id; else its path. -/
  useRemoteId : Bool := true
  /-- Points in time are written as the present one; else as the captured one. -/
  useNowDateTime : Bool := true
  /-- The pairs of a table are sorted by their keys; else they stay in the captured order. -/
  sortTableKeys : Bool := false
deriving DecidableEq, Repr

/-- Settings under which no debug id is used. -/
def Settings.byPath : Settings := { useInstanceIds := false, useRemoteId := false }

end Reenact
