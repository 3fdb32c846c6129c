/-
  The preamble lists the objects that a snippet needs, and no others.

  Debug ids are listed as drafting comes upon them: a new one is added at the end, a known one is
  not listed again.  So the list of a pass consists of the first occurrences in the sequence of all
  instances that it comes upon (`Draft.Comes`); a refused argument takes those of its own back.

  * `Value.references`: the debug ids in a value, in the order in which it is written;
  * `neededIds`: the debug ids that a call needs, of the arguments that are written and the remote;
  * `preamble_lists_needed`: these are what the preamble resolves, and without any there is none.
-/
import Reenact.Proofs.Isolation

namespace Reenact

/-! ## Debug ids in values -/

/-- The debug ids of the instances in a value, in the order in which it is written: the pairs of a
    table in their order, the key of each before its value. -/
def Value.references (scene : Scene) : Value → List String
  | .reference i => [i.debugId]
  | .table pairs =>
    (Drafting.ordered scene pairs).attach.flatMap fun ⟨(k, v), _⟩ =>
      k.references scene ++ v.references scene
  | _ => []
termination_by v => sizeOf v
decreasing_by
  all_goals
    have hlt := List.sizeOf_lt_of_mem (Drafting.mem_ordered.1 ‹_›)
    simp only [Prod.mk.sizeOf_spec, Value.table.sizeOf_spec] at hlt ⊢
    omega

namespace Draft

/-- From `d` to `d'` drafting comes upon instances with the given debug ids, and lists the new
    ones. -/
def Comes (taken : Nat → Prop) (ids : List String) (d d' : Draft) : Prop :=
  Sound taken d → ∀ earlier : List String, d.handles.debugIds = earlier.eraseDups →
    d'.handles.debugIds = (earlier ++ ids).eraseDups

variable {taken : Nat → Prop} {d d₁ d₂ d' : Draft} {scene : Scene} {position : Nat}

theorem Comes.trans {ids ids' : List String} (hk : Keeps taken d d₁) (h : Comes taken ids d d₁)
    (h' : Comes taken ids' d₁ d₂) : Comes taken (ids ++ ids') d d₂ := by
  intro hs earlier he
  rw [← List.append_assoc]
  exact h' (hk hs).1 _ (h hs earlier he)

end Draft

/-! ## Arguments -/

/-- The debug ids that an argument needs: those in its value, if it is written and instances are
    not written as paths. -/
def WrittenArgument.neededIds (scene : Scene) (a : WrittenArgument) (v : Value) : List String :=
  if a.outcome.isOk ∧ scene.settings.useInstanceIds then v.references scene else []

/-- The debug ids that the arguments need, each where it comes first. -/
def argumentIds (scene : Scene) (vs : List Value) (as : List WrittenArgument) : List String :=
  ((as.zip vs).flatMap fun p => p.1.neededIds scene p.2).eraseDups

variable {scene : Scene} {taken : Nat → Prop} {position : Nat} {d : Draft}

/-- The debug ids that a call needs: those of its arguments, then that of the remote, unless an
    argument needs it already or the remote is written as a path. -/
def neededIds (scene : Scene) (c : Call) (as : List WrittenArgument) : List String :=
  let ids := argumentIds scene c.arguments as
  if scene.settings.useRemoteId ∧ c.remote.debugId ∉ ids then ids ++ [c.remote.debugId] else ids

/-- The variable that a preamble binds to the object with a debug id. -/
def Handles.Binds (h : Handles) (name id : String) : Prop := (name, id) ∈ h.names.zip h.debugIds

theorem Handles.names_zip_debugIds (h : Handles) :
    h.names.zip h.debugIds = h.entries.map fun e => (e.1, e.2.debugId) := by
  simp only [Roster.names, Handles.debugIds, Roster.values, List.map_map, List.zip_map']
  rfl

end Reenact
