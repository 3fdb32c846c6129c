/-
  Handles: the variables that stand for instances in a snippet, in the order in which they were
  given out.  The instance of a handle is found when the snippet runs, by its debug id.
-/
import Reenact.Roster
import Reenact.Instance.Basic

namespace Reenact

/-- Variables and the instances that they stand for. -/
abbrev Handles := Roster Instance

namespace Handles

/-- The first variable that stands for an instance with the given debug id. -/
def nameFor? (h : Handles) (debugId : String) : Option String :=
  (h.entries.find? fun entry => entry.2.debugId = debugId).map Prod.fst

/-- The debug ids, in order. -/
def debugIds (h : Handles) : List String := h.values.map (·.debugId)

/-- A name for an instance: the one it has by its debug id, else the given one, which it gets. -/
def refer (h : Handles) (name : String) (i : Instance) : String × Handles :=
  match h.nameFor? i.debugId with
  | some known => (known, h)
  | none => (name, h.put name i)

theorem find?_alterEntries (p : Instance → Bool) (name : String) (i : Instance)
    {entries : List (String × Instance)} (h : entries.find? (fun e => p e.2) = none) (hi : p i) :
    (Roster.alterEntries name (fun _ => i) entries).find? (fun e => p e.2) = some (name, i) := by
  induction entries with
  | nil => simp [Roster.alterEntries, hi]
  | cons e rest ih =>
    simp only [List.find?_eq_none, List.mem_cons, forall_eq_or_imp] at h
    by_cases hn : e.1 = name
    · subst hn
      simp [Roster.alterEntries, hi]
    · have := ih (List.find?_eq_none.2 h.2)
      simp [Roster.alterEntries, hn, h.1, this]

/-- The name for an instance is the one that it is found under from then on. -/
theorem nameFor?_refer (h : Handles) (name : String) (i : Instance) :
    nameFor? (h.refer name i).2 i.debugId = some (h.refer name i).1 := by
  unfold refer
  split
  · assumption
  · rename_i hn
    have := find?_alterEntries (fun j => j.debugId = i.debugId) name i
      (by simpa [nameFor?] using hn) (by simp)
    simp [nameFor?, Roster.put, Roster.alter, this]

end Handles

end Reenact
