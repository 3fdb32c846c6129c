/-
  Instances: the objects of the scene, as they were when a call was captured.

  An instance is known by its debug id.  It comes with the objects above it, nearest first; the last
  of them is the root of the scene, unless the instance was detached.
-/

namespace Reenact

/-- Where an object sits in the scene, as far as its path is not made from its name. -/
inductive Role where
  | plain
  /-- The root of the scene, written `game` -/
  | dataModel
  /-- Written `workspace` -/
  | workspace
  /-- A service of the root, reached with `:GetService` -/
  | service
  /-- The object of the local player -/
  | localPlayer
deriving DecidableEq, Repr

/-- One object by itself. -/
structure Node where
  debugId : String
  name : String
  className : String
  role : Role := .plain
deriving DecidableEq, Repr

/-- An object and the objects above it, nearest first. -/
structure Instance extends Node where
  ancestors : List Node := []
deriving DecidableEq, Repr

namespace Instance

/-- The instance above, if there is one. -/
def parent? (i : Instance) : Option Instance :=
  match i.ancestors with
  | [] => none
  | node :: above => some { node with ancestors := above }

/-- A node below a parent, or by itself. -/
def ofParent? (node : Node) : Option Instance → Instance
  | none => { node with ancestors := [] }
  | some parent => { node with ancestors := parent.toNode :: parent.ancestors }

@[simp] theorem parent?_ofParent? (node : Node) (parent : Option Instance) :
    (ofParent? node parent).parent? = parent := by
  cases parent <;> rfl

@[simp] theorem toNode_ofParent? (node : Node) (parent : Option Instance) :
    (ofParent? node parent).toNode = node := by
  cases parent <;> rfl

theorem ofParent?_parent? (i : Instance) : ofParent? i.toNode i.parent? = i := by
  rcases i with ⟨node, _ | ⟨_, _⟩⟩ <;> rfl

/-- The root of the scene. -/
def game : Instance :=
  { debugId := "game", name := "Game", className := "DataModel", role := .dataModel }

end Instance

end Reenact
