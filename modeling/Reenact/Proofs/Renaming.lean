/-
  Renaming of locals.

  A nested table or instance is named with a running number.  `LocalName.renumber` changes that
  number in a name and leaves names without one alone.  `Expr.rename`, `Stat.rename` and
  `WrittenArgument.rename` change the names in what an argument is written with.  The local of an
  argument itself has no running number, so it keeps its name, whatever its type is called.

  * `LocalName.renumber_injective`: numbers that stay apart keep names apart;
  * `Handles.refer_renamed`: an instance has or gets the same handle, but for the name.
-/
import Mathlib.Logic.Function.Basic
import Mathlib.Order.Monotone.Basic
import Reenact.Proofs.Names
import Reenact.Reconstruction

namespace Reenact

/-! ## Numbers in names -/

namespace LocalName

/-- The form, position and number of a nested table or instance. -/
abbrev Numbering := Kind × Nat × Nat

/-- The name of a nested table or instance. -/
def Numbering.text (s : Numbering) : String := ofNested s.1 s.2.1 s.2.2

theorem Numbering.text_injective : Function.Injective Numbering.text := by
  rintro ⟨k, p, m⟩ ⟨l, q, n⟩ h
  obtain ⟨rfl, rfl, rfl⟩ := ofNested_inj h
  rfl

/-- A name with its number changed, if it is that of a nested table or instance. -/
noncomputable def renumber (f : Nat → Nat) : String → String :=
  Function.extend Numbering.text (fun s => ofNested s.1 s.2.1 (f s.2.2)) id

theorem renumber_ofNested (f : Nat → Nat) (kind : Kind) (position number : Nat) :
    renumber f (ofNested kind position number) = ofNested kind position (f number) :=
  Numbering.text_injective.extend_apply _ _ (kind, position, number)

theorem renumber_of_ne {f : Nat → Nat} {name : String}
    (h : ∀ kind position number, name ≠ ofNested kind position number) :
    renumber f name = name := by
  refine Function.extend_apply' _ _ _ ?_
  rintro ⟨s, hs⟩
  exact h _ _ _ hs.symm

theorem renumber_injective {f : Nat → Nat} (hf : Function.Injective f) :
    Function.Injective (renumber f) := by
  have hsplit : ∀ name : String, (∃ kind position number, name = ofNested kind position number) ∨
      ∀ kind position number, name ≠ ofNested kind position number := by
    intro name
    by_cases h : ∃ kind position number, name = ofNested kind position number
    · exact Or.inl h
    · simp only [not_exists] at h
      exact Or.inr h
  intro a b h
  rcases hsplit a with ⟨k, p, m, rfl⟩ | ha <;> rcases hsplit b with ⟨l, q, n, rfl⟩ | hb
  · rw [renumber_ofNested, renumber_ofNested] at h
    obtain ⟨rfl, rfl, hn⟩ := ofNested_inj h
    rw [hf hn]
  · rw [renumber_ofNested, renumber_of_ne hb] at h
    exact absurd h.symm (hb _ _ _)
  · rw [renumber_ofNested, renumber_of_ne ha] at h
    exact absurd h (ha _ _ _)
  · rwa [renumber_of_ne ha, renumber_of_ne hb] at h

/-- The numbers above `start` moved up by `gap`. -/
def shift (start gap n : Nat) : Nat := if n ≤ start then n else n + gap

theorem shift_of_le {start gap n : Nat} (h : n ≤ start) : shift start gap n = n := if_pos h

theorem shift_of_lt {start gap n : Nat} (h : start < n) : shift start gap n = n + gap :=
  if_neg (Nat.not_le_of_lt h)

theorem shift_strictMono (start gap : Nat) : StrictMono (shift start gap) := by
  intro m n h
  unfold shift
  split <;> split <;> omega

end LocalName

/-! ## Names in arguments -/

mutual

/-- An expression that an argument is written with, its names changed. -/
def Expr.rename (ρ : String → String) : Expr → Expr
  | .name n => .name (ρ n)
  | .table fields => .table (Field.renameAll ρ fields)
  | e => e

/-- A field, its names changed. -/
def Field.rename (ρ : String → String) : Field → Field
  | .keyed key value => .keyed (key.rename ρ) (value.rename ρ)
  | .named name value => .named name (value.rename ρ)
  | .positional value => .positional (value.rename ρ)

/-- Fields, their names changed. -/
def Field.renameAll (ρ : String → String) : List Field → List Field
  | [] => []
  | f :: rest => f.rename ρ :: Field.renameAll ρ rest

end

/-- A declaration of locals, its names changed. -/
def Stat.rename (ρ : String → String) : Stat → Stat
  | .localNames names values => .localNames (names.map ρ) (values.map (Expr.rename ρ))
  | s => s

/-- A drafted argument, the names that drafting gave changed; the name of its own local is none. -/
def Drafted.rename (ρ : String → String) : Drafted → Drafted
  | .bound name value => .bound name (value.rename ρ)
  | .handle name => .handle (ρ name)

/-- A written argument, the names that drafting gave changed. -/
def WrittenArgument.rename (ρ : String → String) (a : WrittenArgument) : WrittenArgument :=
  { a with
    outcome := a.outcome.map (Drafted.rename ρ)
    hoisted := a.hoisted.map (Stat.rename ρ) }

section
variable (ρ : String → String)

@[simp] theorem Stat.rename_localName (name : String) (value : Expr) :
    (Stat.localName name value).rename ρ = .localName (ρ name) (value.rename ρ) := rfl

/-- A value that takes an expression and nothing else has no names in it. -/
theorem Drafting.rename_of_form {scene : Scene} {v : Value} {e : Expr}
    (h : form scene v = .expr e) : e.rename ρ = e := by
  unfold form at h
  split at h <;> try (cases h <;> rfl)
  split at h <;> cases h
  rfl

end

/-! ## Handles -/

namespace Roster

variable {α : Type} {ρ : String → String}

theorem alterEntries_map_names (hρ : Function.Injective ρ) (name : String) (f : Option α → α) :
    ∀ entries : List (String × α), alterEntries (ρ name) f (entries.map (Prod.map ρ id)) =
      (alterEntries name f entries).map (Prod.map ρ id)
  | [] => rfl
  | (n, a) :: rest => by
    have hrest := alterEntries_map_names hρ name f rest
    by_cases hn : n = name
    · subst hn
      simp [alterEntries]
    · have hρn : ¬ ρ n = ρ name := fun h => hn (hρ h)
      simp [alterEntries, hn, hρn, hrest]

end Roster

namespace Handles

variable {ρ : String → String} {h h' : Handles}

/-- The second handles are the first ones under other names. -/
def Renamed (ρ : String → String) (h h' : Handles) : Prop :=
  h'.entries = h.entries.map (Prod.map ρ id)

theorem Renamed.names (hr : Renamed ρ h h') : h'.names = h.names.map ρ := by
  rw [Roster.names, hr, List.map_map, Roster.names, List.map_map]; rfl

theorem Renamed.values (hr : Renamed ρ h h') : h'.values = h.values := by
  rw [Roster.values, hr, List.map_map]; rfl

theorem Renamed.size (hr : Renamed ρ h h') : h'.size = h.size := by
  rw [Roster.size, hr, List.length_map]; rfl

theorem Renamed.truncate (hr : Renamed ρ h h') (n : Nat) :
    Renamed ρ (h.truncate n) (h'.truncate n) :=
  (congrArg (List.take n) hr).trans List.map_take.symm

theorem Renamed.nameFor? (hr : Renamed ρ h h') (id : String) :
    h'.nameFor? id = (h.nameFor? id).map ρ := by
  rw [Handles.nameFor?, hr, List.find?_map, Option.map_map, Handles.nameFor?, Option.map_map]
  rfl

/-- **An instance has a handle in both, or gets one in both.** -/
theorem refer_renamed (hρ : Function.Injective ρ) (hr : Renamed ρ h h') (name : String)
    (i : Instance) : (h'.refer (ρ name) i).1 = ρ (h.refer name i).1 ∧
      Renamed ρ (h.refer name i).2 (h'.refer (ρ name) i).2 := by
  have hfound := hr.nameFor? i.debugId
  cases hn : h.nameFor? i.debugId with
  | some known =>
    rw [hn] at hfound
    rw [refer, hfound, refer, hn]
    exact ⟨rfl, hr⟩
  | none =>
    rw [hn] at hfound
    rw [refer, hfound, refer, hn]
    refine ⟨rfl, ?_⟩
    change Roster.alterEntries _ _ h'.entries = _
    rw [hr]
    exact Roster.alterEntries_map_names hρ name _ _

end Handles

end Reenact
