/-
  Handles keep their instances.

  A draft is sound if its names were given out by drafting: its handles are named after arguments,
  each at most once, or have numbers not above that of the names given out so far, and so do its
  hoisted locals; no two handles have the same debug id.  Then a new name is fresh, so that drafting
  only adds handles at the end (`Draft.Sound.argument`), and what is dropped when an argument is
  refused is what was added for it (`Draft.Sound.argument_refused`).
-/
import Mathlib.Data.List.Nodup
import Reenact.Proofs.Drafting
import Reenact.Proofs.Names

namespace Reenact

/-- The names that a statement declares. -/
def Stat.declared : Stat → List String
  | .localNames names _ => names
  | .function (some (.name name)) true _ _ => [name]
  | _ => []

@[simp] theorem Stat.declared_localName (name : String) (value : Expr) :
    (Stat.localName name value).declared = [name] := rfl

namespace Roster

variable {α : Type}

theorem alterEntries_of_not_mem {name : String} {f : Option α → α} :
    ∀ {entries : List (String × α)}, name ∉ entries.map Prod.fst →
      alterEntries name f entries = entries ++ [(name, f none)]
  | [], _ => rfl
  | (n, a) :: rest, h => by
    simp only [List.map_cons, List.mem_cons, not_or] at h
    rw [alterEntries, if_neg (Ne.symm h.1), alterEntries_of_not_mem h.2]; rfl

theorem entries_put_of_not_mem {r : Roster α} {name : String} (h : name ∉ r.names) (a : α) :
    (r.put name a).entries = r.entries ++ [(name, a)] :=
  alterEntries_of_not_mem h

theorem ext_entries {r s : Roster α} (h : r.entries = s.entries) : r = s := by
  cases r; cases s; cases h; rfl

theorem truncate_of_prefix {r s : Roster α} (h : r.entries <+: s.entries) :
    s.truncate r.size = r :=
  ext_entries (List.prefix_iff_eq_take.1 h).symm

theorem lookup_of_mem {name : String} {a : α} : ∀ {entries : List (String × α)},
    (entries.map Prod.fst).Nodup → (name, a) ∈ entries → entries.lookup name = some a
  | [], _, h => by cases h
  | (n, b) :: rest, hn, h => by
    obtain ⟨hfirst, hrest⟩ := List.nodup_cons.1 hn
    rw [lookup_cons]
    rcases List.mem_cons.1 h with he | hr
    · cases he; exact if_pos rfl
    · have hne : name ≠ n := fun he => hfirst (List.mem_map.2 ⟨_, hr, he⟩)
      rw [if_neg hne, lookup_of_mem hrest hr]

theorem get?_of_mem {r : Roster α} {name : String} {a : α} (h : (name, a) ∈ r.entries) :
    r.get? name = some a :=
  lookup_of_mem r.names_nodup h

end Roster

namespace Handles

theorem nameFor?_eq_none {h : Handles} {id : String} : h.nameFor? id = none ↔ id ∉ h.debugIds := by
  simp [nameFor?, debugIds, Roster.values]

/-- A name stands for an instance with a debug id. -/
def Names (h : Handles) (name id : String) : Prop := ∃ i, (name, i) ∈ h.entries ∧ i.debugId = id

theorem names_of_nameFor? {h : Handles} {name id : String} (hn : h.nameFor? id = some name) :
    h.Names name id := by
  obtain ⟨⟨n, i⟩, he, rfl⟩ := Option.map_eq_some_iff.1 hn
  exact ⟨i, List.mem_of_find?_eq_some he, by simpa using List.find?_some he⟩

theorem Names.mono {h h' : Handles} (hp : h.entries <+: h'.entries) {name id : String}
    (hn : h.Names name id) : h'.Names name id := by
  obtain ⟨i, hi, hid⟩ := hn
  exact ⟨i, hp.subset hi, hid⟩

theorem names_refer (h : Handles) (name : String) (i : Instance) :
    (h.refer name i).2.Names (h.refer name i).1 i.debugId :=
  names_of_nameFor? (nameFor?_refer h name i)

/-- Referring to an instance changes nothing, or adds a handle for it at the end. -/
theorem refer_entries {h : Handles} {name : String} (hn : name ∉ h.names) (i : Instance) :
    (h.refer name i).2.entries = h.entries ∨
      i.debugId ∉ h.debugIds ∧ (h.refer name i).2.entries = h.entries ++ [(name, i)] := by
  unfold refer
  split
  · exact Or.inl rfl
  · rename_i hf
    exact Or.inr ⟨nameFor?_eq_none.1 hf, Roster.entries_put_of_not_mem hn i⟩

end Handles

namespace Draft

open LocalName (Shape)

/-! ## Growing drafts -/

/-- Handles and locals are added at the end, and names are given out. -/
structure Extends (d d' : Draft) : Prop where
  handles : d.handles.entries <+: d'.handles.entries
  hoisted : d.hoisted <+: d'.hoisted
  nestedNames : d.nestedNames ≤ d'.nestedNames

theorem Extends.refl (d : Draft) : d.Extends d :=
  ⟨List.prefix_refl _, List.prefix_refl _, Nat.le_refl _⟩

theorem Extends.trans {d d₁ d₂ : Draft} (h : d.Extends d₁) (h' : d₁.Extends d₂) : d.Extends d₂ :=
  ⟨h.handles.trans h'.handles, h.hoisted.trans h'.hoisted, Nat.le_trans h.nestedNames h'.nestedNames⟩

/-! ## Sound drafts -/

/-- A name that a handle can have: that of an argument at a position that is taken, or that of a
    nested instance with a number that was given out. -/
def IsHandleName (taken : Nat → Prop) (given : Nat) (name : String) : Prop :=
  (∃ p, taken p ∧ name = (Shape.argument .reference p).text) ∨
    ∃ p n, n ≤ given ∧ name = (Shape.nested .reference p n).text

/-- The names in a draft were given out by drafting, where the arguments at the positions that are
    `taken` had their own handles. -/
structure Sound (taken : Nat → Prop) (d : Draft) : Prop where
  handle_names : ∀ name ∈ d.handles.names, IsHandleName taken d.nestedNames name
  debugIds_nodup : d.handles.debugIds.Nodup
  hoisted_names : ∀ s ∈ d.hoisted, ∃ p n e, n ≤ d.nestedNames ∧
    s = .localName (Shape.nested .table p n).text e
  hoisted_nodup : (d.hoisted.flatMap Stat.declared).Nodup

variable {taken taken' : Nat → Prop} {d d' : Draft}

theorem IsHandleName.mono {m n : Nat} {name : String} (ht : ∀ p, taken p → taken' p) (hmn : m ≤ n)
    (h : IsHandleName taken m name) : IsHandleName taken' n name := by
  rcases h with ⟨p, hp, rfl⟩ | ⟨p, k, hk, rfl⟩
  · exact Or.inl ⟨p, ht p hp, rfl⟩
  · exact Or.inr ⟨p, k, Nat.le_trans hk hmn, rfl⟩

theorem sound_empty : Sound taken {} where
  handle_names := by simp [Roster.names]
  debugIds_nodup := by simp [Handles.debugIds, Roster.values]
  hoisted_names := by simp
  hoisted_nodup := by simp

theorem Sound.mono (h : Sound taken d) (ht : ∀ p, taken p → taken' p) : Sound taken' d where
  handle_names name hn := (h.handle_names name hn).mono ht (Nat.le_refl _)
  debugIds_nodup := h.debugIds_nodup
  hoisted_names := h.hoisted_names
  hoisted_nodup := h.hoisted_nodup

theorem Sound.give (h : Sound taken d) {n : Nat} (hn : d.nestedNames ≤ n) :
    Sound taken { d with nestedNames := n } where
  handle_names name hm := (h.handle_names name hm).mono (fun _ => id) hn
  debugIds_nodup := h.debugIds_nodup
  hoisted_names s hs := by
    obtain ⟨p, k, e, hk, rfl⟩ := h.hoisted_names s hs
    exact ⟨p, k, e, Nat.le_trans hk hn, rfl⟩
  hoisted_nodup := h.hoisted_nodup

theorem Sound.refer (h : Sound taken d) {name : String} (i : Instance)
    (hn : name ∉ d.handles.names) (hname : IsHandleName taken d.nestedNames name) :
    Sound taken { d with handles := (d.handles.refer name i).2 } ∧
      d.Extends { d with handles := (d.handles.refer name i).2 } := by
  rcases Handles.refer_entries hn i with he | ⟨hid, he⟩
  · rw [Roster.ext_entries he]
    exact ⟨h, Extends.refl d⟩
  · refine ⟨⟨?_, ?_, h.hoisted_names, h.hoisted_nodup⟩,
      ⟨he ▸ List.prefix_append _ _, List.prefix_refl _, Nat.le_refl _⟩⟩
    · simp only [Roster.names, he, List.map_append, List.mem_append]
      rintro m (hm | hm)
      · exact h.handle_names m hm
      · rw [List.map_singleton, List.mem_singleton] at hm
        exact hm ▸ hname
    · simp only [Handles.debugIds, Roster.values, he, List.map_append, List.map_cons, List.map_nil]
      exact List.nodup_append.2 ⟨h.debugIds_nodup, List.nodup_singleton _, by
        rintro a ha b hb rfl
        rw [List.mem_singleton] at hb
        exact hid (hb ▸ ha)⟩

theorem Sound.nested_not_mem (h : Sound taken d) {p n : Nat} (hn : d.nestedNames < n) :
    (Shape.nested .reference p n).text ∉ d.handles.names := by
  intro hm
  rcases h.handle_names _ hm with ⟨q, -, hq⟩ | ⟨q, m, hm, hq⟩
  · cases Shape.text_injective hq
  · cases Shape.text_injective hq
    omega

theorem Sound.argument_not_mem (h : Sound taken d) {p : Nat} (hp : ¬ taken p) :
    (Shape.argument .reference p).text ∉ d.handles.names := by
  intro hm
  rcases h.handle_names _ hm with ⟨q, ht, hq⟩ | ⟨q, m, hm, hq⟩
  · cases Shape.text_injective hq
    exact hp ht
  · cases Shape.text_injective hq

theorem Sound.table_not_mem (h : Sound taken d) {p n : Nat} (hn : d.nestedNames < n) :
    (Shape.nested .table p n).text ∉ d.hoisted.flatMap Stat.declared := by
  intro hm
  obtain ⟨s, hs, hm⟩ := List.mem_flatMap.1 hm
  obtain ⟨q, m, e, hle, rfl⟩ := h.hoisted_names s hs
  have hq := List.mem_singleton.1 hm
  cases Shape.text_injective hq
  omega

/-! ## Steps -/

theorem Sound.nestTable (h : Sound taken d) (position : Nat) (e : Expr) :
    Sound taken (d.nestTable position e).2 ∧ d.Extends (d.nestTable position e).2 := by
  have hg := h.give (Nat.le_succ d.nestedNames)
  refine ⟨⟨hg.handle_names, hg.debugIds_nodup, ?_, ?_⟩,
    ⟨List.prefix_refl _, List.prefix_append _ _, Nat.le_succ _⟩⟩
  · intro s hs
    rcases List.mem_append.1 hs with hs | hs
    · exact hg.hoisted_names s hs
    · exact ⟨position, _, e, Nat.le_refl _, List.mem_singleton.1 hs⟩
  · simp only [Draft.nestTable, List.flatMap_append, List.flatMap_cons, List.flatMap_nil,
      Stat.declared_localName, List.append_nil]
    refine List.nodup_append.2 ⟨h.hoisted_nodup, List.nodup_singleton _, ?_⟩
    rintro a ha b hb rfl
    rw [List.mem_singleton] at hb
    exact h.table_not_mem (Nat.lt_succ_self _) (hb ▸ ha)

theorem Sound.nestHandle (h : Sound taken d) (position : Nat) (i : Instance) :
    Sound taken (d.nestHandle position i).2 ∧ d.Extends (d.nestHandle position i).2 := by
  have hg := h.give (Nat.le_succ d.nestedNames)
  obtain ⟨hs, he⟩ := hg.refer i (h.nested_not_mem (p := position) (Nat.lt_succ_self _))
    (Or.inr ⟨position, _, Nat.le_refl _, rfl⟩)
  exact ⟨hs, he.handles, he.hoisted, Nat.le_trans (Nat.le_succ _) he.nestedNames⟩

theorem Sound.takeHoisted (h : Sound taken d) : Sound taken d.takeHoisted.2 where
  handle_names := h.handle_names
  debugIds_nodup := h.debugIds_nodup
  hoisted_names := by simp [Draft.takeHoisted]
  hoisted_nodup := by simp [Draft.takeHoisted]

/-- What every step of drafting keeps. -/
def Keeps (taken : Nat → Prop) (d d' : Draft) : Prop :=
  Sound taken d → Sound taken d' ∧ d.Extends d'

theorem Keeps.refl (d : Draft) : Keeps taken d d := fun h => ⟨h, Extends.refl d⟩

theorem Keeps.trans (d d₁ d₂ : Draft) (h : Keeps taken d d₁) (h' : Keeps taken d₁ d₂) :
    Keeps taken d d₂ := by
  intro hs
  obtain ⟨hs₁, he₁⟩ := h hs
  obtain ⟨hs₂, he₂⟩ := h' hs₁
  exact ⟨hs₂, he₁.trans he₂⟩

variable {scene : Scene} {position : Nat}

theorem table_keeps (room : Nat) (pairs : List (Value × Value)) :
    Drafting.Moves (Keeps taken) (Drafting.table scene position room pairs) :=
  Drafting.table_moves Keeps.refl Keeps.trans (fun _ e h => h.nestTable position e)
    (fun _ _ i h => h.nestHandle position i) room pairs

theorem nested_keeps (room : Nat) (v : Value) :
    Drafting.Moves (Keeps taken)
      (Drafting.nested scene position (Drafting.table scene position room) v) :=
  Drafting.nested_moves Keeps.refl Keeps.trans (fun _ e h => h.nestTable position e)
    (fun _ _ i h => h.nestHandle position i) (table_keeps room) v

/-- What is known of the values in a table, together with what every step keeps. -/
theorem fieldsOf_keeps {next : Nat} {pairs : List (Value × Value)} {d d' : Draft}
    {fs : List Field} {room : Nat} {Q : Value → Draft → Expr → Draft → Prop}
    (h : Drafting.FieldsOf (fun v d e d' => (Drafting.nested scene position
      (Drafting.table scene position room) v).run d = .ok e d' ∧ Q v d e d') next pairs d fs d') :
    Drafting.FieldsOf (fun v d e d' => Keeps taken d d' ∧ Q v d e d') next pairs d fs d' :=
  h.imp fun ⟨hr, hq⟩ => ⟨(nested_keeps room _).of_run hr, hq⟩

/-! ## Arguments -/

/-- The positions that are taken once the argument `v` is drafted at `position`. -/
def takenBy (scene : Scene) (position : Nat) (v : Value) (taken : Nat → Prop) (p : Nat) : Prop :=
  taken p ∨ p = position ∧ ∃ i, Drafting.form scene v = .handle i

/-- What a refused argument leaves is dropped: only the numbers of its nested names stay used. -/
theorem Sound.argument_refused (h : Sound taken d) {v : Value} {cause : Malformed} {d' : Draft}
    (hr : d.argument scene position v = (.error cause, d')) :
    ∃ n, d.nestedNames ≤ n ∧ d' = { d with nestedNames := n } := by
  obtain ⟨pairs, d₁, ht, rfl⟩ := Drafting.argument_error_cases hr
  -- the draft where the table was refused still begins with what was there before
  have he : d.Extends d₁ := ((table_keeps deepestTable pairs).of_run_error ht h).2
  refine ⟨d₁.nestedNames, he.nestedNames, ?_⟩
  rw [Roster.truncate_of_prefix he.handles, ← List.prefix_iff_eq_take.1 he.hoisted]

/-- **Drafting an argument keeps a draft sound and adds to it**, also where the argument is refused;
    an instance needs a position that is not taken. -/
theorem Sound.argument (h : Sound taken d) {v : Value}
    (hp : ∀ i, Drafting.form scene v = .handle i → ¬ taken position) :
    Sound (takenBy scene position v taken) (d.argument scene position v).2 ∧
      d.Extends (d.argument scene position v).2 := by
  have hmono : ∀ p, taken p → takenBy scene position v taken p := fun _ => Or.inl
  rcases hr : d.argument scene position v with ⟨cause | drafted, d'⟩
  · obtain ⟨n, hn, rfl⟩ := h.argument_refused hr
    exact ⟨(h.give hn).mono hmono, List.prefix_refl _, List.prefix_refl _, hn⟩
  · rcases Drafting.argument_ok_cases hr with ⟨e, -, -, rfl⟩ | ⟨i, hf, -, rfl⟩ |
      ⟨pairs, e, -, ht, -⟩
    · exact ⟨h.mono hmono, Extends.refl d'⟩
    · obtain ⟨rfl, -⟩ := Drafting.form_eq_handle hf
      exact (h.mono hmono).refer i (h.argument_not_mem (hp i hf))
        (Or.inl ⟨position, Or.inr ⟨rfl, i, hf⟩, rfl⟩)
    · obtain ⟨hs, he⟩ := (table_keeps deepestTable pairs).of_run ht h
      exact ⟨hs.mono hmono, he⟩

end Draft

end Reenact
