/-
  What drafting does, told once for all its uses.

  * `table_moves`: a table changes the draft by steps of two sorts only, also where it is refused: a
    nested table is declared, or, with `useInstanceIds` on, a nested instance gets a handle;
  * `fields_ok_iff`, `nested_ok_iff`, `table_ok_iff`: how the fields of a table come about, pair by
    pair, where it is not refused;
  * `table_induction`: what holds of every value inside a table because it holds of scalars and
    instances, and of a nested table if it holds of the values in it.
-/
import Reenact.Argument.Draft

namespace Reenact

/-- The expression by which an argument is passed, or that its local is bound to. -/
def Drafted.expr : Drafted → Expr
  | bound _ value => value
  | handle name => .name name

namespace Draft

/-- Declares a nested table inside the argument at a position, under a new name. -/
def nestTable (position : Nat) (table : Expr) (d : Draft) : String × Draft :=
  let name := LocalName.ofNested .table position (d.nestedNames + 1)
  (name, { d with
    nestedNames := d.nestedNames + 1
    hoisted := d.hoisted ++ [.localName name table] })

/-- A handle for a nested instance; it has a new name if the instance had none. -/
def nestHandle (position : Nat) (i : Instance) (d : Draft) : String × Draft :=
  let referred := d.handles.refer (LocalName.ofNested .reference position (d.nestedNames + 1)) i
  (referred.1, { d with nestedNames := d.nestedNames + 1, handles := referred.2 })

end Draft

namespace Drafting

/-! ## Steps of drafting -/

section
variable {α β : Type}

/-- The draft after a step, also where it fails. -/
def after (m : Drafting α) (d : Draft) : Draft :=
  match m.run d with
  | .ok _ d' | .error _ d' => d'

theorem run_bind_of_ok {m : Drafting α} {d d₁ : Draft} {a : α} (h : m.run d = .ok a d₁)
    (f : α → Drafting β) : (m >>= f).run d = (f a).run d₁ := by
  change EStateM.bind m f d = _
  rw [EStateM.bind, show m d = .ok a d₁ from h]; rfl

theorem run_bind_of_error {m : Drafting α} {d d₁ : Draft} {e : Malformed}
    (h : m.run d = .error e d₁) (f : α → Drafting β) : (m >>= f).run d = .error e d₁ := by
  change EStateM.bind m f d = _
  rw [EStateM.bind, show m d = .error e d₁ from h]

theorem bind_ok_iff {m : Drafting α} {f : α → Drafting β} {d d' : Draft} {b : β} :
    (m >>= f).run d = .ok b d' ↔ ∃ a d₁, m.run d = .ok a d₁ ∧ (f a).run d₁ = .ok b d' := by
  cases h : m.run d with
  | ok a d₁ =>
    rw [run_bind_of_ok h]
    constructor
    · intro hf; exact ⟨a, d₁, rfl, hf⟩
    · rintro ⟨_, _, ha, hf⟩; cases ha; exact hf
  | error e d₁ => rw [run_bind_of_error h]; simp

theorem map_ok_iff {m : Drafting α} {f : α → β} {d d' : Draft} {b : β} :
    (f <$> m).run d = .ok b d' ↔ ∃ a, m.run d = .ok a d' ∧ f a = b := by
  rw [← bind_pure_comp, bind_ok_iff]
  constructor
  · rintro ⟨a, d₁, hm, h⟩; cases h; exact ⟨a, hm, rfl⟩
  · rintro ⟨a, hm, rfl⟩; exact ⟨a, d', hm, rfl⟩

theorem pure_ok_iff {a b : α} {d d' : Draft} :
    (pure a : Drafting α).run d = .ok b d' ↔ a = b ∧ d = d' := by
  change EStateM.Result.ok a d = _ ↔ _
  simp

/-- However a step ends, the drafts before and after it are related. -/
def Moves (R : Draft → Draft → Prop) (m : Drafting α) : Prop := ∀ d, R d (after m d)

variable {R : Draft → Draft → Prop}

theorem Moves.of_run (h : Moves R m) {d d' : Draft} {a : α} (hm : m.run d = .ok a d') :
    R d d' := by
  have := h d
  rwa [after, hm] at this

theorem Moves.of_run_error (h : Moves R m) {d d' : Draft} {e : Malformed}
    (hm : m.run d = .error e d') : R d d' := by
  have := h d
  rwa [after, hm] at this

theorem Moves.pure (hrefl : ∀ d, R d d) (a : α) : Moves R (pure a) := hrefl

theorem Moves.throw (hrefl : ∀ d, R d d) (e : Malformed) : Moves R (throw e : Drafting α) := hrefl

theorem Moves.bind (htrans : ∀ a b c, R a b → R b c → R a c) {m : Drafting α}
    {f : α → Drafting β} (hm : Moves R m) (hf : ∀ a, Moves R (f a)) : Moves R (m >>= f) := by
  intro d
  have hd := hm d
  unfold after at hd ⊢
  cases hr : m.run d with
  | ok a d₁ => rw [hr] at hd; rw [run_bind_of_ok hr]; exact htrans _ _ _ hd (hf a d₁)
  | error e d₁ => rw [hr] at hd; rw [run_bind_of_error hr]; exact hd

theorem Moves.map (htrans : ∀ a b c, R a b → R b c → R a c) (hrefl : ∀ d, R d d)
    {m : Drafting α} (f : α → β) (hm : Moves R m) : Moves R (f <$> m) :=
  Moves.bind htrans hm fun a => Moves.pure hrefl (f a)

end

/-! ## Values inside a table -/

section
variable {scene : Scene}

theorem form_eq_handle {v : Value} {i : Instance} (h : form scene v = .handle i) :
    v = .reference i ∧ scene.settings.useInstanceIds = true := by
  unfold form at h
  split at h <;> try cases h
  split at h
  · rename_i hs; cases h; exact ⟨rfl, hs⟩
  · cases h

theorem form_eq_table {v : Value} {pairs : List (Value × Value)} (h : form scene v = .table pairs) :
    v = .table pairs := by
  unfold form at h
  split at h <;> try cases h
  · rfl
  · split at h <;> cases h

theorem ne_table_of_form {v : Value} {e : Expr} (h : form scene v = .expr e)
    (pairs : List (Value × Value)) : v ≠ .table pairs := by
  rintro rfl
  cases h

/-! ## Keys -/

variable {next : Nat} {k : Value}

/-- A key without a text of its own is the number of its position. -/
theorem eq_number_of_keyForm (h : keyForm next k = .ok .positional) :
    ∃ x, k = .number x ∧ x.isNat next = true := by
  unfold keyForm at h
  split at h
  · cases h
  · next x =>
    split at h
    · cases h
    split at h
    · next hx => exact ⟨x, rfl, hx⟩
    · cases h
  · split at h <;> cases h
  · cases h

theorem eq_text_of_keyForm {name : String} (h : keyForm next k = .ok (.named name)) :
    k = .text name := by
  unfold keyForm at h
  split at h
  · cases h
  · split at h
    · cases h
    split at h <;> cases h
  · split at h <;> cases h
    rfl
  · cases h

/-- A key that is not written as an expression is no instance and no table. -/
theorem ne_of_keyForm {form : KeyForm} (h : keyForm next k = .ok form) (hform : form ≠ .keyed) :
    (∀ i, k ≠ .reference i) ∧ ∀ pairs, k ≠ .table pairs := by
  constructor <;> rintro _ rfl <;> cases h <;> exact hform rfl

end

section
variable (scene : Scene) (position : Nat)

/-- Drafts a value inside a table, where `write` drafts the constructor of a nested table. -/
def nested (write : List (Value × Value) → Drafting Expr) (v : Value) : Drafting Expr :=
  match form scene v with
  | .expr e => pure e
  | .table inner => do
    let constructor ← write inner
    let name ← nestedName position .table
    hoist name constructor
    return .name name
  | .handle i => do
    let name ← nestedName position .reference
    .name <$> refer name i

theorem table_succ (room : Nat) (pairs : List (Value × Value)) :
    table scene position (room + 1) pairs =
      .table <$> fields (nested scene position (table scene position room)) 1
        (ordered scene pairs) := rfl

variable {scene position}
variable {R : Draft → Draft → Prop} (hrefl : ∀ d, R d d)
  (htrans : ∀ a b c, R a b → R b c → R a c)
include hrefl htrans

theorem fields_moves {value : Value → Drafting Expr} (hv : ∀ v, Moves R (value v)) :
    ∀ next pairs, Moves R (fields value next pairs)
  | _, [] => Moves.pure hrefl _
  | next, (k, v) :: rest => by
    unfold fields
    split
    · exact Moves.throw hrefl _
    · exact Moves.bind htrans (hv v) fun e => Moves.bind htrans
        (fields_moves hv (next + 1) rest) fun fs => Moves.pure hrefl _
    · exact Moves.bind htrans (hv v) fun e => Moves.bind htrans
        (fields_moves hv next rest) fun fs => Moves.pure hrefl _
    · exact Moves.bind htrans (hv k) fun key => Moves.bind htrans (hv v) fun e =>
        Moves.bind htrans (fields_moves hv next rest) fun fs => Moves.pure hrefl _

variable (htable : ∀ d e, R d (d.nestTable position e).2)
  (hhandle : scene.settings.useInstanceIds = true → ∀ d i, R d (d.nestHandle position i).2)
include htable hhandle

theorem nested_moves {write : List (Value × Value) → Drafting Expr}
    (hw : ∀ pairs, Moves R (write pairs)) (v : Value) :
    Moves R (nested scene position write v) := by
  unfold nested
  split
  · exact Moves.pure hrefl _
  · exact Moves.bind htrans (hw _) fun e d => htable d e
  · rename_i hf
    exact fun d => hhandle (form_eq_handle hf).2 d _

/-- **A table is drafted in steps**: a relation between drafts that each of them keeps is kept by
    the whole table, also where it is refused. -/
theorem table_moves : ∀ room pairs, Moves R (table scene position room pairs)
  | 0, _ => Moves.throw hrefl _
  | room + 1, pairs => by
    rw [table_succ]
    exact Moves.map htrans hrefl _ (fields_moves hrefl htrans
      (nested_moves hrefl htrans htable hhandle (table_moves room)) _ _)

end

/-! ## Tables that are not refused -/

/-- The fields for pairs, where `W v d e d'` says that the value `v` is written as `e`, and that
    this takes the draft `d` to `d'`. -/
inductive FieldsOf (W : Value → Draft → Expr → Draft → Prop) :
    (next : Nat) → List (Value × Value) → Draft → List Field → Draft → Prop where
  | nil {next d} : FieldsOf W next [] d [] d
  | positional {next k v rest d d₁ d₂ e fs} (hk : keyForm next k = .ok .positional)
      (hv : W v d e d₁) (hr : FieldsOf W (next + 1) rest d₁ fs d₂) :
      FieldsOf W next ((k, v) :: rest) d (.positional e :: fs) d₂
  | named {next k v rest d d₁ d₂ name e fs} (hk : keyForm next k = .ok (.named name))
      (hv : W v d e d₁) (hr : FieldsOf W next rest d₁ fs d₂) :
      FieldsOf W next ((k, v) :: rest) d (.named name e :: fs) d₂
  | keyed {next k v rest d d₁ d₂ d₃ key e fs} (hk : keyForm next k = .ok .keyed)
      (hkey : W k d key d₁) (hv : W v d₁ e d₂) (hr : FieldsOf W next rest d₂ fs d₃) :
      FieldsOf W next ((k, v) :: rest) d (.keyed key e :: fs) d₃

theorem FieldsOf.imp {W W' : Value → Draft → Expr → Draft → Prop}
    (himp : ∀ {v d e d'}, W v d e d' → W' v d e d') {next pairs d fs d'}
    (h : FieldsOf W next pairs d fs d') : FieldsOf W' next pairs d fs d' := by
  induction h with
  | nil => exact .nil
  | positional hk hv _ ih => exact .positional hk (himp hv) ih
  | named hk hv _ ih => exact .named hk (himp hv) ih
  | keyed hk hkey hv _ ih => exact .keyed hk (himp hkey) (himp hv) ih

theorem FieldsOf.moves {W : Value → Draft → Expr → Draft → Prop} {R : Draft → Draft → Prop}
    (hrefl : ∀ d, R d d) (htrans : ∀ a b c, R a b → R b c → R a c)
    (hW : ∀ {v d e d'}, W v d e d' → R d d') {next pairs d fs d'}
    (h : FieldsOf W next pairs d fs d') : R d d' := by
  induction h with
  | nil => exact hrefl _
  | positional _ hv _ ih | named _ hv _ ih => exact htrans _ _ _ (hW hv) ih
  | keyed _ hkey hv _ ih => exact htrans _ _ _ (htrans _ _ _ (hW hkey) (hW hv)) ih

theorem fields_ok_iff {value : Value → Drafting Expr} : ∀ {next pairs d fs d'},
    (fields value next pairs).run d = .ok fs d' ↔
      FieldsOf (fun v d e d' => (value v).run d = .ok e d') next pairs d fs d'
  | _, [], d, fs, d' => by
    rw [fields, pure_ok_iff]
    constructor
    · rintro ⟨rfl, rfl⟩; exact .nil
    · intro h; cases h; exact ⟨rfl, rfl⟩
  | next, (k, v) :: rest, d, fs, d' => by
    unfold fields
    constructor
    · intro h
      split at h
      · cases h
      · rename_i hk
        obtain ⟨e, d₁, hv, h⟩ := bind_ok_iff.1 h
        obtain ⟨fs, d₂, hr, h⟩ := bind_ok_iff.1 h
        obtain ⟨rfl, rfl⟩ := pure_ok_iff.1 h
        exact .positional hk hv (fields_ok_iff.1 hr)
      · rename_i hk
        obtain ⟨e, d₁, hv, h⟩ := bind_ok_iff.1 h
        obtain ⟨fs, d₂, hr, h⟩ := bind_ok_iff.1 h
        obtain ⟨rfl, rfl⟩ := pure_ok_iff.1 h
        exact .named hk hv (fields_ok_iff.1 hr)
      · rename_i hk
        obtain ⟨key, d₁, hkey, h⟩ := bind_ok_iff.1 h
        obtain ⟨e, d₂, hv, h⟩ := bind_ok_iff.1 h
        obtain ⟨fs, d₃, hr, h⟩ := bind_ok_iff.1 h
        obtain ⟨rfl, rfl⟩ := pure_ok_iff.1 h
        exact .keyed hk hkey hv (fields_ok_iff.1 hr)
    · intro h
      cases h with
      | positional hk hv hr =>
        rw [hk]
        exact bind_ok_iff.2 ⟨_, _, hv, bind_ok_iff.2 ⟨_, _, fields_ok_iff.2 hr, rfl⟩⟩
      | named hk hv hr =>
        rw [hk]
        exact bind_ok_iff.2 ⟨_, _, hv, bind_ok_iff.2 ⟨_, _, fields_ok_iff.2 hr, rfl⟩⟩
      | keyed hk hkey hv hr =>
        rw [hk]
        exact bind_ok_iff.2 ⟨_, _, hkey, bind_ok_iff.2 ⟨_, _, hv,
          bind_ok_iff.2 ⟨_, _, fields_ok_iff.2 hr, rfl⟩⟩⟩

section
variable {scene : Scene} {position : Nat}

theorem nested_ok_iff {write : List (Value × Value) → Drafting Expr} {v : Value} {d d' : Draft}
    {e : Expr} : (nested scene position write v).run d = .ok e d' ↔
      (form scene v = .expr e ∧ d' = d) ∨
      (∃ pairs constructor d₁, form scene v = .table pairs ∧ (write pairs).run d = .ok constructor d₁ ∧
        e = .name (d₁.nestTable position constructor).1 ∧
        d' = (d₁.nestTable position constructor).2) ∨
      (∃ i, form scene v = .handle i ∧ e = .name (d.nestHandle position i).1 ∧
        d' = (d.nestHandle position i).2) := by
  unfold nested
  split
  · rename_i e' hf
    rw [pure_ok_iff, hf]
    simp [eq_comm]
  · rename_i pairs hf
    rw [bind_ok_iff, hf]
    constructor
    · rintro ⟨constructor, d₁, hw, h⟩
      cases h
      exact Or.inr (Or.inl ⟨_, _, _, rfl, hw, rfl, rfl⟩)
    · rintro (⟨h, -⟩ | ⟨_, _, d₁, h, hw, rfl, rfl⟩ | ⟨_, h, -⟩)
      · cases h
      · cases h; exact ⟨_, _, hw, rfl⟩
      · cases h
  · rename_i i hf
    rw [hf]
    constructor
    · intro h; cases h; exact Or.inr (Or.inr ⟨_, rfl, rfl, rfl⟩)
    · rintro (⟨h, -⟩ | ⟨_, _, _, h, -⟩ | ⟨_, h, rfl, rfl⟩)
      · cases h
      · cases h
      · cases h; rfl

theorem table_ok_iff {room : Nat} {pairs : List (Value × Value)} {d d' : Draft} {e : Expr} :
    (table scene position (room + 1) pairs).run d = .ok e d' ↔
      ∃ fs, FieldsOf (fun v d e d' =>
          (nested scene position (table scene position room) v).run d = .ok e d')
        1 (ordered scene pairs) d fs d' ∧ e = .table fs := by
  rw [table_succ, map_ok_iff]
  simp only [fields_ok_iff, eq_comm (b := e)]

/-- **Induction on the values inside a table.**  The fields of a nested table come with what is
    already known of the values in it. -/
theorem table_induction {Q : Value → Draft → Expr → Draft → Prop}
    (hexpr : ∀ {v d e}, form scene v = .expr e → Q v d e d)
    (hhandle : ∀ {v d i}, form scene v = .handle i →
      Q v d (.name (d.nestHandle position i).1) (d.nestHandle position i).2)
    (htable : ∀ {v d pairs fs d₁ room}, form scene v = .table pairs →
      FieldsOf (fun v d e d' => (nested scene position (table scene position room) v).run d =
        .ok e d' ∧ Q v d e d') 1 (ordered scene pairs) d fs d₁ →
      Q v d (.name (d₁.nestTable position (.table fs)).1) (d₁.nestTable position (.table fs)).2) :
    ∀ {room pairs d e d'}, (table scene position room pairs).run d = .ok e d' →
      ∃ fs room, FieldsOf (fun v d e d' =>
          (nested scene position (table scene position room) v).run d = .ok e d' ∧ Q v d e d')
        1 (ordered scene pairs) d fs d' ∧ e = .table fs := by
  intro room
  induction room with
  | zero => intro pairs d e d' h; cases h
  | succ room ih =>
    intro pairs d e d' h
    obtain ⟨fs, hfs, rfl⟩ := table_ok_iff.1 h
    refine ⟨fs, room, hfs.imp fun {v d e d'} hv => ⟨hv, ?_⟩, rfl⟩
    rcases nested_ok_iff.1 hv with ⟨hf, rfl⟩ | ⟨pairs, c, d₁, hf, hw, rfl, rfl⟩ | ⟨i, hf, rfl, rfl⟩
    · exact hexpr hf
    · obtain ⟨fs, room, hfs, rfl⟩ := ih hw
      exact htable hf hfs
    · exact hhandle hf

end

/-! ## Arguments -/

section
variable {scene : Scene} {position : Nat}

theorem argument_expr {v : Value} {e : Expr} (hf : form scene v = .expr e) (d : Draft) :
    d.argument scene position v = (.ok (.bound (LocalName.ofArgument v position) e), d) := by
  rw [Draft.argument, argument, hf]; rfl

theorem argument_handle {v : Value} {i : Instance} (hf : form scene v = .handle i) (d : Draft) :
    d.argument scene position v =
      (.ok (.handle (d.handles.refer (LocalName.ofArgument v position) i).1),
        { d with handles := (d.handles.refer (LocalName.ofArgument v position) i).2 }) := by
  rw [Draft.argument, argument, hf]; rfl

theorem argument_table_ok {v : Value} {pairs : List (Value × Value)} (hf : form scene v = .table pairs)
    {d d' : Draft} {e : Expr} (h : (table scene position deepestTable pairs).run d = .ok e d') :
    d.argument scene position v = (.ok (.bound (LocalName.ofArgument v position) e), d') := by
  rw [Draft.argument, argument, hf, map_ok_iff.2 ⟨e, h, rfl⟩]

theorem argument_table_error {v : Value} {pairs : List (Value × Value)}
    (hf : form scene v = .table pairs) {d d' : Draft} {cause : Malformed}
    (h : (table scene position deepestTable pairs).run d = .error cause d') :
    d.argument scene position v = (.error cause,
      { d' with
        handles := d'.handles.truncate d.handles.size
        hoisted := d'.hoisted.take d.hoisted.length }) := by
  rw [Draft.argument, argument, hf]
  dsimp only
  rw [← bind_pure_comp, run_bind_of_error h]

/-- An argument that is not refused is an expression already, an instance, or a table. -/
theorem argument_ok_cases {v : Value} {d d' : Draft} {drafted : Drafted}
    (h : d.argument scene position v = (.ok drafted, d')) :
    (∃ e, form scene v = .expr e ∧ drafted = .bound (LocalName.ofArgument v position) e ∧ d' = d) ∨
    (∃ i, form scene v = .handle i ∧
      drafted = .handle (d.handles.refer (LocalName.ofArgument v position) i).1 ∧
      d' = { d with handles := (d.handles.refer (LocalName.ofArgument v position) i).2 }) ∨
    ∃ pairs e, form scene v = .table pairs ∧
      (table scene position deepestTable pairs).run d = .ok e d' ∧
      drafted = .bound (LocalName.ofArgument v position) e := by
  cases hf : form scene v with
  | expr e =>
    rw [argument_expr hf] at h
    cases h
    exact Or.inl ⟨e, rfl, rfl, rfl⟩
  | handle i =>
    rw [argument_handle hf] at h
    cases h
    exact Or.inr (Or.inl ⟨i, rfl, rfl, rfl⟩)
  | table pairs =>
    cases ht : (table scene position deepestTable pairs).run d with
    | error cause d₁ =>
      rw [argument_table_error hf ht] at h
      cases h
    | ok e d₁ =>
      rw [argument_table_ok hf ht] at h
      cases h
      exact Or.inr (Or.inr ⟨pairs, e, rfl, ht, rfl⟩)

/-- An argument that is refused is a table that is. -/
theorem argument_error_cases {v : Value} {d d' : Draft} {cause : Malformed}
    (h : d.argument scene position v = (.error cause, d')) :
    ∃ pairs d₁, (table scene position deepestTable pairs).run d = .error cause d₁ ∧
      d' = { d₁ with
        handles := d₁.handles.truncate d.handles.size
        hoisted := d₁.hoisted.take d.hoisted.length } := by
  cases hf : form scene v with
  | expr e => rw [argument_expr hf] at h; cases h
  | handle i => rw [argument_handle hf] at h; cases h
  | table pairs =>
    cases ht : (table scene position deepestTable pairs).run d with
    | ok e d₁ => rw [argument_table_ok hf ht] at h; cases h
    | error cause' d₁ =>
      rw [argument_table_error hf ht] at h
      cases h
      exact ⟨pairs, d₁, ht, rfl⟩

end

end Drafting

end Reenact
