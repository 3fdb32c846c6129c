/-
  Nested tables are hoisted completely, linearly and in scope.

  A value inside a table is written as a literal, as raw source text or as a variable; a variable
  stands for a handle or for the local of a nested table.  `Draft.Hoists` says what comes of the
  tables in a part of an argument: a local for each of them, behind those of the tables in it; their
  numbers ascend; and each local is used once, by one that comes later or by what the part itself is
  written as.  Parts are put together one after another (`Hoists.append`), and a nested table closes
  what is open in it with its own local (`Hoists.nestTable`).

  * `Value.tables`: the tables in a value, those inside a table before it;
  * `Draft.argument_collects`: the tables inside an argument that is not refused;
  * `Draft.Hoists.count_name`: the local of each is used once.
-/
import Mathlib.Data.List.Forall2
import Reenact.Proofs.Meaning
import Reenact.Proofs.Refusal
import Reenact.Proofs.Variables

namespace Reenact

/-! ## Tables in values -/

/-- The tables in a value, in the order in which they are written: the pairs of a table in their
    order, the key of each before its value, and behind them the table itself. -/
def Value.tables (scene : Scene) : Value → List (List (Value × Value))
  | .table pairs =>
    ((Drafting.ordered scene pairs).attach.flatMap fun ⟨(k, v), _⟩ =>
      k.tables scene ++ v.tables scene) ++ [pairs]
  | _ => []
termination_by v => sizeOf v
decreasing_by
  all_goals
    have hlt := List.sizeOf_lt_of_mem (Drafting.mem_ordered.1 ‹_›)
    simp only [Prod.mk.sizeOf_spec, Value.table.sizeOf_spec] at hlt ⊢
    omega

/-- The tables in a pair. -/
def pairTables (scene : Scene) (p : Value × Value) : List (List (Value × Value)) :=
  p.1.tables scene ++ p.2.tables scene

/-- The tables strictly inside a value: the last of all is the value itself. -/
def Value.innerTables (scene : Scene) (v : Value) : List (List (Value × Value)) :=
  (v.tables scene).dropLast

section
variable {scene : Scene}

theorem Value.tables_table (pairs : List (Value × Value)) :
    (Value.table pairs).tables scene =
      (Drafting.ordered scene pairs).flatMap (pairTables scene) ++ [pairs] := by
  rw [Value.tables, List.flatMap_subtype (g := pairTables scene) fun _ _ => rfl,
    List.unattach_attach]

theorem Value.innerTables_table (pairs : List (Value × Value)) :
    (Value.table pairs).innerTables scene =
      (Drafting.ordered scene pairs).flatMap (pairTables scene) := by
  rw [Value.innerTables, Value.tables_table, List.dropLast_concat]

theorem Value.tables_of_ne {v : Value} (h : ∀ pairs, v ≠ .table pairs) : v.tables scene = [] := by
  rw [Value.tables]
  exact h

theorem Value.tables_reference (i : Instance) : (Value.reference i).tables scene = [] :=
  Value.tables_of_ne nofun

theorem tables_of_form_expr {v : Value} {e : Expr} (h : Drafting.form scene v = .expr e) :
    v.tables scene = [] :=
  Value.tables_of_ne (Drafting.ne_table_of_form h)

theorem tables_key {next : Nat} {k : Value} {form : Drafting.KeyForm}
    (h : Drafting.keyForm next k = .ok form) (hform : form ≠ .keyed) : k.tables scene = [] :=
  Value.tables_of_ne (Drafting.ne_of_keyForm h hform).2

theorem mentions_of_form {v : Value} {e : Expr} (h : Drafting.form scene v = .expr e) :
    e.mentions = [] := by
  unfold Drafting.form at h
  split at h
  case h_5 => cases h
  case h_6 =>
    split at h <;> cases h
    rfl
  all_goals cases h; rfl

end

/-! ## Constructors -/

/-- What stands in a constructor for a value: an expression, if the value is written as one, else
    the name of the local of a table or of a handle. -/
def IsWritten (scene : Scene) (v : Value) (e : Expr) : Prop :=
  match Drafting.form scene v with
  | .expr written => e = written
  | .table _ | .handle _ => ∃ name, e = .name name

/-- The field for a pair. -/
inductive Field.IsFor (scene : Scene) : Value × Value → Field → Prop where
  | positional {x : Binary64} {v : Value} {e : Expr} (hv : IsWritten scene v e) :
      IsFor scene (.number x, v) (.positional e)
  | named {name : String} {v : Value} {e : Expr} (hv : IsWritten scene v e) :
      IsFor scene (.text name, v) (.named name e)
  | keyed {k v : Value} {key e : Expr} (hk : IsWritten scene k key) (hv : IsWritten scene v e) :
      IsFor scene (k, v) (.keyed key e)

/-- A local of a nested table: its number, and the fields of its constructor. -/
structure NestedLocal where
  number : Nat
  fields : List Field

namespace NestedLocal

variable (position : Nat) (l : NestedLocal)

def name : String := LocalName.ofNested .table position l.number

def stat : Stat := .localName (l.name position) (.table l.fields)

/-- The variables that the constructor mentions. -/
def mentions : List String := Field.mentionsEach l.fields

/-- The local of the table with the given pairs. -/
def IsFor (scene : Scene) (pairs : List (Value × Value)) (l : NestedLocal) : Prop :=
  List.Forall₂ (Field.IsFor scene) (Drafting.ordered scene pairs) l.fields

@[simp] theorem declared_stat : (l.stat position).declared = [l.name position] := rfl

@[simp] theorem mentions_stat : (l.stat position).mentions = l.mentions :=
  Stat.mentions_localName _ _

variable {position l} {m : NestedLocal}

theorem number_eq_of_name_eq (h : l.name position = m.name position) : l.number = m.number :=
  (LocalName.ofNested_inj h).2.2

end NestedLocal

section
variable {scene : Scene} {next : Nat} {k v : Value} {e : Expr}

theorem Field.isFor_positional (hk : Drafting.keyForm next k = .ok .positional)
    (hv : IsWritten scene v e) : Field.IsFor scene (k, v) (.positional e) := by
  obtain ⟨x, rfl, -⟩ := Drafting.eq_number_of_keyForm hk
  exact .positional hv

theorem Field.isFor_named {name : String} (hk : Drafting.keyForm next k = .ok (.named name))
    (hv : IsWritten scene v e) : Field.IsFor scene (k, v) (.named name e) := by
  obtain rfl := Drafting.eq_text_of_keyForm hk
  exact .named hv

end

namespace Draft

open LocalName (Shape)

/-! ## What a step of drafting does to names -/

/-- Numbers are used up, handles stay, and no handle gets the name of a nested table. -/
structure Advances (d d' : Draft) : Prop where
  number : d.nestedNames ≤ d'.nestedNames
  handles : d.handles.names ⊆ d'.handles.names
  tables : ∀ p n, LocalName.ofNested .table p n ∈ d'.handles.names →
    LocalName.ofNested .table p n ∈ d.handles.names

theorem Advances.refl (d : Draft) : Advances d d :=
  ⟨Nat.le_refl _, List.Subset.refl _, fun _ _ => id⟩

theorem Advances.trans (d d₁ d₂ : Draft) (h : Advances d d₁) (h' : Advances d₁ d₂) :
    Advances d d₂ :=
  ⟨Nat.le_trans h.number h'.number, List.Subset.trans h.handles h'.handles,
    fun p n hmem => h.tables p n (h'.tables p n hmem)⟩

theorem advances_nestTable (position : Nat) (d : Draft) (e : Expr) :
    Advances d (d.nestTable position e).2 :=
  ⟨Nat.le_succ _, List.Subset.refl _, fun _ _ => id⟩

/-- Referring to an instance under a name that no nested table has. -/
theorem advances_refer {d : Draft} {n : Nat} (hn : d.nestedNames ≤ n) {name : String}
    (hname : ∀ p k, name ≠ LocalName.ofNested .table p k) (i : Instance) :
    Advances d { d with nestedNames := n, handles := (d.handles.refer name i).2 } := by
  have hnames := Handles.names_refer_eq d.handles name i
  refine ⟨hn, ?_, fun p k hmem => ?_⟩
  · rcases hnames with he | he
    · exact he ▸ List.Subset.refl _
    · exact he ▸ List.subset_append_left _ _
  · rcases hnames with he | he
    · exact he ▸ hmem
    · rcases List.mem_append.1 (he ▸ hmem) with hmem | hmem
      · exact hmem
      · exact absurd (List.mem_singleton.1 hmem).symm (hname p k)

theorem advances_nestHandle (position : Nat) (d : Draft) (i : Instance) :
    Advances d (d.nestHandle position i).2 :=
  advances_refer (Nat.le_succ _)
    (fun _ _ h => by cases (LocalName.ofNested_inj h).1) i

/-! ## Tables hoisted -/

/-- Between two drafts, the given tables are hoisted as `locals`, inside the argument at a position.
    `names` are the variables in what is written besides the locals. -/
structure Hoists (scene : Scene) (position : Nat) (tables : List (List (Value × Value)))
    (names : List String) (d d' : Draft) (locals : List NestedLocal) : Prop where
  advances : Advances d d'
  /-- There is one local for each table. -/
  complete : List.Forall₂ (NestedLocal.IsFor scene) tables locals
  ascending : locals.Pairwise fun l m => l.number < m.number
  given : ∀ l ∈ locals, d.nestedNames < l.number ∧ l.number ≤ d'.nestedNames
  /-- The variables are the locals, each once, and handles. -/
  linear : ∃ others ⊆ d'.handles.names,
    (locals.flatMap NestedLocal.mentions ++ names).Perm
      (locals.map (NestedLocal.name position) ++ others)
  /-- A local is used by later ones only. -/
  inScope : ∀ l ∈ locals, ∀ name ∈ l.mentions,
    (∃ m ∈ locals, m.number < l.number ∧ name = m.name position) ∨ name ∈ d'.handles.names

namespace Hoists

variable {scene : Scene} {position : Nat} {tables tables' : List (List (Value × Value))}
variable {names names' : List String} {d d₁ d' : Draft} {locals locals' : List NestedLocal}

theorem of_handles (hadv : Advances d d') (hnames : names ⊆ d'.handles.names) :
    Hoists scene position [] names d d' [] where
  advances := hadv
  complete := .nil
  ascending := .nil
  given := nofun
  linear := ⟨names, hnames, .refl _⟩
  inScope := nofun

theorem mem_of_mem (h : Hoists scene position tables names d d' locals) {name : String}
    (hmem : name ∈ locals.flatMap NestedLocal.mentions ++ names) :
    (∃ l ∈ locals, name = l.name position) ∨ name ∈ d'.handles.names := by
  obtain ⟨others, hothers, hperm⟩ := h.linear
  rcases List.mem_append.1 (hperm.mem_iff.1 hmem) with hmem | hmem
  · obtain ⟨l, hl, rfl⟩ := List.mem_map.1 hmem
    exact Or.inl ⟨l, hl, rfl⟩
  · exact Or.inr (hothers hmem)

/-- Two parts of an argument, one after the other. -/
theorem append (h : Hoists scene position tables names d d₁ locals)
    (h' : Hoists scene position tables' names' d₁ d' locals') :
    Hoists scene position (tables ++ tables') (names ++ names') d d' (locals ++ locals') where
  advances := h.advances.trans _ _ _ h'.advances
  complete := List.rel_append h.complete h'.complete
  ascending := by
    refine List.pairwise_append.2 ⟨h.ascending, h'.ascending, fun l hl m hm => ?_⟩
    exact Nat.lt_of_le_of_lt (h.given l hl).2 (h'.given m hm).1
  given l hl := by
    rcases List.mem_append.1 hl with hl | hl
    · exact ⟨(h.given l hl).1, Nat.le_trans (h.given l hl).2 h'.advances.number⟩
    · exact ⟨Nat.lt_of_le_of_lt h.advances.number (h'.given l hl).1, (h'.given l hl).2⟩
  linear := by
    obtain ⟨others, hothers, hperm⟩ := h.linear
    obtain ⟨others', hothers', hperm'⟩ := h'.linear
    refine ⟨others ++ others', List.append_subset.2
      ⟨List.Subset.trans hothers h'.advances.handles, hothers'⟩, List.perm_iff_count.2 fun name => ?_⟩
    have hcount := hperm.count_eq name
    have hcount' := hperm'.count_eq name
    simp only [List.flatMap_append, List.map_append, List.count_append] at hcount hcount' ⊢
    omega
  inScope l hl name hname := by
    rcases List.mem_append.1 hl with hl | hl
    · rcases h.inScope l hl name hname with ⟨m, hm, hlt⟩ | hmem
      · exact Or.inl ⟨m, List.mem_append_left _ hm, hlt⟩
      · exact Or.inr (h'.advances.handles hmem)
    · rcases h'.inScope l hl name hname with ⟨m, hm, hlt⟩ | hmem
      · exact Or.inl ⟨m, List.mem_append_right _ hm, hlt⟩
      · exact Or.inr hmem

/-- A nested table gets a local behind those of the tables in it, and uses what was open. -/
theorem nestTable {fields : List Field} {pairs : List (Value × Value)}
    (h : Hoists scene position tables (Field.mentionsEach fields) d d' locals)
    (hfor : List.Forall₂ (Field.IsFor scene) (Drafting.ordered scene pairs) fields) :
    Hoists scene position (tables ++ [pairs]) [(d'.nestTable position (.table fields)).1] d
      (d'.nestTable position (.table fields)).2 (locals ++ [⟨d'.nestedNames + 1, fields⟩]) where
  advances := h.advances.trans _ _ _ (advances_nestTable _ _ _)
  complete := List.rel_append h.complete (.cons hfor .nil)
  ascending := by
    refine List.pairwise_append.2 ⟨h.ascending, List.pairwise_singleton _ _, fun l hl m hm => ?_⟩
    rw [List.mem_singleton.1 hm]
    exact Nat.lt_succ_of_le (h.given l hl).2
  given l hl := by
    rcases List.mem_append.1 hl with hl | hl
    · exact ⟨(h.given l hl).1, Nat.le_succ_of_le (h.given l hl).2⟩
    · rw [List.mem_singleton.1 hl]
      exact ⟨Nat.lt_succ_of_le h.advances.number, Nat.le_refl _⟩
  linear := by
    obtain ⟨others, hothers, hperm⟩ := h.linear
    refine ⟨others, hothers, List.perm_iff_count.2 fun name => ?_⟩
    have hcount := hperm.count_eq name
    simp only [List.flatMap_append, List.flatMap_singleton, List.map_append, List.map_singleton,
      List.count_append, NestedLocal.mentions, NestedLocal.name, Draft.nestTable] at hcount ⊢
    omega
  inScope l hl name hname := by
    rcases List.mem_append.1 hl with hl | hl
    · rcases h.inScope l hl name hname with ⟨m, hm, hlt⟩ | hmem
      · exact Or.inl ⟨m, List.mem_append_left _ hm, hlt⟩
      · exact Or.inr hmem
    · rw [List.mem_singleton.1 hl] at hname ⊢
      rcases h.mem_of_mem (List.mem_append_right _ hname) with ⟨m, hm, rfl⟩ | hmem
      · exact Or.inl ⟨m, List.mem_append_left _ hm, Nat.lt_succ_of_le (h.given m hm).2, rfl⟩
      · exact Or.inr hmem

/-- **The local of a nested table is used once**, unless a handle has its name. -/
theorem count_name (h : Hoists scene position tables names d d' locals) {l : NestedLocal}
    (hl : l ∈ locals) (hnew : l.name position ∉ d'.handles.names) :
    (locals.flatMap NestedLocal.mentions ++ names).count (l.name position) = 1 := by
  obtain ⟨others, hothers, hperm⟩ := h.linear
  have hnodup : (locals.map (NestedLocal.name position)).Nodup := by
    refine List.pairwise_map.2 (h.ascending.imp fun hlt heq => ?_)
    exact Nat.ne_of_lt hlt (NestedLocal.number_eq_of_name_eq heq)
  rw [hperm.count_eq, List.count_append,
    List.count_eq_one_of_mem hnodup (List.mem_map_of_mem hl),
    List.count_eq_zero_of_not_mem fun hmem => hnew (hothers hmem)]

/-- It is used behind the place where it is declared. -/
theorem count_name_later {earlier later : List NestedLocal} {l : NestedLocal}
    (h : Hoists scene position tables names d d' (earlier ++ l :: later))
    (hnew : l.name position ∉ d'.handles.names) :
    (later.flatMap NestedLocal.mentions ++ names).count (l.name position) = 1 := by
  have hcount := h.count_name (List.mem_append_right _ List.mem_cons_self) hnew
  obtain ⟨-, -, hbelow⟩ := List.pairwise_append.1 h.ascending
  have hearlier : l.name position ∉ (earlier ++ [l]).flatMap NestedLocal.mentions := by
    intro hmem
    obtain ⟨k, hk, hmem⟩ := List.mem_flatMap.1 hmem
    have hle : k ∈ earlier ++ l :: later ∧ k.number ≤ l.number := by
      rcases List.mem_append.1 hk with hk | hk
      · exact ⟨List.mem_append_left _ hk, Nat.le_of_lt (hbelow k hk l List.mem_cons_self)⟩
      · rw [List.mem_singleton.1 hk]
        exact ⟨List.mem_append_right _ List.mem_cons_self, Nat.le_refl _⟩
    rcases h.inScope k hle.1 _ hmem with ⟨m, -, hlt, hname⟩ | hmem
    · have hnumber := NestedLocal.number_eq_of_name_eq hname
      omega
    · exact hnew hmem
  have hzero := List.count_eq_zero_of_not_mem hearlier
  have hsplit : earlier ++ l :: later = (earlier ++ [l]) ++ later := by simp
  rw [hsplit, List.flatMap_append, List.append_assoc, List.count_append, hzero] at hcount
  omega

end Hoists

/-- Tables are hoisted, and their locals added to those that are not taken yet. -/
def Collects (scene : Scene) (position : Nat) (tables : List (List (Value × Value)))
    (names : List String) (d d' : Draft) : Prop :=
  ∃ locals, d'.hoisted = d.hoisted ++ locals.map (NestedLocal.stat position) ∧
    Hoists scene position tables names d d' locals

namespace Collects

variable {scene : Scene} {position : Nat} {tables tables' : List (List (Value × Value))}
variable {names names' : List String} {d d₁ d' : Draft}

theorem of_handles (hadv : Advances d d') (hsame : d'.hoisted = d.hoisted)
    (hnames : names ⊆ d'.handles.names) : Collects scene position [] names d d' :=
  ⟨[], by rw [hsame, List.map_nil, List.append_nil], .of_handles hadv hnames⟩

theorem refl (d : Draft) : Collects scene position [] [] d d :=
  of_handles (.refl d) rfl (List.nil_subset _)

theorem append (h : Collects scene position tables names d d₁)
    (h' : Collects scene position tables' names' d₁ d') :
    Collects scene position (tables ++ tables') (names ++ names') d d' := by
  obtain ⟨locals, hlocals, hs⟩ := h
  obtain ⟨locals', hlocals', hs'⟩ := h'
  refine ⟨locals ++ locals', ?_, hs.append hs'⟩
  rw [hlocals', hlocals, List.map_append, List.append_assoc]

theorem nestTable {fields : List Field} {pairs : List (Value × Value)}
    (h : Collects scene position tables (Field.mentionsEach fields) d d')
    (hfor : List.Forall₂ (Field.IsFor scene) (Drafting.ordered scene pairs) fields) :
    Collects scene position (tables ++ [pairs]) [(d'.nestTable position (.table fields)).1] d
      (d'.nestTable position (.table fields)).2 := by
  obtain ⟨locals, hlocals, hs⟩ := h
  refine ⟨_, ?_, hs.nestTable hfor⟩
  rw [List.map_append, ← List.append_assoc, ← hlocals]
  rfl

end Collects

/-! ## Values inside a table -/

section
variable {scene : Scene} {position : Nat}

theorem fields_collect {next : Nat} {pairs : List (Value × Value)} {d d' : Draft}
    {fs : List Field}
    (h : Drafting.FieldsOf (fun v d e d' => IsWritten scene v e ∧
      Collects scene position (v.tables scene) e.mentions d d') next pairs d fs d') :
    List.Forall₂ (Field.IsFor scene) pairs fs ∧
      Collects scene position (pairs.flatMap (pairTables scene)) (Field.mentionsEach fs) d d' := by
  induction h with
  | nil => exact ⟨.nil, .refl _⟩
  | positional hk hv _ ih =>
    refine ⟨.cons (Field.isFor_positional hk hv.1) ih.1, ?_⟩
    rw [List.flatMap_cons, pairTables, tables_key hk nofun, List.nil_append]
    exact hv.2.append ih.2
  | named hk hv _ ih =>
    refine ⟨.cons (Field.isFor_named hk hv.1) ih.1, ?_⟩
    rw [List.flatMap_cons, pairTables, tables_key hk nofun, List.nil_append]
    exact hv.2.append ih.2
  | keyed _ hkey hv _ ih =>
    exact ⟨.cons (.keyed hkey.1 hv.1) ih.1, (hkey.2.append hv.2).append ih.2⟩

/-- **The tables inside a table are hoisted.** -/
theorem table_collects {room : Nat} {pairs : List (Value × Value)} {d d' : Draft} {e : Expr}
    (h : (Drafting.table scene position room pairs).run d = .ok e d') :
    Collects scene position ((Value.table pairs).innerTables scene) e.mentions d d' := by
  obtain ⟨fs, room, hfs, rfl⟩ := Drafting.table_induction
    (Q := fun v d e d' => IsWritten scene v e ∧
      Collects scene position (v.tables scene) e.mentions d d')
    (fun {v d e} hf => by
      rw [IsWritten, hf, tables_of_form_expr hf, mentions_of_form hf]
      exact ⟨rfl, .refl _⟩)
    (fun {v d i} hf => by
      rw [IsWritten, hf, (Drafting.form_eq_handle hf).1, Value.tables_reference]
      obtain ⟨j, hj, -⟩ := Handles.names_refer d.handles _ i
      exact ⟨⟨_, rfl⟩, .of_handles (advances_nestHandle position d i) rfl
        (List.cons_subset.2 ⟨List.mem_map_of_mem hj, List.nil_subset _⟩)⟩)
    (fun {v d pairs fs d₁ room} hf hfs => by
      obtain ⟨hfor, hs⟩ := fields_collect (hfs.imp And.right)
      rw [IsWritten, hf, Drafting.form_eq_table hf, Value.tables_table]
      exact ⟨⟨_, rfl⟩, hs.nestTable hfor⟩) h
  rw [Value.innerTables_table]
  exact (fields_collect (hfs.imp And.right)).2

theorem table_advances (room : Nat) (pairs : List (Value × Value)) :
    Drafting.Moves Advances (Drafting.table scene position room pairs) :=
  Drafting.table_moves Advances.refl Advances.trans (advances_nestTable position)
    (fun _ => advances_nestHandle position) room pairs

/-! ## Arguments -/

/-- **The tables strictly inside an argument are hoisted**, if it is not refused; the local of the
    argument itself, if it has one, comes behind them. -/
theorem argument_collects {v : Value} {d d' : Draft} {drafted : Drafted}
    (h : d.argument scene position v = (.ok drafted, d')) :
    Collects scene position (v.innerTables scene) (drafted.locals.flatMap Stat.mentions) d d' := by
  rcases Drafting.argument_ok_cases h with ⟨e, hf, rfl, rfl⟩ | ⟨i, hf, rfl, rfl⟩ |
    ⟨pairs, e, hf, ht, rfl⟩
  · rw [Value.innerTables, tables_of_form_expr hf, Drafted.locals, List.flatMap_singleton,
      Stat.mentions_localName, mentions_of_form hf]
    exact .refl _
  · have hname : ∀ p k, (Shape.argument .reference position).text ≠ (Shape.nested .table p k).text :=
      fun p k he => by cases Shape.text_injective he
    obtain ⟨rfl, -⟩ := Drafting.form_eq_handle hf
    rw [Value.innerTables, Value.tables_reference]
    exact .of_handles (advances_refer (Nat.le_refl _) hname i) rfl (List.nil_subset _)
  · rw [Drafting.form_eq_table hf, Drafted.locals, List.flatMap_singleton,
      Stat.mentions_localName]
    exact table_collects ht

/-- An argument declares no more than its own local. -/
theorem declared_of_argument {v : Value} {d d' : Draft} {drafted : Drafted}
    (h : d.argument scene position v = (.ok drafted, d')) :
    ∀ name ∈ drafted.locals.flatMap Stat.declared, name = LocalName.ofArgument v position := by
  rcases Drafting.argument_ok_cases h with ⟨e, -, rfl, -⟩ | ⟨i, -, rfl, -⟩ | ⟨pairs, e, -, -, rfl⟩
  · exact fun name hmem => List.mem_singleton.1 hmem
  · exact nofun
  · exact fun name hmem => List.mem_singleton.1 hmem

/-- A refused argument uses up numbers, and changes no names. -/
theorem refused_advances {v : Value} {d d' : Draft} {cause : Malformed}
    (h : d.argument scene position v = (.error cause, d')) : Advances d d' := by
  obtain ⟨hnames, -⟩ := argument_refused_names h
  obtain ⟨pairs, d₁, ht, rfl⟩ := Drafting.argument_error_cases h
  exact ⟨((table_advances deepestTable pairs).of_run_error ht).number,
    fun name => by rw [hnames]; exact id, fun p n => by rw [hnames]; exact id⟩

end

end Draft

end Reenact
