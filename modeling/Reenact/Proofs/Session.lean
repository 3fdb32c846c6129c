/-
  Sessions: arguments drafted one after another on one draft, and its hoisted locals taken from
  time to time.

  `handles_stable`: if no position is drafted twice, then handles are only added at the end, with new
  names and new debug ids, and a name that was handed out for an instance stands for an instance
  with its debug id ever after.  `StandsFor` says what it is to hand out a name: in the expression
  that was written for a value, the name is what is written at a place of an instance.
-/
import Reenact.Proofs.Handles

namespace Reenact

/-! ## Names handed out -/

/-- The expression for the value of a field. -/
def Field.value : Field → Expr
  | keyed _ value | named _ value | positional value => value

/-- In the expression written for a value, a name stands at a place of the instance `i`.  A nested
    table is written as the name of a local, which is looked up among `locals`. -/
inductive StandsFor (scene : Scene) (locals : List Stat) (name : String) (i : Instance) :
    Value → Expr → Prop where
  /-- The value is the instance -/
  | here : StandsFor scene locals name i (.reference i) (.name name)
  /-- The instance is in a key -/
  | inKey {pairs : List (Value × Value)} {fields : List Field} {k : Nat} {key v : Value}
      {keyExpr e : Expr} (hp : (Drafting.ordered scene pairs)[k]? = some (key, v))
      (hf : fields[k]? = some (Field.keyed keyExpr e))
      (h : StandsFor scene locals name i key keyExpr) :
      StandsFor scene locals name i (.table pairs) (.table fields)
  /-- The instance is in the value of a pair -/
  | inValue {pairs : List (Value × Value)} {fields : List Field} {k : Nat} {key v : Value}
      {f : Field} (hp : (Drafting.ordered scene pairs)[k]? = some (key, v))
      (hf : fields[k]? = some f) (h : StandsFor scene locals name i v f.value) :
      StandsFor scene locals name i (.table pairs) (.table fields)
  /-- The table is written in a local of its own -/
  | inLocal {pairs : List (Value × Value)} {fields : List Field} {t : String}
      (hl : Stat.localName t (.table fields) ∈ locals)
      (h : StandsFor scene locals name i (.table pairs) (.table fields)) :
      StandsFor scene locals name i (.table pairs) (.name t)

theorem StandsFor.mono {scene : Scene} {locals locals' : List Stat} (hsub : locals ⊆ locals')
    {name : String} {i : Instance} {v : Value} {e : Expr} (h : StandsFor scene locals name i v e) :
    StandsFor scene locals' name i v e := by
  induction h with
  | here => exact .here
  | inKey hp hf _ ih => exact .inKey hp hf ih
  | inValue hp hf _ ih => exact .inValue hp hf ih
  | inLocal hl _ ih => exact .inLocal (hsub hl) ih

/-- An expression that is written at once holds no name for an instance. -/
theorem not_standsFor_of_form {scene : Scene} {locals : List Stat} {name : String} {i : Instance}
    {v : Value} {e : Expr} (hf : Drafting.form scene v = .expr e) :
    ¬ StandsFor scene locals name i v e := by
  intro h
  cases h with
  | here => rw [Drafting.form] at hf; split at hf <;> cases hf
  | inKey | inValue | inLocal => cases hf

/-- Of locals with different names, one has the name `t`. -/
theorem eq_of_localName_mem {t : String} {e e' : Expr} : ∀ {locals : List Stat},
    (locals.flatMap Stat.declared).Nodup → Stat.localName t e ∈ locals →
      Stat.localName t e' ∈ locals → e = e'
  | [], _, h, _ => by cases h
  | s :: rest, hn, h, h' => by
    rw [List.flatMap_cons] at hn
    obtain ⟨-, hrest, hdis⟩ := List.nodup_append.1 hn
    have hmem : ∀ {x}, Stat.localName t x ∈ rest → t ∈ rest.flatMap Stat.declared :=
      fun hx => List.mem_flatMap.2 ⟨_, hx, List.mem_singleton_self t⟩
    rcases List.mem_cons.1 h with rfl | hr
    · rcases List.mem_cons.1 h' with he | hr'
      · cases he; rfl
      · exact absurd rfl (hdis t (List.mem_singleton_self t) t (hmem hr'))
    · rcases List.mem_cons.1 h' with rfl | hr'
      · exact absurd rfl (hdis t (List.mem_singleton_self t) t (hmem hr))
      · exact eq_of_localName_mem hrest hr hr'

namespace Draft

variable {taken : Nat → Prop} {scene : Scene} {position : Nat}

/-- The names in the expression `e` for the value `v` stand for the instances that they were handed
    out for, in the draft and with any locals that come to be. -/
def NamesKept (taken : Nat → Prop) (scene : Scene) (v : Value) (d : Draft) (e : Expr)
    (d' : Draft) : Prop :=
  Sound taken d → ∀ locals, d'.hoisted <+: locals → (locals.flatMap Stat.declared).Nodup →
    ∀ name i, StandsFor scene locals name i v e → d'.handles.Names name i.debugId

theorem fields_namesKept {next : Nat} {pairs : List (Value × Value)} {d d' : Draft}
    {fs : List Field}
    (h : Drafting.FieldsOf (fun v d e d' => Keeps taken d d' ∧ NamesKept taken scene v d e d')
      next pairs d fs d') (hs : Sound taken d) {locals : List Stat} (hl : d'.hoisted <+: locals)
    (hn : (locals.flatMap Stat.declared).Nodup) {name : String} {i : Instance} :
    ∀ {k : Nat} {key v : Value} {f : Field}, pairs[k]? = some (key, v) → fs[k]? = some f →
      (StandsFor scene locals name i v f.value → d'.handles.Names name i.debugId) ∧
      ∀ {keyExpr e}, f = Field.keyed keyExpr e → StandsFor scene locals name i key keyExpr →
        d'.handles.Names name i.debugId := by
  have hmoves : ∀ {next pairs d fs d'}, Drafting.FieldsOf
      (fun v d e d' => Keeps taken d d' ∧ NamesKept taken scene v d e d') next pairs d fs d' →
      Keeps taken d d' := fun h => h.moves Keeps.refl Keeps.trans And.left
  induction h with
  | nil => intro k key v f hp; simp at hp
  | positional _ hv hr ih | named _ hv hr ih =>
    obtain ⟨hs₁, -⟩ := hv.1 hs
    obtain ⟨-, he₂⟩ := hmoves hr hs₁
    intro k key v f hp hf
    cases k with
    | zero =>
      cases hp; cases hf
      exact ⟨fun h => (hv.2 hs _ (he₂.hoisted.trans hl) hn _ _ h).mono he₂.handles, nofun⟩
    | succ k => exact ih hs₁ hl hp hf
  | keyed _ hkey hv hr ih =>
    obtain ⟨hs₁, he₁⟩ := hkey.1 hs
    obtain ⟨hs₂, he₂⟩ := hv.1 hs₁
    obtain ⟨-, he₃⟩ := hmoves hr hs₂
    intro k key v f hp hf
    cases k with
    | zero =>
      cases hp; cases hf
      refine ⟨fun h => (hv.2 hs₁ _ (he₃.hoisted.trans hl) hn _ _ h).mono he₃.handles, ?_⟩
      rintro _ _ ⟨⟩ h
      exact (hkey.2 hs _ ((he₂.trans he₃).hoisted.trans hl) hn _ _ h).mono (he₂.trans he₃).handles
    | succ k => exact ih hs₂ hl hp hf

theorem table_namesKept {pairs : List (Value × Value)} {d d' : Draft} {fs : List Field}
    (h : Drafting.FieldsOf (fun v d e d' => Keeps taken d d' ∧ NamesKept taken scene v d e d')
      1 (Drafting.ordered scene pairs) d fs d') :
    NamesKept taken scene (.table pairs) d (.table fs) d' := by
  intro hs locals hl hn name i hstands
  cases hstands with
  | inKey hp hf hk => exact (fields_namesKept h hs hl hn hp hf).2 rfl hk
  | inValue hp hf hv => exact (fields_namesKept h hs hl hn hp hf).1 hv

theorem nestHandle_namesKept (i : Instance) (d : Draft) :
    NamesKept taken scene (.reference i) d (.name (d.nestHandle position i).1)
      (d.nestHandle position i).2 := by
  intro _ locals _ _ name j hstands
  cases hstands
  exact Handles.names_refer _ _ _

/-- A nested table is found again under its name, because no other local has that name. -/
theorem nestTable_namesKept {pairs : List (Value × Value)} {d d₁ : Draft} {fs : List Field}
    (h : NamesKept taken scene (.table pairs) d (.table fs) d₁) :
    NamesKept taken scene (.table pairs) d (.name (d₁.nestTable position (.table fs)).1)
      (d₁.nestTable position (.table fs)).2 := by
  intro hs locals hl hn name i hstands
  cases hstands with
  | inLocal hmem hstands =>
    have hmine : Stat.localName (d₁.nestTable position (.table fs)).1 (.table fs) ∈ locals :=
      hl.subset (List.mem_append_right _ (List.mem_singleton_self _))
    rw [eq_of_localName_mem hn hmem hmine] at hstands
    exact h hs locals ((List.prefix_append _ _).trans hl) hn name i hstands

/-- **The names handed out for an argument** stand for their instances. -/
theorem Sound.argument_names {d d' : Draft} (hs : Sound taken d) {v : Value} {drafted : Drafted}
    (hp : ∀ i, Drafting.form scene v = .handle i → ¬ taken position)
    (h : d.argument scene position v = (.ok drafted, d')) {name : String} {i : Instance}
    (hstands : StandsFor scene (d'.hoisted.drop d.hoisted.length) name i v drafted.expr) :
    d'.handles.Names name i.debugId := by
  have hs' : Sound (takenBy scene position v taken) d' := by
    have := (hs.argument hp).1
    rwa [h] at this
  -- locals that were there before do not matter: names of locals differ
  replace hstands := hstands.mono (List.drop_subset _ _)
  rcases Drafting.argument_ok_cases h with ⟨e, hf, rfl, rfl⟩ | ⟨j, hf, rfl, rfl⟩ |
    ⟨pairs, e, hf, ht, rfl⟩
  · exact absurd hstands (not_standsFor_of_form hf)
  · obtain ⟨rfl, -⟩ := Drafting.form_eq_handle hf
    cases hstands
    exact Handles.names_refer _ _ _
  · have hv := Drafting.form_eq_table hf
    subst hv
    obtain ⟨fs, room, hfs, rfl⟩ := Drafting.table_induction
      (Q := NamesKept taken scene) (fun hf _ _ _ _ _ _ h => absurd h (not_standsFor_of_form hf))
      (fun {v d i} hf => (Drafting.form_eq_handle hf).1 ▸ nestHandle_namesKept i d)
      (fun {v d pairs fs d₁ room} hf hfs => Drafting.form_eq_table hf ▸
        nestTable_namesKept (table_namesKept (fieldsOf_keeps hfs))) ht
    exact table_namesKept (fieldsOf_keeps hfs) hs _ (List.prefix_refl _) hs'.hoisted_nodup _ _
      hstands

end Draft

/-! ## Sessions -/

namespace Session

/-- A step of a session. -/
inductive Step where
  /-- An argument is drafted -/
  | argument (position : Nat) (v : Value)
  /-- The hoisted locals are taken -/
  | takeLocals

/-- The position that is drafted in a step. -/
def Step.position? : Step → Option Nat
  | argument position _ => some position
  | takeLocals => none

/-- The positions that are drafted, in order. -/
def positions (steps : List Step) : List Nat := steps.filterMap Step.position?

variable (scene : Scene)

/-- What a step does to the draft. -/
def step (d : Draft) : Step → Draft
  | .argument position v => (d.argument scene position v).2
  | .takeLocals => d.takeHoisted.2

/-- The draft after a session that starts with an empty one. -/
def run (steps : List Step) : Draft := steps.foldl (step scene) {}

theorem run_append (before after : List Step) :
    run scene (before ++ after) = after.foldl (step scene) (run scene before) :=
  List.foldl_append

variable {d : Draft} {earlier : List Nat}

theorem step_sound (hs : Draft.Sound (· ∈ earlier) d) {s : Step}
    (hp : ∀ p ∈ s.position?, p ∉ earlier) :
    Draft.Sound (· ∈ earlier ++ s.position?.toList) (step scene d s) ∧
      d.handles.entries <+: (step scene d s).handles.entries := by
  cases s with
  | argument position v =>
    have hnew : ∀ i, Drafting.form scene v = .handle i → position ∉ earlier :=
      fun _ _ => hp position rfl
    refine ⟨(hs.argument hnew).1.mono ?_, (hs.argument hnew).2.handles⟩
    rintro p (hp | ⟨rfl, -⟩)
    · exact List.mem_append_left _ hp
    · exact List.mem_append_right _ (List.mem_singleton_self p)
  | takeLocals =>
    refine ⟨?_, List.prefix_refl _⟩
    have h := hs.takeHoisted
    simpa [step, Step.position?] using h

theorem positions_cons (s : Step) (rest : List Step) :
    positions (s :: rest) = s.position?.toList ++ positions rest := by
  cases s <;> rfl

theorem positions_append (before after : List Step) :
    positions (before ++ after) = positions before ++ positions after :=
  List.filterMap_append

theorem steps_sound : ∀ {steps : List Step} {earlier : List Nat} {d : Draft},
    Draft.Sound (· ∈ earlier) d → (earlier ++ positions steps).Nodup →
      Draft.Sound (· ∈ earlier ++ positions steps) (steps.foldl (step scene) d) ∧
        d.handles.entries <+: (steps.foldl (step scene) d).handles.entries
  | [], earlier, d, hs, _ => by
    refine ⟨?_, List.prefix_refl _⟩
    simpa [positions] using hs
  | s :: rest, earlier, d, hs, hn => by
    rw [positions_cons, ← List.append_assoc] at hn ⊢
    have hnew : ∀ p ∈ s.position?, p ∉ earlier := by
      intro p hp hmem
      have hp' : p ∈ s.position?.toList := Option.mem_toList.2 hp
      exact (List.nodup_append.1 (List.nodup_append.1 hn).1).2.2 p hmem p hp' rfl
    obtain ⟨hs₁, hp₁⟩ := step_sound scene hs hnew
    obtain ⟨hs₂, hp₂⟩ := steps_sound hs₁ hn
    exact ⟨hs₂, hp₁.trans hp₂⟩

variable {scene}

theorem run_sound {steps : List Step} (hn : (positions steps).Nodup) :
    Draft.Sound (· ∈ positions steps) (run scene steps) := by
  have h : Draft.Sound (· ∈ ([] : List Nat)) {} := Draft.sound_empty
  exact (steps_sound scene h hn).1

theorem run_keeps {before after : List Step} (hn : (positions (before ++ after)).Nodup) :
    (run scene before).handles.entries <+: (run scene (before ++ after)).handles.entries := by
  rw [positions_append] at hn
  rw [run_append]
  exact (steps_sound scene (run_sound (List.nodup_append.1 hn).1) hn).2

/-- **Handles are stable.**  In a session that drafts no position twice, names and debug ids differ,
    handles are only added at the end, and a name that was handed out for an instance stands for an
    instance with its debug id ever after. -/
theorem handles_stable {steps : List Step} (hn : (positions steps).Nodup) :
    (run scene steps).handles.names.Nodup ∧ (run scene steps).handles.debugIds.Nodup ∧
      ∀ before after, steps = before ++ after →
        (run scene before).handles.entries <+: (run scene steps).handles.entries ∧
        ∀ position v rest drafted d', after = .argument position v :: rest →
          (run scene before).argument scene position v = (.ok drafted, d') →
          ∀ name i, StandsFor scene (d'.hoisted.drop (run scene before).hoisted.length) name i v
              drafted.expr →
            ∃ j, (run scene steps).handles.get? name = some j ∧ j.debugId = i.debugId := by
  refine ⟨(run scene steps).handles.names_nodup, (run_sound hn).debugIds_nodup, ?_⟩
  rintro before after rfl
  refine ⟨run_keeps hn, ?_⟩
  rintro position v rest drafted d' rfl hd name i hstands
  -- the name stands for the instance after this step, and the rest of the session keeps it
  have hsplit : before ++ .argument position v :: rest = (before ++ [.argument position v]) ++ rest :=
    by simp
  have hfirst : run scene (before ++ [.argument position v]) = d' := by
    rw [run_append]
    simp [step, hd]
  rw [hsplit] at hn ⊢
  have hpre : (positions (before ++ [.argument position v])).Nodup := by
    rw [positions_append] at hn
    exact (List.nodup_append.1 hn).1
  rw [positions_append] at hpre
  have hnew : position ∉ positions before := fun hmem =>
    (List.nodup_append.1 hpre).2.2 position hmem position (List.mem_singleton_self _) rfl
  have hnames := (run_sound (List.nodup_append.1 hpre).1).argument_names
    (fun _ _ => hnew) hd hstands
  obtain ⟨j, hj, hid⟩ := hnames.mono (hfirst ▸ run_keeps hn)
  exact ⟨j, Roster.get?_of_mem hj, hid⟩

/-- In this session an instance comes first in a table inside a table, then in an argument that is
    refused, and then by itself; its name stays that from the table. -/
theorem handle_kept :
    let scene : Scene := ⟨{}, fun i => i.name⟩
    let part : Instance := ⟨⟨"D1", "Part", "Part", .plain⟩, []⟩
    let inner : Value := .table [(.text "part", .reference part)]
    let steps : List Step := [.argument 2 (.table [(inner, .nil)]), .takeLocals,
      .argument 3 (.table [(.text "a", .reference Instance.game), (.text "b", .reference part),
        (.nil, .nil)]),
      .argument 1 (.reference part)]
    ∃ j, (run scene steps).handles.get? "_4lveInstance2_1" = some j ∧ j.debugId = "D1" := by
  intro scene part inner steps
  have hn : (positions steps).Nodup := by decide
  have hname : "_4lveInstance2_1" = LocalName.ofNested .reference 2 1 := by decide
  rw [hname]
  have hd : (run scene []).argument scene 2 (.table [(inner, .nil)]) =
      (.ok (.bound (LocalName.ofKind .table 2)
          (.table [.keyed (.name (LocalName.ofNested .table 2 2)) .nil])),
        ((run scene []).argument scene 2 (.table [(inner, .nil)])).2) := rfl
  have hl : (((run scene []).argument scene 2 (.table [(inner, .nil)])).2.hoisted.drop
      (run scene []).hoisted.length) =
        [.localName (LocalName.ofNested .table 2 2)
          (.table [.named "part" (.name (LocalName.ofNested .reference 2 1))])] := rfl
  refine ((handles_stable hn).2.2 [] steps rfl).2 2 _ _ _ _ rfl hd _ part ?_
  rw [hl]
  exact .inKey (k := 0) rfl rfl
    (.inLocal (List.mem_singleton_self _) (.inValue (k := 0) rfl rfl .here))

end Session

end Reenact
