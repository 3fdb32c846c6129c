/-
  The statements of a session.

  An argument adds the locals of the tables inside it and then its own.  Their numbers are given out
  one after another, so they ascend from argument to argument, and a local of one argument is not
  used by another.

  * `hoisted_ascending`: the numbers of the nested tables along a session;
  * `tables_hoisted`: what an argument adds amid a session.
-/
import Reenact.Proofs.Hoisting
import Reenact.Proofs.Session

namespace Reenact

namespace Session

/-! ## What comes of a step -/

variable (scene : Scene)

/-- The locals of nested tables that a step adds. -/
def hoisted (d : Draft) (s : Step) : List Stat := (step scene d s).hoisted.drop d.hoisted.length

/-- The local of the argument that is drafted in a step, if it has one. -/
def bound (d : Draft) : Step → List Stat
  | .argument position v =>
    match (d.argument scene position v).1 with
    | .ok drafted => drafted.locals
    | .error _ => []
  | .takeLocals => []

/-- The statements of a step: the local of the argument comes behind those that it needs. -/
def statements (d : Draft) (s : Step) : List Stat := hoisted scene d s ++ bound scene d s

/-- What comes of the steps of a session, one step after another. -/
def along (f : Draft → Step → List Stat) (d : Draft) : List Step → List Stat
  | [] => []
  | s :: rest => f d s ++ along f (step scene d s) rest

/-- Two locals of nested tables, the first with the lower number. -/
def NumberedBefore (s t : Stat) : Prop :=
  ∃ p q l m, s = NestedLocal.stat p l ∧ t = NestedLocal.stat q m ∧ l.number < m.number

variable {scene} {d : Draft}

theorem along_append (f : Draft → Step → List Stat) (before after : List Step) (d : Draft) :
    along scene f d (before ++ after) =
      along scene f d before ++ along scene f (before.foldl (step scene) d) after := by
  induction before generalizing d with
  | nil => rfl
  | cons s rest ih => rw [List.cons_append, along, ih, along, List.foldl_cons, List.append_assoc]

theorem mentions_map_stat (position : Nat) (locals : List NestedLocal) :
    (locals.map (NestedLocal.stat position)).flatMap Stat.mentions =
      locals.flatMap NestedLocal.mentions := by
  rw [List.flatMap_map]
  exact List.flatMap_congr fun l _ => NestedLocal.mentions_stat position l

/-- Every step hoists the tables inside what it drafts, which may be none. -/
theorem step_hoists (scene : Scene) (d : Draft) (s : Step) : ∃ position tables locals,
    hoisted scene d s = locals.map (NestedLocal.stat position) ∧
      Draft.Hoists scene position tables ((bound scene d s).flatMap Stat.mentions) d
        (step scene d s) locals := by
  cases s with
  | argument position v =>
    cases h : d.argument scene position v with
    | mk result d' =>
      simp only [hoisted, bound, step, h]
      cases result with
      | ok drafted =>
        obtain ⟨locals, hlocals, hs⟩ := Draft.argument_collects h
        exact ⟨position, _, locals, by rw [hlocals, List.drop_left], hs⟩
      | error cause =>
        refine ⟨position, [], [], ?_, .of_handles (Draft.refused_advances h) (List.nil_subset _)⟩
        rw [(Draft.argument_refused_names h).2, List.drop_length, List.map_nil]
  | takeLocals =>
    exact ⟨0, [], [], List.drop_nil, .of_handles
      ⟨Nat.le_refl _, List.Subset.refl _, fun _ _ => id⟩ (List.nil_subset _)⟩

theorem step_advances (d : Draft) (s : Step) : Draft.Advances d (step scene d s) := by
  obtain ⟨_, _, _, -, hs⟩ := step_hoists scene d s
  exact hs.advances

theorem steps_advance (steps : List Step) (d : Draft) :
    Draft.Advances d (steps.foldl (step scene) d) := by
  induction steps generalizing d with
  | nil => exact .refl d
  | cons s rest ih => exact (step_advances d s).trans _ _ _ (ih _)

/-- A table whose local is used in a session got its number in it. -/
theorem number_of_mention {p n : Nat} {steps : List Step}
    (hmem : LocalName.ofNested .table p n ∈
      (along scene (statements scene) d steps).flatMap Stat.mentions)
    (hnew : LocalName.ofNested .table p n ∉ d.handles.names) :
    d.nestedNames < n ∧ n ≤ (steps.foldl (step scene) d).nestedNames := by
  induction steps generalizing d with
  | nil => cases hmem
  | cons s rest ih =>
    obtain ⟨position, tables, locals, hlocals, hs⟩ := step_hoists scene d s
    have hnew' : LocalName.ofNested .table p n ∉ (step scene d s).handles.names :=
      fun hmem => hnew (hs.advances.tables p n hmem)
    rw [along, List.flatMap_append] at hmem
    rcases List.mem_append.1 hmem with hmem | hmem
    · rw [statements, hlocals, List.flatMap_append, mentions_map_stat] at hmem
      rcases hs.mem_of_mem hmem with ⟨l, hl, hname⟩ | hmem
      · obtain rfl : n = l.number := (LocalName.ofNested_inj hname).2.2
        exact ⟨(hs.given l hl).1,
          Nat.le_trans (hs.given l hl).2 (steps_advance rest _).number⟩
      · exact absurd hmem hnew'
    · obtain ⟨hlow, hhigh⟩ := ih hmem hnew'
      exact ⟨Nat.lt_of_le_of_lt hs.advances.number hlow, hhigh⟩

/-- The locals that a session adds have ascending numbers, all of them given out in it. -/
theorem hoisted_ascending (steps : List Step) (d : Draft) :
    (along scene (hoisted scene) d steps).Pairwise NumberedBefore ∧
      ∀ t ∈ along scene (hoisted scene) d steps, ∃ p l, t = NestedLocal.stat p l ∧
        d.nestedNames < l.number ∧ l.number ≤ (steps.foldl (step scene) d).nestedNames := by
  induction steps generalizing d with
  | nil => exact ⟨.nil, nofun⟩
  | cons s rest ih =>
    obtain ⟨position, tables, locals, hlocals, hs⟩ := step_hoists scene d s
    obtain ⟨hrest, hgiven⟩ := ih (step scene d s)
    rw [along, hlocals]
    constructor
    · refine List.pairwise_append.2 ⟨List.pairwise_map.2 ?_, hrest, ?_⟩
      · exact hs.ascending.imp fun hlt => ⟨_, _, _, _, rfl, rfl, hlt⟩
      · intro t ht u hu
        obtain ⟨l, hl, rfl⟩ := List.mem_map.1 ht
        obtain ⟨q, m, rfl, hlow, -⟩ := hgiven u hu
        exact ⟨_, _, _, _, rfl, rfl, Nat.lt_of_le_of_lt (hs.given l hl).2 hlow⟩
    · intro t ht
      rcases List.mem_append.1 ht with ht | ht
      · obtain ⟨l, hl, rfl⟩ := List.mem_map.1 ht
        exact ⟨_, l, rfl, (hs.given l hl).1,
          Nat.le_trans (hs.given l hl).2 (steps_advance rest _).number⟩
      · obtain ⟨q, m, rfl, hlow, hhigh⟩ := hgiven t ht
        exact ⟨q, m, rfl, Nat.lt_of_le_of_lt hs.advances.number hlow, hhigh⟩

/-- Only the step that gave a number uses its local. -/
theorem count_mentions {d₀ : Draft} {before after : List Step} {s : Step} {p n : Nat}
    (hnew : LocalName.ofNested .table p n ∉ d₀.handles.names)
    (hlow : (before.foldl (step scene) d₀).nestedNames < n)
    (hhigh : n ≤ (step scene (before.foldl (step scene) d₀) s).nestedNames) :
    ((along scene (statements scene) d₀ (before ++ s :: after)).flatMap Stat.mentions).count
        (LocalName.ofNested .table p n) =
      ((statements scene (before.foldl (step scene) d₀) s).flatMap Stat.mentions).count
        (LocalName.ofNested .table p n) := by
  have hbefore : LocalName.ofNested .table p n ∉
      (along scene (statements scene) d₀ before).flatMap Stat.mentions := fun hmem =>
    Nat.not_le_of_lt hlow (number_of_mention hmem hnew).2
  have hnew' : LocalName.ofNested .table p n ∉
      (step scene (before.foldl (step scene) d₀) s).handles.names := fun hmem =>
    hnew ((steps_advance before d₀).tables p n ((step_advances _ s).tables p n hmem))
  have hafter : LocalName.ofNested .table p n ∉ (along scene (statements scene)
      (step scene (before.foldl (step scene) d₀) s) after).flatMap Stat.mentions := fun hmem =>
    Nat.not_lt_of_le hhigh (number_of_mention hmem hnew').1
  rw [along_append, along, List.flatMap_append, List.flatMap_append, List.count_append,
    List.count_append, List.count_eq_zero_of_not_mem hbefore,
    List.count_eq_zero_of_not_mem hafter, Nat.zero_add, Nat.add_zero]

/-! ## Arguments amid a session -/

/-- The local of a nested table is used once in a session: by the argument that it is added for, and
    behind the place where it is declared. -/
theorem used_once {d₀ : Draft} {before after : List Step} {s : Step} {position : Nat}
    {tables : List (List (Value × Value))} {ls ms : List NestedLocal} {l : NestedLocal}
    (hadded : hoisted scene (before.foldl (step scene) d₀) s =
      (ls ++ l :: ms).map (NestedLocal.stat position))
    (hs : Draft.Hoists scene position tables
      ((bound scene (before.foldl (step scene) d₀) s).flatMap Stat.mentions)
      (before.foldl (step scene) d₀) (step scene (before.foldl (step scene) d₀) s) (ls ++ l :: ms))
    (hnew : l.name position ∉ d₀.handles.names) :
    ((along scene (statements scene) d₀ (before ++ s :: after)).flatMap Stat.mentions).count
        (l.name position) = 1 ∧
      ((ms.map (NestedLocal.stat position) ++
        bound scene (before.foldl (step scene) d₀) s).flatMap Stat.mentions).count
          (l.name position) = 1 := by
  have hnew' : l.name position ∉ (step scene (before.foldl (step scene) d₀) s).handles.names :=
    fun hmem => hnew ((steps_advance before d₀).tables _ _ (hs.advances.tables _ _ hmem))
  have hl : l ∈ ls ++ l :: ms := List.mem_append_right _ List.mem_cons_self
  constructor
  · refine (count_mentions hnew (hs.given l hl).1 (hs.given l hl).2).trans ?_
    rw [statements, hadded, List.flatMap_append, mentions_map_stat]
    exact hs.count_name hl hnew'
  · rw [List.flatMap_append, mentions_map_stat]
    exact hs.count_name_later hnew'

/-- The names that an argument declares can be variables. -/
theorem isName_of_declared {d d' : Draft} {position : Nat} {v : Value} {drafted : Drafted}
    (h : d.argument scene position v = (.ok drafted, d')) (locals : List NestedLocal) :
    ∀ name ∈ (locals.map (NestedLocal.stat position) ++ drafted.locals).flatMap Stat.declared,
      isName name = true := by
  intro name hmem
  rw [List.flatMap_append] at hmem
  rcases List.mem_append.1 hmem with hmem | hmem
  · obtain ⟨t, ht, hmem⟩ := List.mem_flatMap.1 hmem
    obtain ⟨l, -, rfl⟩ := List.mem_map.1 ht
    rw [List.mem_singleton.1 hmem]
    exact LocalName.isName_ofNested _ _ _
  · rw [Draft.declared_of_argument h name hmem]
    exact LocalName.isName_ofArgument v position

/-- **Tables are hoisted completely, linearly and in scope.**  An argument that is drafted amid a
    session, on whatever draft that began with, adds one local for each table strictly inside it,
    those of the tables inside a table before its own; along the whole session the numbers of such
    locals ascend; each of them is used once, behind its declaration and by the same argument; the
    other variables of the argument are names of handles; and all names that it declares can be
    variables.  A local that has the name of a handle from before the session is used as that
    handle too. -/
theorem tables_hoisted {d₀ d' : Draft} {before after : List Step} {position : Nat} {v : Value}
    {drafted : Drafted}
    (h : (before.foldl (step scene) d₀).argument scene position v = (.ok drafted, d')) :
    let d := before.foldl (step scene) d₀
    let steps := before ++ .argument position v :: after
    let added := hoisted scene d (.argument position v)
    d'.hoisted = d.hoisted ++ added ∧
      (∃ locals, added = locals.map (NestedLocal.stat position) ∧
        List.Forall₂ (NestedLocal.IsFor scene) (v.innerTables scene) locals) ∧
      (along scene (hoisted scene) d₀ steps).Pairwise NumberedBefore ∧
      (∀ earlier name e later, added = earlier ++ .localName name e :: later →
        name ∉ d₀.handles.names →
          ((along scene (statements scene) d₀ steps).flatMap Stat.mentions).count name = 1 ∧
            ((later ++ drafted.locals).flatMap Stat.mentions).count name = 1) ∧
      (∀ name ∈ (added ++ drafted.locals).flatMap Stat.mentions,
        name ∈ added.flatMap Stat.declared ∨ name ∈ d'.handles.names) ∧
      ∀ name ∈ (added ++ drafted.locals).flatMap Stat.declared, isName name = true := by
  intro d steps added
  obtain ⟨locals, hlocals, hs⟩ := Draft.argument_collects h
  have hstep : step scene d (.argument position v) = d' := congrArg Prod.snd h
  have hbound : bound scene d (.argument position v) = drafted.locals := by
    rw [bound, show d.argument scene position v = (.ok drafted, d') from h]
  have hadded : added = locals.map (NestedLocal.stat position) := by
    rw [show added = d'.hoisted.drop d.hoisted.length by rw [← hstep]; rfl, hlocals,
      List.drop_left]
  refine ⟨hadded ▸ hlocals, ⟨locals, hadded, hs.complete⟩, (hoisted_ascending steps d₀).1, ?_,
    fun name hmem => ?_, hadded ▸ isName_of_declared h locals⟩
  · rintro earlier name e later heq hnew
    -- the statement is the local of one of the tables
    obtain ⟨ls, rest, rfl, rfl, hrest⟩ := List.map_eq_append_iff.1 (hadded.symm.trans heq)
    obtain ⟨l, ms, rfl, hl, rfl⟩ := List.map_eq_cons_iff.1 hrest
    obtain rfl : l.name position = name := by cases hl; rfl
    rw [← hbound, ← hstep] at hs
    rw [← hbound]
    exact used_once hadded hs hnew
  · rw [hadded, List.flatMap_append, mentions_map_stat] at hmem
    rcases hs.mem_of_mem hmem with ⟨l, hl, rfl⟩ | hmem
    · exact Or.inl (List.mem_flatMap.2 ⟨_, hadded ▸ List.mem_map_of_mem hl,
        List.mem_singleton_self _⟩)
    · exact Or.inr hmem

/-- Here an argument has a table as a key, and behind it a table inside another; an argument that was
    refused before has used up the first number, and the object in the key the second. -/
theorem table_key_hoisted :
    let scene : Scene := ⟨{}, fun i => i.name⟩
    let part : Instance := ⟨⟨"D1", "Part", "Part", .plain⟩, []⟩
    let key : Value := .table [(.text "part", .reference part)]
    let v : Value := .table [(key, .table [(.boolean true, .table [])])]
    let before : List Step := [.argument 1 (.table [(.text "a", .table []), (.nil, .nil)])]
    let d : Draft := before.foldl (step scene) {}
    let steps : List Step := before ++ .argument 2 v :: [.takeLocals]
    (∃ drafted d', d.argument scene 2 v = (.ok drafted, d')) ∧
      (hoisted scene d (.argument 2 v)).flatMap Stat.declared =
        [3, 4, 5].map (LocalName.ofNested .table 2) ∧
      ∀ n ∈ [3, 4, 5], ((along scene (statements scene) {} steps).flatMap Stat.mentions).count
        (LocalName.ofNested .table 2 n) = 1 := by
  intro scene part key v before d steps
  have h : d.argument scene 2 v = (.ok (.bound (LocalName.ofKind .table 2) (.table
      [.keyed (.name (LocalName.ofNested .table 2 3)) (.name (LocalName.ofNested .table 2 5))])),
      (d.argument scene 2 v).2) := rfl
  have hused := (@tables_hoisted scene {} _ before [.takeLocals] 2 v _ h).2.2.2.1
  have hnew : ∀ name, name ∉ ({} : Draft).handles.names := fun _ => nofun
  refine ⟨⟨_, _, h⟩, rfl, fun n hn => ?_⟩
  simp only [List.mem_cons, List.not_mem_nil, or_false] at hn
  rcases hn with rfl | rfl | rfl
  · exact (hused [] _ _ _ rfl (hnew _)).1
  · exact (hused [_] _ _ _ rfl (hnew _)).1
  · exact (hused [_, _] _ _ _ rfl (hnew _)).1

end Session

end Reenact
