/-
  The names that a snippet declares.

  They are those of the resolving function and of the reply, the handles, the locals of nested
  tables, and one local of its own for each argument that is no handle.  Each of these sorts has
  distinct names, and only one pair of sorts can meet: a value of another form is named after its
  type, and a type whose name reads like a form and a position gives it the name of a table or
  instance inside the argument there (`ofArgument_other_eq_ofNested_iff`).

  `declared_nodup_iff`: the names of a snippet differ exactly if that does not happen.
-/
import Mathlib.Data.List.Perm.Basic
import Reenact.Proofs.Preservation

namespace Reenact

open LocalName (Shape)

/-! ## Names of values of other forms -/

namespace LocalName

/-- A value of another form has the name of a nested table or instance exactly if its type is named
    like the form and position of that, and its own position is the number of that. -/
theorem ofArgument_other_eq_ofNested_iff {typeName source : String} {kind : Kind}
    {position p n : Nat} :
    ofArgument (.other typeName source) position = ofNested kind p n ↔
      sanitized typeName = kind.tag ++ toString p ∧ position = n := by
  constructor
  · intro h
    obtain ⟨hs, hn⟩ := numbered_inj (isStem_underscore _) (isStem_underscore _) h
    have ht : lead ++ sanitized typeName = lead ++ (kind.tag ++ toString p) := by
      rw [← String.append_assoc]
      exact (String.append_left_inj "_").1 hs
    exact ⟨(String.append_right_inj lead).1 ht, hn⟩
  · rintro ⟨ht, rfl⟩
    simp only [ofArgument, ofNested, ofKind, ht, String.append_assoc]

theorem ofArgument_other_ne_ofKind {typeName source : String} {position p : Nat} :
    ofArgument (.other typeName source) position ≠ ofKind .reference p := by
  intro h
  obtain ⟨hs, -⟩ := numbered_inj (isStem_underscore _) (isStem_tag .reference) h
  have hlast : (lead ++ Kind.reference.tag).toList.getLast? = some '_' := by rw [← hs]; simp
  exact absurd hlast (by decide)

/-- The name of the local of an argument ends in its position. -/
theorem ofArgument_eq_numbered (v : Value) (position : Nat) :
    ∃ s, IsStem s ∧ ofArgument v position = s ++ toString position := by
  cases v with
  | other typeName source => exact ⟨_, isStem_underscore _, rfl⟩
  | _ => exact ⟨_, isStem_tag _, rfl⟩

theorem head?_ofArgument (v : Value) (position : Nat) :
    (ofArgument v position).toList.head? = some '_' := by
  cases v with
  | other typeName source => simp only [ofArgument, String.append_assoc, head?_lead_append]
  | _ => exact (Shape.argument _ position).head?_text

end LocalName

/-! ## Names of arguments -/

/-- The local of an argument itself, if it has one. -/
def WrittenArgument.own (a : WrittenArgument) : List Stat :=
  match a.outcome with
  | .ok drafted => drafted.locals
  | .error cause => [.localName (LocalName.ofFailed a.position) (placeholder cause)]

/-- The name that the argument `v` gives to a local of its own. -/
def IsOwnName (scene : Scene) (position : Nat) (v : Value) (name : String) : Prop :=
  name = LocalName.ofFailed position ∨
    name = LocalName.ofArgument v position ∧ ∀ i, Drafting.form scene v ≠ .handle i

variable {scene : Scene} {position : Nat} {v : Value} {name : String}

theorem IsOwnName.eq_numbered (h : IsOwnName scene position v name) :
    ∃ s, LocalName.IsStem s ∧ name = s ++ toString position := by
  rcases h with rfl | ⟨rfl, -⟩
  · exact ⟨_, LocalName.isStem_error, rfl⟩
  · exact LocalName.ofArgument_eq_numbered v position

/-- Arguments at different positions give different names. -/
theorem IsOwnName.position_eq {q : Nat} {w : Value} (h : IsOwnName scene position v name)
    (h' : IsOwnName scene q w name) : position = q := by
  obtain ⟨s, hs, rfl⟩ := h.eq_numbered
  obtain ⟨t, ht, he⟩ := h'.eq_numbered
  exact (LocalName.numbered_inj hs ht he).2

theorem IsOwnName.head? (h : IsOwnName scene position v name) : name.toList.head? = some '_' := by
  rcases h with rfl | ⟨rfl, -⟩
  · exact (Shape.failed position).head?_text
  · exact LocalName.head?_ofArgument v position

theorem writeArgument_locals_eq (scene : Scene) (position : Nat) (v : Value) (d : Draft) :
    (writeArgument scene position v d).1.locals =
      (writeArgument scene position v d).1.hoisted ++ (writeArgument scene position v d).1.own := by
  rcases writeArgument_cases scene position v d with ⟨drafted, d', -, hw⟩ | ⟨cause, d', -, hw⟩ <;>
    (rw [hw]; rfl)

/-- An argument gives at most one name to a local of its own. -/
theorem writeArgument_own (scene : Scene) (position : Nat) (v : Value) (d : Draft) :
    (writeArgument scene position v d).1.own.flatMap Stat.declared = [] ∨
      ∃ name, (writeArgument scene position v d).1.own.flatMap Stat.declared = [name] ∧
        IsOwnName scene position v name := by
  rcases writeArgument_cases scene position v d with ⟨drafted, d', h, hw⟩ | ⟨cause, d', h, hw⟩
  · rw [hw]
    rcases Drafting.argument_ok_cases h with ⟨e, hf, rfl, -⟩ | ⟨i, hf, rfl, -⟩ |
      ⟨pairs, e, hf, -, rfl⟩
    · exact Or.inr ⟨_, rfl, Or.inr ⟨rfl, by simp [hf]⟩⟩
    · exact Or.inl rfl
    · exact Or.inr ⟨_, rfl, Or.inr ⟨rfl, by simp [hf]⟩⟩
  · rw [hw]
    exact Or.inr ⟨_, rfl, Or.inl rfl⟩

theorem writeArgument_hoisted {taken : Nat → Prop} {d : Draft} (hr : d.Ready taken position)
    (scene : Scene) (v : Value) :
    ((writeArgument scene position v d).1.hoisted.flatMap Stat.declared).Nodup ∧
      ∀ name ∈ (writeArgument scene position v d).1.hoisted.flatMap Stat.declared,
        ∃ n, name = (Shape.nested .table position n).text := by
  rcases writeArgument_cases scene position v d with ⟨drafted, d', h, hw⟩ | ⟨cause, d', h, hw⟩
  · rw [hw]
    have hs : Draft.Sound (Draft.takenBy scene position v taken) d' := by
      have hnew : ∀ i, Drafting.form scene v = .handle i → ¬ taken position :=
        fun _ _ htaken => Nat.lt_irrefl _ (hr.taken_lt position htaken)
      have := (hr.sound.argument hnew).1
      rwa [h] at this
    refine ⟨hs.hoisted_nodup, fun name hmem => ?_⟩
    obtain ⟨s, hmem, hname⟩ := List.mem_flatMap.1 hmem
    rcases argument_hoistsAt h s hmem with hold | ⟨n, e, rfl⟩
    · rw [hr.hoisted] at hold
      cases hold
    · exact ⟨n, List.mem_singleton.1 hname⟩
  · rw [hw]
    exact ⟨List.nodup_nil, nofun⟩

/-! ## Names of all arguments -/

/-- The names that arguments give to locals of their own. -/
def ownNames (as : List WrittenArgument) : List String :=
  as.flatMap fun a => a.own.flatMap Stat.declared

/-- The names of the nested tables in arguments. -/
def tableNames (as : List WrittenArgument) : List String :=
  as.flatMap fun a => a.hoisted.flatMap Stat.declared

theorem writeArguments_own (scene : Scene) : ∀ (vs : List Value) (position : Nat) (d : Draft),
    (ownNames (writeArguments scene position vs d).1).Nodup ∧
      ∀ name ∈ ownNames (writeArguments scene position vs d).1,
        ∃ (k : Nat) (v : Value), vs[k]? = some v ∧ IsOwnName scene (position + k) v name
  | [], _, _ => ⟨List.nodup_nil, nofun⟩
  | v :: rest, position, d => by
    obtain ⟨hnodup, hrest⟩ := writeArguments_own scene rest (position + 1)
      (writeArgument scene position v d).2
    have htail : ∀ name ∈ ownNames (writeArguments scene (position + 1) rest
        (writeArgument scene position v d).2).1,
        ∃ (k : Nat) (w : Value), (v :: rest)[k + 1]? = some w ∧
          IsOwnName scene (position + (k + 1)) w name := by
      intro name hmem
      obtain ⟨k, w, hw, hname⟩ := hrest name hmem
      exact ⟨k, w, hw, by rwa [Nat.add_assoc, Nat.add_comm 1 k] at hname⟩
    rw [writeArguments, ownNames, List.flatMap_cons]
    rcases writeArgument_own scene position v d with he | ⟨own, he, hown⟩
    · rw [he, List.nil_append]
      refine ⟨hnodup, fun name hmem => ?_⟩
      obtain ⟨k, w, hw⟩ := htail name hmem
      exact ⟨k + 1, w, hw⟩
    · rw [he, List.singleton_append, List.nodup_cons]
      refine ⟨⟨fun hmem => ?_, hnodup⟩, fun name hmem => ?_⟩
      · obtain ⟨k, w, -, hw⟩ := htail own hmem
        have := hown.position_eq hw
        omega
      · rcases List.mem_cons.1 hmem with rfl | hmem
        · exact ⟨0, v, rfl, hown⟩
        · obtain ⟨k, w, hw⟩ := htail name hmem
          exact ⟨k + 1, w, hw⟩

theorem writeArguments_own_other (scene : Scene) {typeName source : String} :
    ∀ {vs : List Value} {k : Nat} (position : Nat) (d : Draft),
      vs[k]? = some (.other typeName source) →
        LocalName.ofArgument (.other typeName source) (position + k) ∈
          ownNames (writeArguments scene position vs d).1
  | v :: rest, 0, position, d, h => by
    cases h
    rw [writeArguments, ownNames, List.flatMap_cons]
    exact List.mem_append_left _ (List.mem_singleton_self _)
  | v :: rest, k + 1, position, d, h => by
    have hmem := writeArguments_own_other scene (position + 1)
      (writeArgument scene position v d).2 (show rest[k]? = _ from h)
    rw [Nat.add_assoc, Nat.add_comm 1 k] at hmem
    rw [writeArguments, ownNames, List.flatMap_cons]
    exact List.mem_append_right _ hmem

theorem writeArguments_tables (scene : Scene) : ∀ (vs : List Value) {position : Nat}
    {taken : Nat → Prop} {d : Draft}, d.Ready taken position →
    (tableNames (writeArguments scene position vs d).1).Nodup ∧
      ∀ name ∈ tableNames (writeArguments scene position vs d).1,
        ∃ (k n : Nat) (v : Value), vs[k]? = some v ∧
          name = (Shape.nested .table (position + k) n).text
  | [], _, _, _, _ => ⟨List.nodup_nil, nofun⟩
  | v :: rest, position, taken, d, hr => by
    obtain ⟨hfirst, hnested⟩ := writeArgument_hoisted hr scene v
    obtain ⟨hnodup, hrest⟩ := writeArguments_tables scene rest (hr.writeArgument scene v).1
    rw [writeArguments, tableNames, List.flatMap_cons]
    refine ⟨List.nodup_append.2 ⟨hfirst, hnodup, ?_⟩, fun name hmem => ?_⟩
    · rintro name hmem _ hmem' rfl
      obtain ⟨n, hn⟩ := hnested name hmem
      obtain ⟨k, m, w, -, hm⟩ := hrest name hmem'
      have hshape := Shape.text_injective (hn.symm.trans hm)
      injection hshape with _ hposition _
      omega
    · rcases List.mem_append.1 hmem with hmem | hmem
      · obtain ⟨n, hn⟩ := hnested name hmem
        exact ⟨0, n, v, rfl, hn⟩
      · obtain ⟨k, n, w, hw, hn⟩ := hrest name hmem
        exact ⟨k + 1, n, w, hw, by rwa [Nat.add_assoc, Nat.add_comm 1 k] at hn⟩

/-! ## Snippets -/

namespace Reconstruction

/-- The names that the statements of a snippet declare, in order. -/
def declared (r : Reconstruction) : List String := (r.statements ++ [r.call]).flatMap Stat.declared

/-- The handles, and the names of nested tables. -/
def innerNames (r : Reconstruction) : List String := r.handles.names ++ tableNames r.arguments

/-- The names of the function and of the reply, if the snippet has them. -/
def fixedNames (r : Reconstruction) : List String :=
  (if r.handles.isEmpty then [] else [Resolution.functionName]) ++ r.call.declared

theorem declared_perm {r : Reconstruction} (h : ∀ a ∈ r.arguments, a.locals = a.hoisted ++ a.own) :
    r.declared.Perm (r.fixedNames ++ (r.innerNames ++ ownNames r.arguments)) := by
  have hlocals : (r.locals.flatMap Stat.declared).Perm
      (tableNames r.arguments ++ ownNames r.arguments) := by
    have heq : r.locals.flatMap Stat.declared =
        r.arguments.flatMap fun a =>
          a.hoisted.flatMap Stat.declared ++ a.own.flatMap Stat.declared := by
      rw [Reconstruction.locals, List.flatMap_assoc]
      refine List.flatMap_congr fun a ha => ?_
      rw [h a ha, List.flatMap_append]
    rw [heq]
    exact (List.flatMap_append_perm _ _ _).symm
  have hpreamble : (if r.handles.isEmpty then []
      else [Resolution.function, Resolution.bind r.handles]).flatMap Stat.declared =
      (if r.handles.isEmpty then [] else [Resolution.functionName]) ++ r.handles.names := by
    split
    · rename_i hempty
      rw [Roster.isEmpty, List.isEmpty_iff] at hempty
      simp [Roster.names, hempty]
    · simp [Resolution.function, Resolution.bind, Stat.declared]
  rw [declared, statements, List.flatMap_append, List.flatMap_append, hpreamble, fixedNames,
    innerNames, List.flatMap_singleton]
  refine List.perm_iff_count.2 fun name => ?_
  have hcount := List.perm_iff_count.1 hlocals name
  simp only [List.count_append] at hcount ⊢
  omega

end Reconstruction

theorem writeArguments_locals_eq (scene : Scene) : ∀ (vs : List Value) (position : Nat) (d : Draft),
    ∀ a ∈ (writeArguments scene position vs d).1, a.locals = a.hoisted ++ a.own
  | [], _, _, _, h => by cases h
  | v :: rest, position, d, a, h => by
    rcases List.mem_cons.1 h with rfl | h
    · exact writeArgument_locals_eq scene position v d
    · exact writeArguments_locals_eq scene rest (position + 1) _ a h

theorem declared_callStatement (kind : RemoteKind) (target : Expr) (names : List String) :
    (callStatement kind target names).declared = [] ∨
      (callStatement kind target names).declared = [replyName] := by
  cases kind with
  | remoteEvent | bindableEvent => exact Or.inl rfl
  | remoteFunction | bindableFunction => exact Or.inr rfl

section
variable {c : Call} {r : Reconstruction}

theorem fixedNames_of_reconstruct? (hr : reconstruct? scene c = some r) :
    r.fixedNames.Nodup ∧ ∀ name ∈ r.fixedNames, name ≠ remoteHandle ∧
      name.toList.head? ≠ some '_' := by
  have hsub : r.fixedNames.Sublist [Resolution.functionName, replyName] := by
    have hcall : r.call.declared.Sublist [replyName] := by
      rw [reconstruct?_eq (isSome_of_reconstruct? hr)] at hr
      cases hr
      rcases declared_callStatement c.remoteKind
        (remoteTarget scene c.remote (writeArguments scene 1 c.arguments {}).2.handles).1
        ((writeArguments scene 1 c.arguments {}).1.map (·.name)) with he | he
      · simp [he]
      · simp [he]
    rw [Reconstruction.fixedNames]
    split
    · exact hcall.cons _
    · exact hcall.cons_cons _
  refine ⟨(by decide : [Resolution.functionName, replyName].Nodup).sublist hsub, fun name hmem => ?_⟩
  rcases List.mem_cons.1 (hsub.subset hmem) with rfl | hmem
  · decide
  · rw [List.mem_singleton.1 hmem]
    decide

/-- What a handle or the local of a nested table can be named. -/
theorem innerNames_of_reconstruct? (hr : reconstruct? scene c = some r) :
    r.innerNames.Nodup ∧ ∀ name ∈ r.innerNames, name = remoteHandle ∨
      (∃ p, takenByAll scene 1 c.arguments (fun _ => False) p ∧
        name = (Shape.argument .reference p).text) ∨
      ∃ kind p n, name = (Shape.nested kind p n).text := by
  obtain ⟨hs, -⟩ := Draft.ready_empty.writeArguments scene c.arguments
  obtain ⟨-, ho⟩ := remoteTarget_handles hs scene c.remote
  obtain ⟨htables, hnested⟩ := writeArguments_tables scene c.arguments Draft.ready_empty
  rw [reconstruct?_eq (isSome_of_reconstruct? hr)] at hr
  cases hr
  refine ⟨List.nodup_append.2 ⟨Roster.names_nodup _, htables, ?_⟩, fun name hmem => ?_⟩
  · rintro name hmem _ hmem' rfl
    obtain ⟨k, n, v, hv, rfl⟩ := hnested name hmem'
    exact ho.not_mem ⟨_, rfl, rfl, Or.inr (Or.inl ⟨n, rfl⟩)⟩
      (fun ht => form_of_takenByAll hv ht) hmem
  · rcases List.mem_append.1 hmem with hmem | hmem
    · rcases ho name hmem with hn | ⟨p, hp, hn⟩ | ⟨p, n, -, hn⟩
      · exact Or.inl hn
      · exact Or.inr (Or.inl ⟨p, hp, hn⟩)
      · exact Or.inr (Or.inr ⟨_, p, n, hn⟩)
    · obtain ⟨k, n, v, -, hn⟩ := hnested name hmem
      exact Or.inr (Or.inr ⟨_, _, n, hn⟩)

/-- **Only a value of another form can be named like a handle or a nested table**, and only if its
    type is named like the form and position of that. -/
theorem other_of_mem_innerNames (hr : reconstruct? scene c = some r) {k : Nat}
    (hv : c.arguments[k]? = some v) (hown : IsOwnName scene (1 + k) v name)
    (hmem : name ∈ r.innerNames) :
    ∃ typeName source kind p, v = .other typeName source ∧
      LocalName.sanitized typeName = kind.tag ++ toString p ∧
      name = LocalName.ofNested kind p (k + 1) := by
  have hinner := (innerNames_of_reconstruct? hr).2 name hmem
  -- the name of a shape is that of a handle or nested table only if the shapes are the same
  have hshape : ∀ s : Shape, name = s.text →
      (∃ p, takenByAll scene 1 c.arguments (fun _ => False) p ∧ s = .argument .reference p) ∨
        ∃ kind p n, s = .nested kind p n := by
    rintro s rfl
    rcases hinner with hn | ⟨p, hp, hn⟩ | ⟨kind, p, n, hn⟩
    · exact absurd hn (text_ne_remoteHandle s)
    · exact Or.inl ⟨p, hp, Shape.text_injective hn⟩
    · exact Or.inr ⟨kind, p, n, Shape.text_injective hn⟩
  rcases hown with hfailed | ⟨rfl, hform⟩
  · rcases hshape (.failed (1 + k)) hfailed with ⟨p, -, hp⟩ | ⟨kind, p, n, hp⟩ <;> cases hp
  · by_cases hk : v.kind = .other
    · cases v with
      | other typeName source =>
        rcases hinner with hn | ⟨p, -, hn⟩ | ⟨kind, p, n, hn⟩
        · have hhead := LocalName.head?_ofArgument (.other typeName source) (1 + k)
          rw [hn] at hhead
          exact absurd hhead (by decide)
        · exact absurd hn LocalName.ofArgument_other_ne_ofKind
        · obtain ⟨ht, rfl⟩ := LocalName.ofArgument_other_eq_ofNested_iff.1 hn
          refine ⟨typeName, source, kind, p, rfl, ht, ?_⟩
          rw [Nat.add_comm k 1]
          exact hn
      | _ => cases hk
    · rcases hshape _ (ofArgument_eq hk) with ⟨p, hp, hs⟩ | ⟨kind, p, n, hs⟩
      · injection hs with _ hposition
        subst hposition
        obtain ⟨i, hi⟩ := form_of_takenByAll hv hp
        exact absurd hi (hform i)
      · cases hs

end

/-- **The names that a snippet declares differ**, except that a value of another form takes the name
    of a table or instance inside the argument at `p` if its type is named like the form and `p`, and
    its own position is the number of that. -/
theorem declared_nodup_iff {c : Call} (hscript : c.script.isSome) :
    ∃ r, reconstruct? scene c = some r ∧
      (r.declared.Nodup ↔
        ∀ (k : Nat) (typeName source : String), c.arguments[k]? = some (.other typeName source) →
          ∀ (kind : Kind) (p : Nat), LocalName.sanitized typeName = kind.tag ++ toString p →
            LocalName.ofNested kind p (k + 1) ∉ r.innerNames) := by
  refine ⟨_, reconstruct?_eq hscript, ?_⟩
  have hr : reconstruct? scene c = some _ := reconstruct?_eq hscript
  generalize hrec : Reconstruction.mk _ _ _ _ = r at hr ⊢
  have hargs : r.arguments = (writeArguments scene 1 c.arguments {}).1 := by rw [← hrec]
  obtain ⟨hfixed, hfixed'⟩ := fixedNames_of_reconstruct? hr
  obtain ⟨hinner, hinner'⟩ := innerNames_of_reconstruct? hr
  obtain ⟨hown, hown'⟩ := writeArguments_own scene c.arguments 1 {}
  rw [← hargs] at hown hown'
  have hperm := Reconstruction.declared_perm (r := r) (hargs ▸ writeArguments_locals_eq scene _ 1 {})
  rw [hperm.nodup_iff, List.nodup_append, List.nodup_append]
  constructor
  · rintro ⟨-, ⟨-, -, hdisjoint⟩, -⟩ k typeName source hv kind p ht hmem
    have hself := writeArguments_own_other scene 1 {} hv
    rw [LocalName.ofArgument_other_eq_ofNested_iff.2 ⟨ht, Nat.add_comm 1 k⟩, ← hargs] at hself
    exact hdisjoint _ hmem _ hself rfl
  · intro hno
    refine ⟨hfixed, ⟨hinner, hown, ?_⟩, ?_⟩
    · rintro name hmem _ hmem' rfl
      obtain ⟨k, v, hv, hname⟩ := hown' name hmem'
      obtain ⟨typeName, source, kind, p, rfl, ht, rfl⟩ :=
        other_of_mem_innerNames hr hv hname hmem
      exact hno k typeName source hv kind p ht hmem
    · rintro name hmem _ hmem' rfl
      obtain ⟨hremote, hhead⟩ := hfixed' name hmem
      rcases List.mem_append.1 hmem' with hmem' | hmem'
      · rcases hinner' name hmem' with hn | ⟨p, -, rfl⟩ | ⟨kind, p, n, rfl⟩
        · exact hremote hn
        · exact hhead (Shape.head?_text _)
        · exact hhead (Shape.head?_text _)
      · obtain ⟨k, v, -, hname⟩ := hown' name hmem'
        exact hhead hname.head?

/-- Here a type is named like the table in argument 1, but the number of that is another. -/
theorem declared_nodup_of_other :
    let inner : Value := .table [(.text "a", .table [])]
    let c : Call := ⟨some Instance.game, [inner, .nil, .other "Table1" "x"], Instance.game,
      .remoteEvent, none, .game⟩
    ∃ r, reconstruct? ⟨{}, fun i => i.name⟩ c = some r ∧ r.declared.Nodup := by
  intro inner c
  obtain ⟨r, hr, hiff⟩ := @declared_nodup_iff ⟨{}, fun i => i.name⟩ c rfl
  refine ⟨r, hr, hiff.2 fun k typeName source hv kind p _ hmem => ?_⟩
  have hk : k = 2 := by
    match k, hv with
    | 0, hv | 1, hv => simp [c, inner] at hv
    | 2, _ => rfl
    | k + 3, hv => cases hv
  have hinner : (reconstruct? ⟨{}, fun i => i.name⟩ c).map Reconstruction.innerNames =
      some [remoteHandle, LocalName.ofNested .table 1 1] := rfl
  rw [hr, Option.map_some, Option.some_inj] at hinner
  rw [hinner, hk] at hmem
  rcases List.mem_pair.1 hmem with he | he
  · exact text_ne_remoteHandle (.nested kind p 3) he
  · exact absurd (LocalName.ofNested_inj he).2.2 (by decide)

/-- Argument 2 is named like the second instance in argument 1, whose handle it hides: argument 3 and
    the remote are that instance. -/
theorem handle_hidden_by_other :
    let part : Instance := ⟨⟨"D1", "Part", "Part", .plain⟩, []⟩
    let both : Value := .table [(.text "a", .reference Instance.game), (.text "b", .reference part)]
    let c : Call := ⟨some part, [both, .other "Instance1" "x", .reference part], part, .remoteEvent,
      none, .game⟩
    ∃ r, reconstruct? ⟨{}, fun i => i.name⟩ c = some r ∧
      r.declared = ["GetInstancesFromIds", "_4lveInstance1_1", "_4lveInstance1_2", "_4lveTable1",
        "_4lveInstance1_2"] ∧ ¬ r.declared.Nodup ∧
      r.call.passed = [.name "_4lveTable1", .name "_4lveInstance1_2", .name "_4lveInstance1_2"] := by
  intro part both c
  have hfirst : LocalName.ofNested .reference 1 1 = "_4lveInstance1_1" := by decide
  have hsecond : LocalName.ofNested .reference 1 2 = "_4lveInstance1_2" := by decide
  have htable : LocalName.ofArgument both 1 = "_4lveTable1" := by decide
  have hother : LocalName.ofArgument (.other "Instance1" "x") 2 = "_4lveInstance1_2" := by
    decide +kernel
  have hdeclared : (reconstruct? ⟨{}, fun i => i.name⟩ c).map Reconstruction.declared =
      some [Resolution.functionName, LocalName.ofNested .reference 1 1,
        LocalName.ofNested .reference 1 2, LocalName.ofArgument both 1,
        LocalName.ofArgument (.other "Instance1" "x") 2] := rfl
  have hpassed : (reconstruct? ⟨{}, fun i => i.name⟩ c).map (·.call.passed) =
      some [.name (LocalName.ofArgument both 1),
        .name (LocalName.ofArgument (.other "Instance1" "x") 2),
        .name (LocalName.ofNested .reference 1 2)] := rfl
  rw [hfirst, hsecond, htable, hother] at hdeclared
  rw [hsecond, htable, hother] at hpassed
  obtain ⟨r, hr, hd⟩ := Option.map_eq_some_iff.1 hdeclared
  rw [hr, Option.map_some, Option.some_inj] at hpassed
  refine ⟨r, hr, hd, ?_, hpassed⟩
  rw [hd]
  decide

end Reenact
