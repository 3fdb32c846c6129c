/-
  A refused argument does not reach the others.

  Two passes are compared: over a call with an argument that is refused, and over that call with nil
  in its place.  What the refused argument added is dropped, so behind it the passes go on from the
  same handles, but for the numbers of nested names, of which the first pass has given out more.
  From there on each step does in one pass what it does in the other, under other numbers: it finds
  or adds the same handle, hoists the same table, or is refused for the same reason.

  * `Drafting.Parallel`: two steps that do the same but for the names; `table_parallel` has it of a
    table and `writeArguments_renumbered` of arguments;
  * `refusal_isolated`: one strictly increasing renumbering takes every other argument of the pass
    over nil to that of the other pass, and the handles have the same instances in the same order.
-/
import Reenact.Proofs.Preservation
import Reenact.Proofs.Renaming

namespace Reenact

open LocalName (Shape renumber)

/-! ## Drafts under other numbers -/

/-- The second draft is the first one with its names renumbered, and so will be what is given out
    next, for the numbers up to `stop` of the first. -/
structure Draft.Renumbered (f : Nat → Nat) (stop : Nat) (d d' : Draft) : Prop where
  handles : Handles.Renamed (renumber f) d.handles d'.handles
  hoisted : d'.hoisted = d.hoisted.map (Stat.rename (renumber f))
  later : ∀ n, 0 < n → d.nestedNames + n ≤ stop → f (d.nestedNames + n) = d'.nestedNames + n

namespace Draft.Renumbered

variable {f : Nat → Nat} {stop : Nat} {d d' : Draft}

theorem later_succ (h : d.Renumbered f stop d') : ∀ n, 0 < n → d.nestedNames + 1 + n ≤ stop →
    f (d.nestedNames + 1 + n) = d'.nestedNames + 1 + n := by
  intro n _ hle
  rw [Nat.add_assoc] at hle ⊢
  rw [Nat.add_assoc]
  exact h.later (1 + n) (by omega) hle

theorem ofNested (h : d.Renumbered f stop d') (hle : d.nestedNames + 1 ≤ stop) (kind : Kind)
    (position : Nat) :
    LocalName.ofNested kind position (d'.nestedNames + 1) =
      renumber f (LocalName.ofNested kind position (d.nestedNames + 1)) := by
  rw [LocalName.renumber_ofNested, h.later 1 Nat.one_pos hle]

theorem nestTable (h : d.Renumbered f stop d') (hle : d.nestedNames + 1 ≤ stop) (position : Nat)
    (e : Expr) :
    (d'.nestTable position (e.rename (renumber f))).1 = renumber f (d.nestTable position e).1 ∧
      (d.nestTable position e).2.Renumbered f stop
        (d'.nestTable position (e.rename (renumber f))).2 := by
  have hname := h.ofNested hle .table position
  refine ⟨hname, h.handles, ?_, h.later_succ⟩
  simp only [Draft.nestTable, List.map_append, List.map_cons, List.map_nil,
    Stat.rename_localName, h.hoisted, hname]

variable (hf : Function.Injective f)
include hf

theorem refer (h : d.Renumbered f stop d') (name : String) (i : Instance) :
    (d'.handles.refer (renumber f name) i).1 = renumber f (d.handles.refer name i).1 ∧
      Renumbered f stop { d with handles := (d.handles.refer name i).2 }
        { d' with handles := (d'.handles.refer (renumber f name) i).2 } := by
  obtain ⟨hname, hhandles⟩ :=
    Handles.refer_renamed (LocalName.renumber_injective hf) h.handles name i
  exact ⟨hname, hhandles, h.hoisted, h.later⟩

theorem nestHandle (h : d.Renumbered f stop d') (hle : d.nestedNames + 1 ≤ stop) (position : Nat)
    (i : Instance) :
    (d'.nestHandle position i).1 = renumber f (d.nestHandle position i).1 ∧
      (d.nestHandle position i).2.Renumbered f stop (d'.nestHandle position i).2 := by
  have hnext : Renumbered f stop { d with nestedNames := d.nestedNames + 1 }
      { d' with nestedNames := d'.nestedNames + 1 } := ⟨h.handles, h.hoisted, h.later_succ⟩
  have := hnext.refer hf (LocalName.ofNested .reference position (d.nestedNames + 1)) i
  rwa [← h.ofNested hle .reference position] at this

end Draft.Renumbered

/-! ## Steps of drafting -/

namespace Drafting

section
variable {α β : Type} {f : Nat → Nat} {stop : Nat}

/-- Two steps end in the same way but for the names; `ren` changes those in a result. -/
def Matches (f : Nat → Nat) (stop : Nat) (ren : α → α) :
    EStateM.Result Malformed Draft α → EStateM.Result Malformed Draft α → Prop
  | .ok a d, .ok a' d' => a' = ren a ∧ d.Renumbered f stop d'
  | .error cause d, .error cause' d' => cause' = cause ∧ d.Renumbered f stop d'
  | _, _ => False

/-- The second step does what the first one does but for the names, as long as the first gives out
    no number above `stop`. -/
structure Parallel (f : Nat → Nat) (stop : Nat) (ren : α → α) (m m' : Drafting α) : Prop where
  gives : Moves (fun d d' => d.nestedNames ≤ d'.nestedNames) m
  run : ∀ {d d' : Draft}, d.Renumbered f stop d' → (after m d).nestedNames ≤ stop →
    Matches f stop ren (m.run d) (m'.run d')

theorem Parallel.pure {ren : α → α} {a a' : α} (ha : a' = ren a) :
    Parallel f stop ren (pure a) (pure a') :=
  ⟨fun _ => Nat.le_refl _, fun h _ => ⟨ha, h⟩⟩

theorem Parallel.throw {ren : α → α} (cause : Malformed) :
    Parallel f stop ren (throw cause) (throw cause) :=
  ⟨fun _ => Nat.le_refl _, fun h _ => ⟨rfl, h⟩⟩

theorem Parallel.bind {ren : α → α} {ren' : β → β} {m m' : Drafting α} {g g' : α → Drafting β}
    (hm : Parallel f stop ren m m') (hg : ∀ a, Parallel f stop ren' (g a) (g' (ren a))) :
    Parallel f stop ren' (m >>= g) (m' >>= g') := by
  have hgives : Moves (fun d d' => d.nestedNames ≤ d'.nestedNames) (m >>= g) :=
    Moves.bind (R := fun d d' => d.nestedNames ≤ d'.nestedNames) (fun _ _ _ => Nat.le_trans)
      hm.gives fun a => (hg a).gives
  refine ⟨hgives, fun {d d'} h hle => ?_⟩
  cases hr : m.run d with
  | ok a d₁ =>
    rw [after, run_bind_of_ok hr] at hle
    -- the first part gives out no more than the whole
    have hle₁ : (after m d).nestedNames ≤ stop := by
      rw [after, hr]
      exact Nat.le_trans ((hg a).gives d₁) hle
    have hmatch := hm.run h hle₁
    rw [hr] at hmatch
    cases hr' : m'.run d' with
    | ok a' d₁' =>
      rw [hr'] at hmatch
      obtain ⟨rfl, h₁⟩ := hmatch
      rw [run_bind_of_ok hr, run_bind_of_ok hr']
      exact (hg a).run h₁ hle
    | error cause d₁' => rw [hr'] at hmatch; exact hmatch.elim
  | error cause d₁ =>
    rw [after, run_bind_of_error hr] at hle
    have hle₁ : (after m d).nestedNames ≤ stop := by
      rw [after, hr]
      exact hle
    have hmatch := hm.run h hle₁
    rw [hr] at hmatch
    cases hr' : m'.run d' with
    | ok a' d₁' => rw [hr'] at hmatch; exact hmatch.elim
    | error cause' d₁' =>
      rw [hr'] at hmatch
      rw [run_bind_of_error hr, run_bind_of_error hr']
      exact hmatch

theorem Parallel.map {ren : α → α} {ren' : β → β} {m m' : Drafting α} {g : α → β}
    (hm : Parallel f stop ren m m') (hg : ∀ a, g (ren a) = ren' (g a)) :
    Parallel f stop ren' (g <$> m) (g <$> m') :=
  hm.bind fun a => .pure (hg a)

end

section
variable {f : Nat → Nat} {stop : Nat} {scene : Scene} {position : Nat}

theorem fields_parallel {value : Value → Drafting Expr}
    (hv : ∀ v, Parallel f stop (Expr.rename (renumber f)) (value v) (value v)) : ∀ next pairs,
    Parallel f stop (Field.renameAll (renumber f)) (fields value next pairs)
      (fields value next pairs)
  | _, [] => .pure rfl
  | next, (k, v) :: rest => by
    unfold fields
    split
    · exact .throw _
    · exact .bind (hv v) fun e => .bind (fields_parallel hv (next + 1) rest) fun fs => .pure rfl
    · exact .bind (hv v) fun e => .bind (fields_parallel hv next rest) fun fs => .pure rfl
    · exact .bind (hv k) fun key => .bind (hv v) fun e =>
        .bind (fields_parallel hv next rest) fun fs => .pure rfl

variable (hf : Function.Injective f)
include hf

theorem nested_parallel {write : List (Value × Value) → Drafting Expr}
    (hw : ∀ pairs, Parallel f stop (Expr.rename (renumber f)) (write pairs) (write pairs))
    (v : Value) : Parallel f stop (Expr.rename (renumber f)) (nested scene position write v)
      (nested scene position write v) := by
  unfold nested
  split
  · rename_i hform
    exact .pure (rename_of_form _ hform).symm
  · refine .bind (hw _) fun e => ⟨fun d => Nat.le_succ _, fun h hle => ?_⟩
    obtain ⟨hname, hd⟩ := h.nestTable hle position e
    exact ⟨congrArg Expr.name hname, hd⟩
  · rename_i i _
    refine ⟨fun d => Nat.le_succ _, fun h hle => ?_⟩
    obtain ⟨hname, hd⟩ := h.nestHandle hf hle position i
    exact ⟨congrArg Expr.name hname, hd⟩

/-- **A table is drafted in parallel**, also where it is refused. -/
theorem table_parallel : ∀ room pairs, Parallel f stop (Expr.rename (renumber f))
    (table scene position room pairs) (table scene position room pairs)
  | 0, _ => .throw _
  | room + 1, pairs => by
    rw [table_succ]
    exact .map (fields_parallel (nested_parallel hf (table_parallel room)) _ _) fun _ => rfl

theorem argument_parallel (scene : Scene) (position : Nat) (v : Value) :
    Parallel f stop (Drafted.rename (renumber f))
    (argument scene position v) (argument scene position v) := by
  unfold argument
  split
  · rename_i e hform
    exact .pure (congrArg _ (rename_of_form _ hform).symm)
  · exact .map (table_parallel hf _ _) fun _ => rfl
  · rename_i i hform
    refine ⟨fun d => Nat.le_refl _, fun h _ => ?_⟩
    obtain ⟨rfl, -⟩ := form_eq_handle hform
    -- the handle of an argument has no running number
    have hown : renumber f (LocalName.ofArgument (.reference i) position) =
        LocalName.ofArgument (.reference i) position :=
      LocalName.renumber_of_ne fun kind p n he => by
        cases @Shape.text_injective (.argument .reference position) (.nested kind p n) he
    have hrefer := h.refer hf (LocalName.ofArgument (.reference i) position) i
    rw [hown] at hrefer
    obtain ⟨hname, hd⟩ := hrefer
    exact ⟨congrArg Drafted.handle hname, hd⟩

end

end Drafting

/-! ## Arguments -/

section
variable {f : Nat → Nat} {stop : Nat} {scene : Scene} {d d' : Draft}

theorem nestedNames_argument (position : Nat) (v : Value) (d : Draft) :
    (d.argument scene position v).2.nestedNames =
      (Drafting.after (Drafting.argument scene position v) d).nestedNames := by
  rw [Draft.argument, Drafting.after]
  cases (Drafting.argument scene position v).run d <;> rfl

theorem nestedNames_le_writeArgument (scene : Scene) (position : Nat) (v : Value) (d : Draft) :
    d.nestedNames ≤ (writeArgument scene position v d).2.nestedNames := by
  have hle : d.nestedNames ≤ (d.argument scene position v).2.nestedNames := by
    rw [nestedNames_argument]
    exact (@Drafting.argument_parallel id 0 Function.injective_id scene position v).gives d
  rcases writeArgument_cases scene position v d with ⟨drafted, d', h, hw⟩ | ⟨cause, d', h, hw⟩
  all_goals
    rw [h] at hle
    rw [hw]
    exact hle

theorem nestedNames_le_writeArguments (scene : Scene) :
    ∀ (vs : List Value) (position : Nat) (d : Draft),
    d.nestedNames ≤ (writeArguments scene position vs d).2.nestedNames
  | [], _, _ => Nat.le_refl _
  | v :: rest, position, d => Nat.le_trans (nestedNames_le_writeArgument scene position v d)
      (nestedNames_le_writeArguments scene rest (position + 1) _)

variable (hf : Function.Injective f)
include hf

theorem Draft.argument_renumbered (h : d.Renumbered f stop d') (scene : Scene) (position : Nat)
    (v : Value)
    (hle : (d.argument scene position v).2.nestedNames ≤ stop) :
    (d'.argument scene position v).1 =
        (d.argument scene position v).1.map (Drafted.rename (renumber f)) ∧
      (d.argument scene position v).2.Renumbered f stop (d'.argument scene position v).2 := by
  rw [nestedNames_argument] at hle
  have hmatch := (Drafting.argument_parallel hf scene position v).run h hle
  unfold Draft.argument
  cases hr : (Drafting.argument scene position v).run d with
  | ok drafted d₁ =>
    cases hr' : (Drafting.argument scene position v).run d' with
    | ok drafted' d₁' =>
      rw [hr, hr'] at hmatch
      obtain ⟨rfl, h₁⟩ := hmatch
      exact ⟨rfl, h₁⟩
    | error cause' d₁' => rw [hr, hr'] at hmatch; exact hmatch.elim
  | error cause d₁ =>
    cases hr' : (Drafting.argument scene position v).run d' with
    | ok drafted' d₁' => rw [hr, hr'] at hmatch; exact hmatch.elim
    | error cause' d₁' =>
      rw [hr, hr'] at hmatch
      obtain ⟨rfl, h₁⟩ := hmatch
      refine ⟨rfl, ?_, ?_, h₁.later⟩
      · rw [h.handles.size]
        exact h₁.handles.truncate _
      · simp only [h₁.hoisted, h.hoisted, List.length_map, List.map_take]

theorem writeArgument_renumbered (h : d.Renumbered f stop d') (scene : Scene) (position : Nat)
    (v : Value)
    (hle : (writeArgument scene position v d).2.nestedNames ≤ stop) :
    (writeArgument scene position v d').1 =
        (writeArgument scene position v d).1.rename (renumber f) ∧
      (writeArgument scene position v d).2.Renumbered f stop
        (writeArgument scene position v d').2 := by
  unfold writeArgument at hle ⊢
  have hdrafted := Draft.argument_renumbered hf h scene position v
  rcases hd : d.argument scene position v with ⟨cause | drafted, d₁⟩
  all_goals
    rw [hd] at hdrafted hle
    obtain ⟨hout, h₁⟩ := hdrafted hle
    rcases hd' : d'.argument scene position v with ⟨outcome, d₁'⟩
    rw [hd'] at hout h₁
    cases hout
  · exact ⟨rfl, h₁⟩
  · exact ⟨congrArg (WrittenArgument.mk position v.kind _) h₁.hoisted, h₁.handles, rfl, h₁.later⟩

/-- **Arguments are written in parallel**: each is the other renamed, or is refused as it is. -/
theorem writeArguments_renumbered (scene : Scene) : ∀ (vs : List Value) (position : Nat)
    {d d' : Draft}, d.Renumbered f stop d' →
    (writeArguments scene position vs d).2.nestedNames ≤ stop →
    (writeArguments scene position vs d').1 =
        (writeArguments scene position vs d).1.map (WrittenArgument.rename (renumber f)) ∧
      (writeArguments scene position vs d).2.Renumbered f stop
        (writeArguments scene position vs d').2
  | [], _, _, _, h, _ => ⟨rfl, h⟩
  | v :: rest, position, _, _, h, hle => by
    obtain ⟨hout, h₁⟩ := writeArgument_renumbered hf h scene position v
      (Nat.le_trans (nestedNames_le_writeArguments scene rest (position + 1) _) hle)
    obtain ⟨houts, h₂⟩ := writeArguments_renumbered scene rest (position + 1) h₁ hle
    exact ⟨congrArg₂ List.cons hout houts, h₂⟩

end

/-! ## Two passes -/

section
variable {scene : Scene}

theorem writeArguments_append : ∀ (vs ws : List Value) (position : Nat) (d : Draft),
    writeArguments scene position (vs ++ ws) d =
      ((writeArguments scene position vs d).1 ++
          (writeArguments scene (position + vs.length) ws (writeArguments scene position vs d).2).1,
        (writeArguments scene (position + vs.length) ws (writeArguments scene position vs d).2).2)
  | [], _, _, _ => rfl
  | v :: rest, ws, position, d => by
    simp only [List.cons_append, writeArguments, writeArguments_append rest ws (position + 1),
      List.length_cons, Nat.add_assoc, Nat.add_comm 1]

theorem length_writeArguments (scene : Scene) : ∀ (vs : List Value) (position : Nat) (d : Draft),
    (writeArguments scene position vs d).1.length = vs.length
  | [], _, _ => rfl
  | _ :: rest, position, _ => congrArg (· + 1) (length_writeArguments scene rest (position + 1) _)

theorem hoisted_writeArguments : ∀ (vs : List Value) (position : Nat) {d : Draft},
    d.hoisted = [] → (writeArguments scene position vs d).2.hoisted = []
  | [], _, _, hd => hd
  | v :: rest, position, d, hd => by
    have hd₁ : (writeArgument scene position v d).2.hoisted = [] := by
      rcases writeArgument_cases scene position v d with ⟨drafted, d', h, hw⟩ | ⟨cause, d', h, hw⟩
      · rw [hw]; rfl
      · rw [hw]; exact argument_error_hoisted hd h
    exact hoisted_writeArguments rest (position + 1) hd₁

/-- A refused argument only uses up numbers. -/
theorem writeArgument_refused {taken : Nat → Prop} {position : Nat} {d : Draft} {v : Value}
    {cause : Malformed} (hd : d.Sound taken)
    (hrefused : (writeArgument scene position v d).1.outcome = .error cause) :
    (writeArgument scene position v d).2.handles = d.handles ∧
      (writeArgument scene position v d).2.hoisted = d.hoisted := by
  rcases writeArgument_cases scene position v d with ⟨drafted, d', h, hw⟩ | ⟨cause', d', h, hw⟩
  · rw [hw] at hrefused; cases hrefused
  · obtain ⟨n, -, rfl⟩ := hd.argument_refused h
    rw [hw]
    exact ⟨rfl, rfl⟩

theorem writeArgument_nil (position : Nat) {d : Draft} (hd : d.hoisted = []) :
    (writeArgument scene position .nil d).2 = d := by
  have htaken : d.takeHoisted.2 = d := by rw [Draft.takeHoisted, ← hd]
  exact htaken

/-- **Two passes** that differ in one argument, which is refused in the first and nil in the
    second. -/
theorem writeArguments_isolated {vs : List Value} (ws : List Value) {v : Value} {cause : Malformed}
    (hrefused : (writeArgument scene (1 + vs.length) v
      (writeArguments scene 1 vs {}).2).1.outcome = .error cause) :
    ∃ f : Nat → Nat, StrictMono f ∧ ∃ before behind a a', before.length = vs.length ∧
      (writeArguments scene 1 (vs ++ v :: ws) {}).1 =
        before.map (WrittenArgument.rename (renumber f)) ++
          a :: behind.map (WrittenArgument.rename (renumber f)) ∧
      (writeArguments scene 1 (vs ++ .nil :: ws) {}).1 = before ++ a' :: behind ∧
      Handles.Renamed (renumber f) (writeArguments scene 1 (vs ++ .nil :: ws) {}).2.handles
        (writeArguments scene 1 (vs ++ v :: ws) {}).2.handles := by
  obtain ⟨hsound, -⟩ := Draft.ready_empty.writeArguments scene vs
  have hempty : (writeArguments scene 1 vs {}).2.hoisted = [] := hoisted_writeArguments vs 1 rfl
  have hle := nestedNames_le_writeArgument scene (1 + vs.length) v
    (writeArguments scene 1 vs {}).2
  obtain ⟨hhandles, hhoisted⟩ := writeArgument_refused hsound hrefused
  simp only [writeArguments_append, writeArguments, writeArgument_nil _ hempty]
  generalize hw : (writeArgument scene (1 + vs.length) v (writeArguments scene 1 vs {}).2).2 = d₁
    at hle hhandles hhoisted
  generalize hgiven : (writeArguments scene 1 vs {}).2 = d at *
  -- the numbers given out before the argument stay, those behind it move up
  let f := LocalName.shift d.nestedNames (d₁.nestedNames - d.nestedNames)
  have hmono : StrictMono f := LocalName.shift_strictMono _ _
  have hstart : Draft.Renumbered f d.nestedNames {} {} := by
    refine ⟨rfl, rfl, fun n _ hn => ?_⟩
    exact LocalName.shift_of_le hn
  obtain ⟨hbefore, hsame⟩ := writeArguments_renumbered hmono.injective scene vs 1 hstart
    (by rw [hgiven])
  rw [hgiven] at hsame
  have hbehind :
      d.Renumbered f (writeArguments scene (1 + vs.length + 1) ws d).2.nestedNames d₁ := by
    refine ⟨by rw [hhandles]; exact hsame.handles, by rw [hhoisted]; exact hsame.hoisted,
      fun n hn _ => ?_⟩
    have hf : f (d.nestedNames + n) = d.nestedNames + n + (d₁.nestedNames - d.nestedNames) :=
      LocalName.shift_of_lt (Nat.lt_add_of_pos_right hn)
    rw [hf]
    omega
  obtain ⟨hws, hend⟩ := writeArguments_renumbered hmono.injective scene ws _ hbehind (Nat.le_refl _)
  exact ⟨f, hmono, _, _, _, _, length_writeArguments scene vs 1 {}, by rw [← hbefore, hws], rfl,
    hend.handles⟩

theorem remoteTarget_renamed (scene : Scene) {f : Nat → Nat} (hf : Function.Injective f)
    {h h' : Handles} (hr : Handles.Renamed (renumber f) h h') (remote : Instance) :
    Handles.Renamed (renumber f) (remoteTarget scene remote h).2
      (remoteTarget scene remote h').2 := by
  have hremote : renumber f remoteHandle = remoteHandle :=
    LocalName.renumber_of_ne fun kind p n he => text_ne_remoteHandle (.nested kind p n) he.symm
  unfold remoteTarget
  split
  · have hrefer :=
      (Handles.refer_renamed (LocalName.renumber_injective hf) hr remoteHandle remote).2
    rwa [hremote] at hrefer
  · exact hr

/-- **A refused argument is isolated.**  The call with nil in its place is written out too, and it
    has handles for the same instances in the same order.  One strictly increasing renumbering takes
    its handles to those of the call, and each of its other arguments to that of the call: what is
    refused to what is refused for the same reason, and what is written to what is written with the
    same tables and the same expression under the same name, but for the numbers. -/
theorem refusal_isolated {c : Call} {r : Reconstruction} {k : Nat} {a : WrittenArgument}
    {cause : Malformed} (hr : reconstruct? scene c = some r) (ha : r.arguments[k]? = some a)
    (hrefused : a.outcome = .error cause) :
    ∃ r', reconstruct? scene { c with arguments := c.arguments.set k .nil } = some r' ∧
      r.handles.values = r'.handles.values ∧ r.arguments.length = r'.arguments.length ∧
      ∃ f : Nat → Nat, StrictMono f ∧ r.handles.names = r'.handles.names.map (renumber f) ∧
        ∀ j, j ≠ k →
          r.arguments[j]? = r'.arguments[j]?.map (WrittenArgument.rename (renumber f)) := by
  have hscript := isSome_of_reconstruct? hr
  rw [reconstruct?_eq hscript] at hr
  cases hr
  dsimp only at ha
  have hk : k < c.arguments.length := by
    rw [← length_writeArguments scene c.arguments 1 {}]
    exact (List.getElem?_eq_some_iff.1 ha).1
  obtain ⟨v, ws, hargs, hset⟩ : ∃ v ws, c.arguments = c.arguments.take k ++ v :: ws ∧
      c.arguments.set k .nil = c.arguments.take k ++ .nil :: ws :=
    ⟨c.arguments[k], c.arguments.drop (k + 1), by simp, by
      rw [List.set_eq_take_append_cons_drop, if_pos hk]⟩
  have hlength : (c.arguments.take k).length = k := List.length_take_of_le hk.le
  generalize c.arguments.take k = vs at hargs hset hlength
  subst hlength
  rw [hargs, writeArguments_append, List.getElem?_append_right (by rw [length_writeArguments]),
    length_writeArguments, Nat.sub_self] at ha
  cases ha
  obtain ⟨f, hf, before, behind, a, a', hbefore, hfirst, hsecond, hhandles⟩ :=
    writeArguments_isolated ws hrefused
  have hend := remoteTarget_renamed scene hf.injective hhandles c.remote
  rw [← hargs] at hfirst hend
  refine ⟨_, reconstruct?_eq (c := { c with arguments := _ }) hscript, ?_, ?_, f, hf, ?_, ?_⟩
  all_goals dsimp only; rw [hset]
  · exact hend.values
  · rw [hfirst, hsecond]; simp
  · exact hend.names
  · intro j hj
    rw [hfirst, hsecond]
    rcases Nat.lt_or_gt_of_ne hj with hlt | hgt
    · rw [← hbefore] at hlt
      rw [List.getElem?_append_left (by rwa [List.length_map]), List.getElem?_append_left hlt,
        List.getElem?_map]
    · have hsub : j - vs.length = (j - vs.length - 1) + 1 := by omega
      rw [← hbefore] at hgt hsub
      rw [List.getElem?_append_right (by rw [List.length_map]; exact hgt.le),
        List.getElem?_append_right hgt.le, List.length_map, hsub, List.getElem?_cons_succ,
        List.getElem?_cons_succ, List.getElem?_map]

/-- Here the first argument gives out a number before it is refused, so the instance in the second
    one has another number than behind nil. -/
theorem handle_isolated :
    let one : Instance := ⟨⟨"D1", "A", "Part", .plain⟩, []⟩
    let two : Instance := ⟨⟨"D2", "B", "Part", .plain⟩, []⟩
    let refused : Value := .table [(.text "a", .reference one), (.nil, .nil)]
    let other : Value := .table [(.text "b", .reference two)]
    let c : Call := ⟨some one, [refused, other], one, .remoteEvent, none, .game⟩
    ∃ r r', reconstruct? ⟨{}, fun i => i.name⟩ c = some r ∧
      reconstruct? ⟨{}, fun i => i.name⟩ { c with arguments := [.nil, other] } = some r' ∧
      r.handles.values = [two, one] ∧ r'.handles.values = [two, one] ∧
      ∃ f, StrictMono f ∧ f 1 = 2 ∧
        r.arguments[1]? = r'.arguments[1]?.map (WrittenArgument.rename (renumber f)) := by
  intro one two refused other c
  obtain ⟨r', hr', hvalues, -, f, hf, hnames, harguments⟩ :=
    @refusal_isolated ⟨{}, fun i => i.name⟩ c _ 0 _ .nilKey rfl rfl rfl
  refine ⟨_, r', rfl, hr', rfl, hvalues.symm.trans rfl, f, hf, ?_, harguments 1 (by decide)⟩
  have hname : LocalName.ofNested .reference 2 2 =
      renumber f (LocalName.ofNested .reference 2 1) := by
    cases hr'
    exact Option.some.inj (congrArg List.head? hnames)
  rw [LocalName.renumber_ofNested] at hname
  exact (LocalName.ofNested_inj hname).2.2.symm

end

end Reenact
