/-
  The events of writing calls out, against what is written.

  A recorder holds the first of all events that came, up to its limit.  The events of a call are
  read off its snippet: for each argument the name by which the call passes it, or the reason for
  which it was refused; for each variable of the statement that binds the handles the debug id that
  is passed for it; and the size of the text.

  * `Recorder.Holds.writeCalls`: what a recorder holds after any number of calls;
  * `Traced`: the events of a call agree with its text;
  * `traces_match`: both, for calls written out one after another with one recorder.
-/
import Reenact.Proofs.Isolation
import Reenact.Proofs.Preamble

namespace Reenact

open LocalName (Shape)

/-! ## Recorders -/

namespace Recorder

/-- The events that a limit leaves of all that came. -/
def firstOf (limit : Option Nat) (events : List Event) : List Event :=
  match limit with
  | none => events
  | some n => events.take n

/-- A recorder has what its limit leaves of the events that came. -/
def Holds (r : Recorder) (came : List Event) : Prop := r.events = firstOf r.limit came

/-- Calls written out one after another, with their events added to a record. -/
def writeCalls (scene : Scene) (l : Layout) : Recorder → List Call → List String × Recorder
  | r, [] => ([], r)
  | r, c :: rest =>
    let (text, r) := r.writeCall scene l c
    let (texts, r) := writeCalls scene l r rest
    (text :: texts, r)

variable {r : Recorder} {came : List Event}

theorem limit_record (r : Recorder) (e : Event) : (r.record e).limit = r.limit := by
  unfold record
  split <;> rfl

/-- **One event** is added if there is room for it, and else what is held are still the first. -/
theorem Holds.record (h : r.Holds came) (e : Event) : (r.record e).Holds (came ++ [e]) := by
  rw [Holds, limit_record]
  rw [Holds] at h
  cases hl : r.limit with
  | none =>
    rw [hl] at h
    simp [Recorder.record, hl, h, firstOf]
  | some n =>
    rw [hl] at h
    simp only [firstOf] at h ⊢
    by_cases hn : n ≤ came.length
    · have hfull : n ≤ r.events.length := by rw [h, List.length_take]; omega
      rw [Recorder.record, if_pos (by simpa [hl] using hfull), h,
        List.take_append_of_le_length hn]
    · have hroom : ¬ n ≤ r.events.length := by rw [h, List.length_take]; omega
      rw [Recorder.record, if_neg (by simpa [hl] using hroom), h, List.take_of_length_le (by omega),
        List.take_of_length_le (by simp; omega)]

theorem Holds.recordAll (h : r.Holds came) (events : List Event) :
    (r.recordAll events).Holds (came ++ events) ∧ (r.recordAll events).limit = r.limit := by
  induction events generalizing r came with
  | nil => exact ⟨by rwa [List.append_nil], rfl⟩
  | cons e rest ih =>
    obtain ⟨hrest, hlimit⟩ := ih (h.record e)
    rw [List.append_assoc, List.singleton_append] at hrest
    exact ⟨hrest, hlimit.trans (limit_record r e)⟩

/-- **After any number of calls** a recorder holds the first of their events, and each text is the
    one that is written without it. -/
theorem Holds.writeCalls (h : r.Holds came) (scene : Scene) (l : Layout) (calls : List Call) :
    (Recorder.writeCalls scene l r calls).1 = calls.map (fun c => (Reenact.writeCall scene l c).1) ∧
      (Recorder.writeCalls scene l r calls).2.Holds
        (came ++ calls.flatMap fun c => (Reenact.writeCall scene l c).2) ∧
      (Recorder.writeCalls scene l r calls).2.limit = r.limit := by
  induction calls generalizing r came with
  | nil => exact ⟨rfl, by rwa [List.flatMap_nil, List.append_nil], rfl⟩
  | cons c rest ih =>
    obtain ⟨hfirst, hlimit⟩ := h.recordAll (Reenact.writeCall scene l c).2
    obtain ⟨htexts, hrest, hlimit'⟩ := ih hfirst
    refine ⟨congrArg _ htexts, ?_, hlimit'.trans hlimit⟩
    rw [List.flatMap_cons, ← List.append_assoc]
    exact hrest

end Recorder

/-! ## Arguments -/

section
variable {scene : Scene} {position : Nat} {v : Value}

/-- The draft before the argument at an index, counted from zero. -/
def Call.draftBefore (c : Call) (scene : Scene) (k : Nat) : Draft :=
  (writeArguments scene 1 (c.arguments.take k) {}).2

theorem writeArguments_getElem? {vs : List Value} {k : Nat} (hv : vs[k]? = some v) (position : Nat)
    (d : Draft) : (writeArguments scene position vs d).1[k]? =
      some (writeArgument scene (position + k) v
        (writeArguments scene position (vs.take k) d).2).1 := by
  obtain ⟨hk, rfl⟩ := List.getElem?_eq_some_iff.1 hv
  have hlen : (vs.take k).length = k := by rw [List.length_take]; omega
  have hsplit : vs = vs.take k ++ vs[k] :: vs.drop (k + 1) := by simp
  have hwritten := length_writeArguments scene (vs.take k) position d
  conv_lhs => rw [hsplit, writeArguments_append]
  rw [List.getElem?_append_right (by omega), hwritten, hlen, Nat.sub_self, writeArguments]
  rfl

/-- An argument is not named like one that was refused. -/
theorem LocalName.ofArgument_ne_ofFailed (v : Value) (position p : Nat) :
    ofArgument v position ≠ ofFailed p := by
  intro h
  by_cases hk : v.kind = .other
  · cases v with
    | other typeName source =>
      obtain ⟨hs, -⟩ := numbered_inj (isStem_underscore _) isStem_error h
      have hlast : (lead ++ "Error").toList.getLast? = some '_' := by rw [← hs]; simp
      exact absurd hlast (by decide)
    | _ => cases hk
  · rw [ofArgument_eq hk] at h
    cases @Shape.text_injective _ (.failed p) h

/-- A handle is not named like an argument that was refused. -/
theorem Draft.Sound.handle_ne_ofFailed {taken : Nat → Prop} {d : Draft} (hs : d.Sound taken)
    {name : String} (hmem : name ∈ d.handles.names) (p : Nat) : name ≠ LocalName.ofFailed p := by
  rintro rfl
  rcases hs.handle_names _ hmem with ⟨q, -, hq⟩ | ⟨q, n, -, hq⟩
  · cases @Shape.text_injective (.failed p) _ hq
  · cases @Shape.text_injective (.failed p) _ hq

/-- **What is drafted is not passed like something refused.** -/
theorem Draft.Sound.name_ne_ofFailed {taken : Nat → Prop} {d d' : Draft} {drafted : Drafted}
    (hs : d.Sound taken) (hp : ∀ i, Drafting.form scene v = .handle i → ¬ taken position)
    (h : d.argument scene position v = (.ok drafted, d')) (p : Nat) :
    drafted.name ≠ LocalName.ofFailed p := by
  have hs' : d'.Sound (takenBy scene position v taken) := by
    have := (hs.argument hp).1
    rwa [h] at this
  rcases Drafting.argument_ok_cases h with ⟨e, -, rfl, -⟩ | ⟨i, -, rfl, rfl⟩ | ⟨pairs, e, -, -, rfl⟩
  · exact LocalName.ofArgument_ne_ofFailed v position p
  · obtain ⟨j, hj, -⟩ := Handles.names_refer d.handles (LocalName.ofArgument v position) i
    exact hs'.handle_ne_ofFailed (List.mem_map.2 ⟨_, hj, rfl⟩) p
  · exact LocalName.ofArgument_ne_ofFailed v position p

end

/-! ## Snippets -/

/-- An event says of the argument `v` at the index `k`, counted from zero, what the call passes for
    it. -/
inductive ArgumentTraced (scene : Scene) (c : Call) (r : Reconstruction) (k : Nat) (v : Value) :
    Event → Prop
  /-- The name that the call passes, which is not that of something refused -/
  | written {drafted : Drafted} {after : Draft} :
    (c.draftBefore scene k).argument scene (k + 1) v = (.ok drafted, after) →
    r.call.passed[k]? = some (.name drafted.name) → drafted.name ≠ LocalName.ofFailed (k + 1) →
    ArgumentTraced scene c r k v (.argumentWritten (k + 1) v.kind drafted.name)
  /-- The reason for which it was refused, which is also that of the local that is passed -/
  | refused {cause : Malformed} {after : Draft} :
    (c.draftBefore scene k).argument scene (k + 1) v = (.error cause, after) →
    r.call.passed[k]? = some (.name (LocalName.ofFailed (k + 1))) →
    .localName (LocalName.ofFailed (k + 1)) (WrittenArgument.placeholder cause) ∈ r.locals →
    ArgumentTraced scene c r k v (.argumentRefused (k + 1) cause)

/-- The statement that binds variables to the objects with debug ids. -/
def bindingStatement (names ids : List String) : Stat :=
  .localNames names [.call (.name Resolution.functionName) (ids.map .ofText)]

/-- The text and the events of a call agree. -/
inductive Traced (scene : Scene) (l : Layout) (c : Call) : String × List Event → Prop
  | skipped : c.script = none →
    Traced scene l c (unattributed, [.skipped (scene.locate c.remote)])
  | written {r : Reconstruction} {names ids : List String} {arguments : List Event} :
    reconstruct? scene c = some r →
    (r.text scene l).toList = heading.toList ++ l.lineBreak.toList ++ l.lineBreak.toList ++
      (if names = [] then []
        else Resolution.function.write l ++ l.lineBreak.toList ++
          r.handles.entries.flatMap (Reconstruction.handleComment scene l) ++
          (bindingStatement names ids).write l ++ l.lineBreak.toList) ++
      Reconstruction.localsText l r.locals ++ r.call.write l →
    names.length = ids.length →
    r.call.passed.length = c.arguments.length → arguments.length = c.arguments.length →
    (∀ (k : Nat) v, c.arguments[k]? = some v →
      ∃ e, arguments[k]? = some e ∧ ArgumentTraced scene c r k v e) →
    Traced scene l c (r.text scene l,
      .started (scene.locate c.remote) c.arguments.length ::
        (arguments ++ (names.zip ids).map (fun p => .handleBound p.1 p.2) ++
          [.finished (r.text scene l).utf8ByteSize]))

section
variable {scene : Scene} {c : Call} {r : Reconstruction} {k : Nat} {v : Value}

/-- The draft before an argument is sound, and the position of the argument is not taken. -/
theorem Call.sound_draftBefore (c : Call) (scene : Scene) (k : Nat) :
    ∃ taken, (c.draftBefore scene k).Sound taken ∧ ¬ taken (k + 1) := by
  obtain ⟨hs, -⟩ := Draft.ready_empty.writeArguments scene (c.arguments.take k)
  refine ⟨_, hs, ?_⟩
  rintro (⟨⟨⟩⟩ | ⟨j, w, i, hw, hj, -⟩)
  have hlt := (List.getElem?_eq_some_iff.1 hw).1
  rw [List.length_take] at hlt
  omega

theorem arguments_of_reconstruct? (hr : reconstruct? scene c = some r) :
    r.arguments = (writeArguments scene 1 c.arguments {}).1 := by
  rw [reconstruct?_eq (isSome_of_reconstruct? hr)] at hr
  cases hr
  rfl

theorem passed_of_reconstruct? (hr : reconstruct? scene c = some r) :
    r.call.passed = r.arguments.map fun a => .name a.name := by
  rw [reconstruct?_eq (isSome_of_reconstruct? hr)] at hr
  cases hr
  simp

theorem argumentTraced_of_reconstruct? (hr : reconstruct? scene c = some r)
    (hv : c.arguments[k]? = some v) :
    ∃ a, r.arguments[k]? = some a ∧ ArgumentTraced scene c r k v a.event := by
  have hwritten := @writeArguments_getElem? scene v _ _ hv 1 {}
  rw [Nat.add_comm 1 k] at hwritten
  obtain ⟨taken, hs, hfree⟩ := c.sound_draftBefore scene k
  have hargs := arguments_of_reconstruct? hr
  refine ⟨_, hargs ▸ hwritten, ?_⟩
  have hk : r.call.passed[k]? = some (.name
      (writeArgument scene (k + 1) v (c.draftBefore scene k)).1.name) := by
    rw [passed_of_reconstruct? hr, List.getElem?_map, hargs, hwritten]
    rfl
  have hmem : (writeArgument scene (k + 1) v (c.draftBefore scene k)).1 ∈ r.arguments :=
    hargs ▸ List.mem_of_getElem? hwritten
  change ArgumentTraced scene c r k v
    (writeArgument scene (k + 1) v (c.draftBefore scene k)).1.event
  rcases writeArgument_cases scene (k + 1) v (c.draftBefore scene k) with
    ⟨drafted, d', h, hw⟩ | ⟨cause, d', h, hw⟩
  · rw [hw] at hk ⊢
    exact .written h hk (hs.name_ne_ofFailed (fun _ _ => hfree) h (k + 1))
  · rw [hw] at hk hmem ⊢
    exact .refused h hk (List.mem_flatMap.2 ⟨_, hmem, List.mem_singleton_self _⟩)

theorem text_toList (scene : Scene) (l : Layout) (r : Reconstruction) :
    (r.text scene l).toList = heading.toList ++ l.lineBreak.toList ++ l.lineBreak.toList ++
      (if r.handles.names = [] then []
        else Resolution.function.write l ++ l.lineBreak.toList ++
          r.handles.entries.flatMap (Reconstruction.handleComment scene l) ++
          (bindingStatement r.handles.names r.handles.debugIds).write l ++ l.lineBreak.toList) ++
      Reconstruction.localsText l r.locals ++ r.call.write l := by
  have hempty : r.handles.isEmpty = true ↔ r.handles.names = [] := by
    rw [Roster.isEmpty, List.isEmpty_iff, Roster.names, List.map_eq_nil_iff]
  simp only [Reconstruction.text, String.toList_ofList, Reconstruction.write,
    Reconstruction.preamble, Resolution.bind, bindingStatement, hempty]

/-- The events of a call agree with its text. -/
theorem traced_writeCall (scene : Scene) (l : Layout) (c : Call) :
    Traced scene l c (writeCall scene l c) := by
  cases hr : reconstruct? scene c with
  | none =>
    have hscript : c.script = none := by
      by_contra hscript
      rw [reconstruct?_eq (Option.isSome_iff_ne_none.2 hscript)] at hr
      cases hr
    rw [writeCall, hr]
    exact .skipped hscript
  | some r =>
    have hlen : r.arguments.length = c.arguments.length := by
      rw [arguments_of_reconstruct? hr, length_writeArguments]
    have hpath : r.remotePath = scene.locate c.remote := by
      rw [reconstruct?_eq (isSome_of_reconstruct? hr)] at hr
      cases hr
      rfl
    have hevents : r.events scene l = .started (scene.locate c.remote) c.arguments.length ::
        (r.arguments.map (·.event) ++
          (r.handles.names.zip r.handles.debugIds).map (fun p => .handleBound p.1 p.2) ++
            [.finished (r.text scene l).utf8ByteSize]) := by
      rw [Reconstruction.events, hpath, hlen, Handles.names_zip_debugIds, List.map_map]
      rfl
    simp only [writeCall, hr, hevents]
    refine .written hr (text_toList scene l r) ?_ ?_ ?_ fun k v hv => ?_
    · simp [Roster.names, Handles.debugIds, Roster.values]
    · rw [passed_of_reconstruct? hr, List.length_map, hlen]
    · rw [List.length_map, hlen]
    · obtain ⟨a, ha, htraced⟩ := argumentTraced_of_reconstruct? hr hv
      exact ⟨a.event, by rw [List.getElem?_map, ha]; rfl, htraced⟩

end

/-- **Traces match the output.**  For calls written out one after another with one recorder, there
    is for each call a stream of events that agrees with its text.  The texts are those that are
    given back, and the recorder holds the first of all events, as many as its limit lets it. -/
theorem traces_match (scene : Scene) (l : Layout) (limit : Option Nat) (calls : List Call) :
    ∃ outputs : List (String × List Event), List.Forall₂ (Traced scene l) calls outputs ∧
      (Recorder.writeCalls scene l { limit } calls).1 = outputs.map Prod.fst ∧
      (Recorder.writeCalls scene l { limit } calls).2.events =
        Recorder.firstOf limit (outputs.flatMap Prod.snd) := by
  have hempty : Recorder.Holds { limit } [] := by
    cases limit with
    | none => rfl
    | some n => exact (List.take_nil).symm
  obtain ⟨htexts, hevents, hlimit⟩ := hempty.writeCalls scene l calls
  rw [Recorder.Holds, hlimit, List.nil_append] at hevents
  refine ⟨calls.map (writeCall scene l), ?_, ?_, ?_⟩
  · rw [List.forall₂_map_right_iff, List.forall₂_same]
    exact fun c _ => traced_writeCall scene l c
  · rw [htexts, List.map_map]
    rfl
  · rw [hevents, List.flatMap_map]

end Reenact
