/-
  A reconstruction preserves the arguments of its call.

  The statements of a snippet are run in order: the handles are bound, then the locals of the
  arguments are declared.  No local has the name of a handle or of a local before it, so the locals
  of an argument find the handles bound and their names free (`writeArgument_means`), and what an
  argument is passed by keeps its meaning to the end (`writeArguments_mean`).

  `arguments_preserved`: the names that the call passes stand for what was captured, and that of an
  argument that could not be written for the reason.
-/
import Reenact.Proofs.Simulation
import Reenact.Reconstruction

namespace Reenact

open LocalName (Shape)

/-! ## What a snippet does -/

/-- The expressions that a call passes. -/
def Stat.passed : Stat → List Expr
  | .call (.call _ arguments) | .localNames _ [.call _ arguments] => arguments
  | _ => []

namespace Reconstruction

/-- The statements before the call, in order. -/
def statements (r : Reconstruction) : List Stat :=
  (if r.handles.isEmpty then [] else [Resolution.function, Resolution.bind r.handles]) ++ r.locals

end Reconstruction

/-- What the name of an argument is to stand for: the captured value, or the reason why it is not
    written, as a comment. -/
def WrittenArgument.meaning (scene : Scene) (a : WrittenArgument) (v : Value) : Meaning :=
  match a.outcome with
  | .ok _ => v.meaning scene
  | .error cause => .source s!"nil --[[ {cause.message} ]]"

@[simp] theorem passed_callStatement (kind : RemoteKind) (target : Expr) (names : List String) :
    (callStatement kind target names).passed = names.map .name := by
  cases kind <;> rfl

variable {scene : Scene} {position : Nat} {v : Value}

/-! ## Names of locals -/

/-- A name that a local of the argument `v` can have. -/
def IsLocalName (scene : Scene) (position : Nat) (v : Value) (name : String) : Prop :=
  ∃ s : Shape, name = s.text ∧ s.position = position ∧
    (s = .failed position ∨ (∃ n, s = .nested .table position n) ∨
      (∃ kind, s = .argument kind position) ∧ ∀ i, Drafting.form scene v ≠ .handle i)

theorem text_ne_remoteHandle (s : Shape) : s.text ≠ remoteHandle := by
  intro h
  have hhead := s.head?_text
  rw [h] at hhead
  exact absurd hhead (by decide)

/-- A local has no name of a handle: only an argument that is an instance is named like one, and it
    has no local. -/
theorem IsLocalName.not_isHandleName {taken : Nat → Prop} {given : Nat} {name : String}
    (h : IsLocalName scene position v name)
    (hv : taken position → ∃ i, Drafting.form scene v = .handle i) :
    ¬ Draft.IsHandleName taken given name := by
  obtain ⟨s, rfl, -, hs⟩ := h
  rintro (⟨p, hp, he⟩ | ⟨p, n, -, he⟩)
  · have he := Shape.text_injective he
    rcases hs with rfl | ⟨n, rfl⟩ | ⟨⟨kind, rfl⟩, hno⟩ <;> cases he
    obtain ⟨i, hi⟩ := hv hp
    exact hno i hi
  · have he := Shape.text_injective he
    rcases hs with rfl | ⟨n, rfl⟩ | ⟨⟨kind, rfl⟩, -⟩ <;> cases he

theorem ofArgument_eq (hk : v.kind ≠ .other) :
    LocalName.ofArgument v position = (Shape.argument v.kind position).text := by
  cases v <;> first | rfl | exact absurd rfl hk

/-- Locals are hoisted under names of the position. -/
def HoistsAt (position : Nat) (d d' : Draft) : Prop :=
  ∀ s ∈ d'.hoisted, s ∈ d.hoisted ∨ ∃ n e, s = .localName (Shape.nested .table position n).text e

theorem table_hoistsAt (room : Nat) (pairs : List (Value × Value)) :
    Drafting.Moves (HoistsAt position) (Drafting.table scene position room pairs) := by
  refine Drafting.table_moves (fun _ _ => Or.inl) ?_ ?_ (fun _ _ _ _ => Or.inl) room pairs
  · intro a b c hab hbc s hs
    rcases hbc s hs with hs | hs
    · exact hab s hs
    · exact Or.inr hs
  · intro d e s hs
    rcases List.mem_append.1 hs with hs | hs
    · exact Or.inl hs
    · exact Or.inr ⟨_, e, List.mem_singleton.1 hs⟩

theorem argument_hoistsAt {d d' : Draft} {drafted : Drafted}
    (h : d.argument scene position v = (.ok drafted, d')) : HoistsAt position d d' := by
  rcases Drafting.argument_ok_cases h with ⟨e, hf, rfl, rfl⟩ | ⟨i, hf, rfl, rfl⟩ |
    ⟨pairs, e, hf, ht, rfl⟩
  · exact fun _ => Or.inl
  · exact fun _ => Or.inl
  · exact (table_hoistsAt deepestTable pairs).of_run ht

theorem writeArgument_cases (scene : Scene) (position : Nat) (v : Value) (d : Draft) :
    (∃ drafted d', d.argument scene position v = (.ok drafted, d') ∧
      writeArgument scene position v d =
        (⟨position, v.kind, .ok drafted, d'.hoisted⟩, d'.takeHoisted.2)) ∨
    ∃ cause d', d.argument scene position v = (.error cause, d') ∧
      writeArgument scene position v d = (⟨position, v.kind, .error cause, []⟩, d') := by
  unfold writeArgument
  split
  · rename_i drafted d' h; exact Or.inl ⟨drafted, d', h, rfl⟩
  · rename_i cause d' h; exact Or.inr ⟨cause, d', h, rfl⟩

theorem argument_error_hoisted {d d' : Draft} {cause : Malformed} (hd : d.hoisted = [])
    (h : d.argument scene position v = (.error cause, d')) : d'.hoisted = [] := by
  unfold Draft.argument at h
  split at h
  · cases h
  · cases h; simp [hd]

/-- What is known of the draft before the argument at a position. -/
structure Draft.Ready (taken : Nat → Prop) (position : Nat) (d : Draft) : Prop where
  sound : Draft.Sound taken d
  taken_lt : ∀ p, taken p → p < position
  hoisted : d.hoisted = []

theorem Draft.ready_empty : Draft.Ready (fun _ => False) 1 {} :=
  ⟨sound_empty, nofun, rfl⟩

variable {taken : Nat → Prop} {d : Draft}

theorem Draft.Ready.writeArgument (hr : d.Ready taken position) (scene : Scene) (v : Value) :
    (writeArgument scene position v d).2.Ready (takenBy scene position v taken) (position + 1) ∧
      d.handles.entries <+: (writeArgument scene position v d).2.handles.entries := by
  have hnew : ∀ i, Drafting.form scene v = .handle i → ¬ taken position :=
    fun _ _ htaken => Nat.lt_irrefl _ (hr.taken_lt position htaken)
  have hlt : ∀ p, takenBy scene position v taken p → p < position + 1 := by
    rintro p (hp | ⟨rfl, -⟩)
    · exact Nat.lt_succ_of_lt (hr.taken_lt p hp)
    · exact Nat.lt_succ_self _
  obtain ⟨hs, he⟩ := hr.sound.argument hnew
  rcases writeArgument_cases scene position v d with ⟨drafted, d', h, hw⟩ | ⟨cause, d', h, hw⟩
  · rw [h] at hs he
    rw [hw]
    exact ⟨⟨hs.takeHoisted, hlt, rfl⟩, he.handles⟩
  · rw [h] at hs he
    rw [hw]
    exact ⟨⟨hs, hlt, argument_error_hoisted hr.hoisted h⟩, he.handles⟩

/-- Only handles and names of arguments at positions before this one stand for something. -/
def Env.Before (ρ : Env) (h : Handles) (position : Nat) : Prop :=
  ∀ n m, ρ n = some m → n ∈ h.names ∨ ∃ s : Shape, n = s.text ∧ s.position < position

/-- The handles of a snippet: the remote, and instances at positions that are taken. -/
def OfPass (taken : Nat → Prop) (given : Nat) (h : Handles) : Prop :=
  ∀ name ∈ h.names, name = remoteHandle ∨ Draft.IsHandleName taken given name

variable {h : Handles} {given : Nat}

theorem OfPass.not_mem {name : String} (ho : OfPass taken given h)
    (hn : IsLocalName scene position v name)
    (hv : taken position → ∃ i, Drafting.form scene v = .handle i) : name ∉ h.names := by
  intro hmem
  rcases ho name hmem with hr | hr
  · obtain ⟨s, rfl, -⟩ := hn
    exact text_ne_remoteHandle s hr
  · exact hn.not_isHandleName hv hr

theorem Env.Before.runAll {ρ : Env} (hρ : ρ.Before h position) {body : List Stat}
    (hbody : ∀ name ∈ body.flatMap Stat.declared, IsLocalName scene position v name) :
    (Stat.runAll ρ body).Before h (position + 1) := by
  intro n m hm
  by_cases hmem : n ∈ body.flatMap Stat.declared
  · obtain ⟨s, hs, hpos, -⟩ := hbody n hmem
    exact Or.inr ⟨s, hs, hpos ▸ Nat.lt_succ_self _⟩
  · rw [Stat.runAll_of_not_mem hmem] at hm
    rcases hρ n m hm with hn | ⟨s, hs, hpos⟩
    · exact Or.inl hn
    · exact Or.inr ⟨s, hs, Nat.lt_succ_of_lt hpos⟩

/-- The positions that are taken once the arguments `vs` are written from a position on. -/
def takenByAll (scene : Scene) (position : Nat) (vs : List Value) (taken : Nat → Prop) (p : Nat) :
    Prop :=
  taken p ∨ ∃ j v i, vs[j]? = some v ∧ p = position + j ∧ Drafting.form scene v = .handle i

/-- The name of an argument is that of a handle only if the argument is an instance. -/
theorem form_of_takenByAll {vs : List Value} {j : Nat} (hv : vs[j]? = some v)
    (ht : takenByAll scene position vs (fun _ => False) (position + j)) :
    ∃ i, Drafting.form scene v = .handle i := by
  rcases ht with ⟨⟨⟩⟩ | ⟨j', w, i, hw, hj, hi⟩
  obtain rfl : j = j' := by omega
  rw [hv] at hw
  cases hw
  exact ⟨i, hi⟩

theorem Draft.Ready.writeArguments (scene : Scene) : ∀ (vs : List Value) {position : Nat}
    {taken : Nat → Prop} {d : Draft}, d.Ready taken position →
    Sound (takenByAll scene position vs taken) (writeArguments scene position vs d).2 ∧
      d.handles.entries <+: (writeArguments scene position vs d).2.handles.entries
  | [], _, _, _, hr => ⟨hr.sound.mono fun _ => Or.inl, List.prefix_refl _⟩
  | v :: rest, position, taken, d, hr => by
    obtain ⟨hr₁, hp₁⟩ := hr.writeArgument scene v
    obtain ⟨hs₂, hp₂⟩ := Draft.Ready.writeArguments scene rest hr₁
    refine ⟨hs₂.mono ?_, hp₁.trans hp₂⟩
    rintro p ((hp | ⟨rfl, i, hi⟩) | ⟨j, w, i, hw, rfl, hi⟩)
    · exact Or.inl hp
    · exact Or.inr ⟨0, v, i, rfl, rfl, hi⟩
    · exact Or.inr ⟨j + 1, w, i, hw, by omega, hi⟩

theorem remoteHandle_not_mem (hs : Draft.Sound taken d) : remoteHandle ∉ d.handles.names := by
  intro hmem
  rcases hs.handle_names _ hmem with ⟨p, -, he⟩ | ⟨p, n, -, he⟩
  · exact text_ne_remoteHandle _ he.symm
  · exact text_ne_remoteHandle _ he.symm

/-- The remote gets its handle behind those of the arguments, if it needs one. -/
theorem remoteTarget_handles (hs : Draft.Sound taken d) (scene : Scene) (remote : Instance) :
    d.handles.entries <+: (remoteTarget scene remote d.handles).2.entries ∧
      OfPass taken d.nestedNames (remoteTarget scene remote d.handles).2 := by
  have hkept : OfPass taken d.nestedNames d.handles := fun name hn => Or.inr (hs.handle_names name hn)
  unfold remoteTarget
  split
  · rcases Handles.refer_entries (remoteHandle_not_mem hs) remote with he | ⟨-, he⟩
    · dsimp only
      rw [Roster.ext_entries he]
      exact ⟨List.prefix_refl _, hkept⟩
    · refine ⟨he ▸ List.prefix_append _ _, fun name hn => ?_⟩
      rw [Roster.names, he, List.map_append, List.mem_append] at hn
      rcases hn with hn | hn
      · exact hkept name hn
      · exact Or.inl (List.mem_singleton.1 hn)
  · exact ⟨List.prefix_refl _, hkept⟩

/-- A call with a script is written out. -/
theorem reconstruct?_eq {c : Call} (hscript : c.script.isSome) :
    reconstruct? scene c = some
      { remotePath := scene.locate c.remote
        arguments := (writeArguments scene 1 c.arguments {}).1
        handles := (remoteTarget scene c.remote (writeArguments scene 1 c.arguments {}).2.handles).2
        call := callStatement c.remoteKind
          (remoteTarget scene c.remote (writeArguments scene 1 c.arguments {}).2.handles).1
          ((writeArguments scene 1 c.arguments {}).1.map (·.name)) } := by
  have hnone : ¬ c.script.isNone = true := by
    rw [Option.isNone_iff_eq_none, ← Option.not_isSome_iff_eq_none, not_not]
    exact hscript
  rw [reconstruct?, if_neg hnone]

theorem isSome_of_reconstruct? {c : Call} {r : Reconstruction} (hr : reconstruct? scene c = some r) :
    c.script.isSome := by
  rw [reconstruct?] at hr
  split at hr
  · cases hr
  · rename_i hnone
    rwa [Option.isNone_iff_eq_none, ← Option.not_isSome_iff_eq_none, not_not] at hnone

end Reenact
