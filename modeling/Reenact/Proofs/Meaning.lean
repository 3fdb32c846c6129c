/-
  What snippets mean.

  The meaning of a value and of an expression is a tree of scalars, pairs, objects and source texts.
  An object is known by its debug id; a source text stands for itself.  Statements are run one after
  another on an environment that says what names stand for; a name that is declared again stands for
  the later value.

  * `Value.meaning`: what was captured;
  * `Expr.eval`, `Stat.run`: what is written;
  * `Stat.within_runAll`: declaring new names, one after another, takes no meaning away.
-/
import Reenact.Proofs.Handles
import Reenact.Resolution

namespace Reenact

/-- What a value or an expression means. -/
inductive Meaning where
  | nil
  | boolean (value : Bool)
  | number (value : Binary64)
  | text (value : String)
  /-- The pairs of a table, in order -/
  | table (pairs : List (Meaning × Meaning))
  /-- The object with a debug id -/
  | object (debugId : String)
  /-- Source text that stands for itself -/
  | source (text : String)

/-! ## Captured values -/

theorem Drafting.mem_ordered {scene : Scene} {pairs : List (Value × Value)} {p : Value × Value} :
    p ∈ Drafting.ordered scene pairs ↔ p ∈ pairs := by
  unfold Drafting.ordered
  split
  · exact (Value.sortPairs_perm pairs).mem_iff
  · rfl

/-- What a captured value means: a table its pairs in the order of the settings, an instance the
    object with its debug id or its path, a value of the host its constructor call. -/
def Value.meaning (scene : Scene) : Value → Meaning
  | .nil => .nil
  | .boolean b => .boolean b
  | .number x => .number x
  | .text s => .text s
  | .table pairs =>
    .table ((Drafting.ordered scene pairs).attach.map fun ⟨(k, v), _⟩ =>
      (k.meaning scene, v.meaning scene))
  | .reference i =>
    if scene.settings.useInstanceIds then .object i.debugId else .source (scene.locate i)
  | .dateTime millis => host (Constructor.dateTime scene.settings millis)
  | .pathWaypoint p action => host (Constructor.pathWaypoint p action)
  | .ray origin direction => host (Constructor.ray origin direction)
  | .region center size => host (Constructor.region center size)
  | .colorSequence keypoints => host (Constructor.colorSequence keypoints)
  | .numberSequence keypoints => host (Constructor.numberSequence keypoints)
  | .colorKeypoint k => host (Constructor.colorKeypoint k)
  | .numberKeypoint k => host (Constructor.numberKeypoint k)
  | .other typeName source => host (Constructor.other typeName source)
termination_by v => sizeOf v
decreasing_by
  all_goals
    have hlt := List.sizeOf_lt_of_mem (Drafting.mem_ordered.1 ‹_›)
    simp only [Prod.mk.sizeOf_spec, Value.table.sizeOf_spec] at hlt ⊢
    omega
where
  host (text : List Char) : Meaning := .source (String.ofList text)

/-- What names stand for; some stand for nothing. -/
abbrev Env := String → Option Meaning

mutual

/-- What an expression means, if it is one of those that arguments are written with. -/
def Expr.eval (ρ : Env) : Expr → Option Meaning
  | .name n => ρ n
  | .text value _ => some (.text value)
  | .number value _ => some (.number value)
  | .boolean b => some (.boolean b)
  | .nil => some .nil
  | .table fields => (Field.evalAll ρ 1 fields).map .table
  | .raw source => some (.source source)
  | _ => none

/-- The pair of a field, where `next` is the position of the next value without a key. -/
def Field.eval (ρ : Env) (next : Nat) : Field → Option (Meaning × Meaning)
  | .keyed key value => do return (← key.eval ρ, ← value.eval ρ)
  | .named name value => do return (.text name, ← value.eval ρ)
  | .positional value => do return (.number (Binary64.ofInt next), ← value.eval ρ)

/-- The pairs of fields. -/
def Field.evalAll (ρ : Env) : (next : Nat) → List Field → Option (List (Meaning × Meaning))
  | _, [] => some []
  | next, f :: rest => do
    let pair ← f.eval ρ next
    let pairs ← Field.evalAll ρ (match f with | .positional _ => next + 1 | _ => next) rest
    return pair :: pairs

end

/-- What the resolving function makes of an argument. -/
def Expr.resolved? : Expr → Option Meaning
  | .text debugId _ => some (.object debugId)
  | _ => none

/-- The values of an expression that names are declared with.  A call of the resolving function has
    one for each debug id, the object with it. -/
def Expr.results (ρ : Env) : Expr → List (Option Meaning)
  | .call (.name f) arguments =>
    if f = Resolution.functionName then arguments.map Expr.resolved? else [none]
  | e => [e.eval ρ]

theorem Expr.results_of_eval {ρ : Env} {e : Expr} {m : Meaning} (h : e.eval ρ = some m) :
    e.results ρ = [some m] := by
  unfold Expr.results
  split
  · cases h
  · rw [h]

/-! ## Environments -/

namespace Env

/-- What names stand for in `ρ`, they stand for in `ρ'`. -/
def Within (ρ ρ' : Env) : Prop := ∀ n m, ρ n = some m → ρ' n = some m

theorem Within.refl (ρ : Env) : ρ.Within ρ := fun _ _ => id

theorem Within.trans {ρ ρ₁ ρ₂ : Env} (h : ρ.Within ρ₁) (h' : ρ₁.Within ρ₂) : ρ.Within ρ₂ :=
  fun n m hn => h' n m (h n m hn)

/-- The names and what they stand for from now on. -/
def declare (ρ : Env) (entries : List (String × Option Meaning)) : Env :=
  fun n => (entries.lookup n).getD (ρ n)

theorem declare_of_not_mem {ρ : Env} {n : String} : ∀ {entries : List (String × Option Meaning)},
    n ∉ entries.map Prod.fst → ρ.declare entries n = ρ n
  | [], _ => rfl
  | (m, a) :: rest, h => by
    simp only [List.map_cons, List.mem_cons, not_or] at h
    have hrest := declare_of_not_mem (ρ := ρ) h.2
    rw [declare] at hrest ⊢
    rw [Roster.lookup_cons, if_neg h.1, hrest]

/-- Every handle stands for the object with its debug id. -/
def Binds (ρ : Env) (h : Handles) : Prop :=
  ∀ name id, h.Names name id → ρ name = some (.object id)

theorem Binds.mono {ρ : Env} {h h' : Handles} (hb : ρ.Binds h') (hp : h.entries <+: h'.entries) :
    ρ.Binds h :=
  fun name id hn => hb name id (hn.mono hp)

theorem Binds.within {ρ ρ' : Env} {h : Handles} (hb : ρ.Binds h) (hw : ρ.Within ρ') :
    ρ'.Binds h :=
  fun name id hn => hw name _ (hb name id hn)

/-- The names that the statements declare stand for nothing. -/
def Free (ρ : Env) (body : List Stat) : Prop := ∀ n ∈ body.flatMap Stat.declared, ρ n = none

theorem Free.left {ρ : Env} {body body' : List Stat} (h : ρ.Free (body ++ body')) :
    ρ.Free body := by
  intro n hn
  apply h n
  rw [List.flatMap_append]
  exact List.mem_append_left _ hn

theorem Free.right {ρ : Env} {body body' : List Stat} (h : ρ.Free (body ++ body')) :
    ρ.Free body' := by
  intro n hn
  apply h n
  rw [List.flatMap_append]
  exact List.mem_append_right _ hn

end Env

/-! ## Statements -/

namespace Stat

/-- What names stand for after a statement. -/
def run (ρ : Env) : Stat → Env
  | .localNames names [value] => ρ.declare (names.zip (value.results ρ))
  | _ => ρ

/-- What names stand for after statements. -/
def runAll (ρ : Env) (body : List Stat) : Env := body.foldl Stat.run ρ

theorem runAll_append (ρ : Env) (body body' : List Stat) :
    runAll ρ (body ++ body') = runAll (runAll ρ body) body' :=
  List.foldl_append

theorem run_of_not_mem {ρ : Env} {s : Stat} {n : String} (h : n ∉ s.declared) :
    s.run ρ n = ρ n := by
  unfold run
  split
  · rename_i names value
    refine Env.declare_of_not_mem fun hmem => h ?_
    obtain ⟨⟨_, _⟩, hp, rfl⟩ := List.mem_map.1 hmem
    exact (List.of_mem_zip hp).1
  · rfl

theorem runAll_of_not_mem {n : String} : ∀ {body : List Stat} {ρ : Env},
    n ∉ body.flatMap declared → runAll ρ body n = ρ n
  | [], _, _ => rfl
  | s :: rest, ρ, h => by
    rw [List.flatMap_cons, List.mem_append, not_or] at h
    exact (runAll_of_not_mem (ρ := s.run ρ) h.2).trans (run_of_not_mem h.1)

/-- **Declaring free names takes no meaning away.** -/
theorem within_runAll {ρ : Env} {body : List Stat} (h : ρ.Free body) :
    ρ.Within (runAll ρ body) := by
  intro n m hn
  rw [runAll_of_not_mem fun hmem => ?_, hn]
  rw [h n hmem] at hn
  cases hn

theorem free_runAll {ρ : Env} {body body' : List Stat}
    (hn : ((body ++ body').flatMap declared).Nodup) (h : ρ.Free (body ++ body')) :
    (runAll ρ body).Free body' := by
  intro n hmem
  rw [List.flatMap_append] at hn
  rw [runAll_of_not_mem fun hm => (List.nodup_append.1 hn).2.2 n hm n hmem rfl]
  exact h.right n hmem

theorem run_localName {ρ : Env} {t : String} {e : Expr} {m : Meaning} (h : e.eval ρ = some m) :
    (Stat.localName t e).run ρ t = some m := by
  have hr := Expr.results_of_eval h
  simp [run, localName, hr, Env.declare]

end Stat

end Reenact
