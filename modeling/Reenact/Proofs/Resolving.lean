/-
  Debug ids are resolved.

  The function of a snippet keeps its arguments in a table, and counts those that are still ids.  An
  object that is visited takes the place of every id that is its own, and the count goes down by as
  many; so the count is that of the ids in the table at every time, and once it is zero no object
  that follows can change the table.

  * `Host.resolved`: what an argument resolves to;
  * `Place.exec_forEachIndex`: a loop over the arguments changes each of them in the same way;
  * `Place.loopEach_visit`: the loop over the objects of a list, with `Place.Reached` for its
    invariant;
  * `debugIds_resolved`: the function resolves its arguments, and the handles of a snippet stand for
    what their debug ids resolve to.
-/
import Reenact.Proofs.Evaluation
import Reenact.Resolution

namespace Reenact.Lua

open Host (evalMany evalAll call execAll exec loopEach)

variable {Object : Type}

/-! ## What is resolved -/

/-- An argument of the function: a debug id or an object. -/
def argument : String ⊕ Object → Value Object
  | .inl id => .text id
  | .inr o => .object o

def Value.isText : Value Object → Bool
  | text _ => true
  | _ => false

/-- How many ids a value is. -/
def Value.pending : Value Object → Int
  | text _ => 1
  | _ => 0

theorem sum_pending (vs : List (Value Object)) :
    (vs.map Value.pending).sum = vs.countP Value.isText := by
  induction vs with
  | nil => rfl
  | cons v rest ih =>
    rw [List.map_cons, List.sum_cons, ih, List.countP_cons]
    cases v <;> simp [Value.pending, Value.isText, Int.add_comm]

theorem typeName_eq_string {v : Value Object} : v.typeName = "string" ↔ v.isText = true := by
  cases v <;> simp [Value.typeName, Value.isText]

/-- A text behind what says that no object has it for a debug id; another value as it is. -/
def marked : Value Object → Value Object
  | .text id => .text (Resolution.notFoundLead ++ id)
  | v => v

namespace Host

variable (host : Host Object)

/-- The first object with a debug id, where those without a parent come first. -/
def find? (id : String) : Option Object :=
  (host.nilInstances ++ host.descendants).find? fun o => host.debugId o = id

/-- What an argument resolves to. -/
def resolved : String ⊕ Object → Value Object
  | .inr o => .object o
  | .inl id =>
    match host.find? id with
    | some o => .object o
    | none => .text (Resolution.notFoundLead ++ id)

/-- What stands for an argument once some objects were visited. -/
def resolvedBy (seen : List Object) : String ⊕ Object → Value Object
  | .inr o => .object o
  | .inl id =>
    match seen.find? fun o => host.debugId o = id with
    | some o => .object o
    | none => .text id

/-- What a visited object makes of a value: its own debug id becomes the object. -/
def visited [DecidableEq Object] (o : Object) (v : Value Object) : Value Object :=
  if v = .text (host.debugId o) then .object o else v

theorem resolvedBy_nil : host.resolvedBy [] = argument := by
  funext a; cases a <;> rfl

theorem visited_resolvedBy [DecidableEq Object] (seen : List Object) (o : Object)
    (a : String ⊕ Object) :
    host.visited o (host.resolvedBy seen a) = host.resolvedBy (seen ++ [o]) a := by
  cases a with
  | inr o' => simp [visited, resolvedBy]
  | inl id =>
    cases hf : seen.find? fun o => host.debugId o = id with
    | some o' => simp [visited, resolvedBy, hf]
    | none =>
      by_cases ho : host.debugId o = id
      · simp [visited, resolvedBy, hf, ho]
      · simp [visited, resolvedBy, hf, ho, Ne.symm ho]

theorem resolvedBy_append {seen : List Object} {a : String ⊕ Object}
    (ha : (host.resolvedBy seen a).isText = false) (more : List Object) :
    host.resolvedBy (seen ++ more) a = host.resolvedBy seen a := by
  cases a with
  | inr o => rfl
  | inl id =>
    cases hf : seen.find? fun o => host.debugId o = id with
    | some o => simp [resolvedBy, hf]
    | none => simp [resolvedBy, hf, Value.isText] at ha

theorem marked_resolvedBy (a : String ⊕ Object) :
    marked (host.resolvedBy (host.nilInstances ++ host.descendants) a) = host.resolved a := by
  cases a with
  | inr o => rfl
  | inl id =>
    rw [resolvedBy, resolved, find?]
    cases (host.nilInstances ++ host.descendants).find? fun o => host.debugId o = id <;> rfl

end Host

/-! ## Variables of the function -/

/-- Where the function keeps its variables: the cells of the table and of the count, and the address
    of the table. -/
structure Place where
  ids : Nat
  remaining : Nat
  table : Nat

/-- The names that stand for what the host gives. -/
def hostNames : List String :=
  ["type", "ipairs", "table", "game", "getnilinstances", "getweakdescendants"]

namespace Place

/-- Where a call from a store keeps its variables. -/
def new (s : Store Object) : Place := ⟨s.nextCell, s.nextCell + 1, s.nextTable⟩

/-- A scope in which the variables are declared. -/
def scopeIn (p : Place) (outer : Scope) : Scope :=
  ("remaining", p.remaining) :: ("ids", p.ids) :: outer

/-- In a scope the variables of the function have their names, and no name of the host is taken. -/
structure Seen (p : Place) (scope : Scope) : Prop where
  ids : scope.lookup "ids" = some p.ids
  remaining : scope.lookup "remaining" = some p.remaining
  host : ∀ n ∈ hostNames, scope.lookup n = none

/-- The table has the values of a list, and the count is `m`. -/
structure Holds (p : Place) (vs : List (Value Object)) (m : Int) (s : Store Object) : Prop where
  ids : s.cells p.ids = .table p.table
  remaining : s.cells p.remaining = .number m
  size : s.tables p.table (.text "n") = .number vs.length
  entries : ∀ k v, vs[k]? = some v → s.tables p.table (.number (k + 1 : Nat)) = v
  ids_ne : p.ids ≠ p.remaining
  ids_lt : p.ids < s.nextCell
  remaining_lt : p.remaining < s.nextCell
  table_lt : p.table < s.nextTable

/-- A name stands for the value of a cell that the loops leave alone. -/
def HasLocal (p : Place) (scope : Scope) (s : Store Object) (name : String) (v : Value Object) :
    Prop :=
  ∃ a, scope.lookup name = some a ∧ a < s.nextCell ∧ a ≠ p.remaining ∧ s.cells a = v

/-- The table has what stands for the arguments once some objects were visited, and the count is that
    of the ids in it. -/
def Reached (host : Host Object) (p : Place) (args : List (String ⊕ Object)) (seen : List Object)
    (s : Store Object) : Prop :=
  p.Holds (args.map (host.resolvedBy seen)) ((args.map (host.resolvedBy seen)).countP Value.isText) s

/-- The body of the function that visits an object. -/
def visitBody : List Stat :=
  [.localName "debugId" (.methodCall (.name "instance") "GetDebugId" []),
    Resolution.forEachIndex
      [.ifThen (.binary .eq Resolution.idAtIndex (.name "debugId"))
        [.assignOne Resolution.idAtIndex (.name "instance"),
          .assignOne Resolution.remaining (.binary .sub Resolution.remaining (.ofNat 1))]]]

/-- The function that visits an object is at hand. -/
def CanVisit (p : Place) (scope : Scope) (s : Store Object) : Prop :=
  ∃ b inner, p.HasLocal scope s "visit" (.closure b) ∧ b < s.nextClosure ∧
    s.closures b = some ⟨[.name "instance"], visitBody, inner⟩ ∧ p.Seen inner

variable {host : Host Object} {p : Place} {scope : Scope} {rest vs : List (Value Object)} {m : Int}
  {s s' : Store Object} {v : Value Object} {args : List (String ⊕ Object)} {seen : List Object}

theorem Seen.cons (h : p.Seen scope) {name : String} (a : Nat)
    (hn : name ∉ "ids" :: "remaining" :: hostNames) : p.Seen ((name, a) :: scope) := by
  have hne : ∀ n ∈ "ids" :: "remaining" :: hostNames,
      List.lookup n ((name, a) :: scope) = scope.lookup n := fun n hmem => by
    rw [Roster.lookup_cons, if_neg]
    rintro rfl
    exact hn hmem
  exact ⟨(hne _ (by simp)).trans h.ids, (hne _ (by simp)).trans h.remaining,
    fun n hmem => (hne n (by simp [hmem])).trans (h.host n hmem)⟩

theorem Seen.lookup (hp : p.Seen scope) {n : String} (hn : n ∈ hostNames) :
    host.lookup scope s n = host.global n := by
  rw [Host.lookup, hp.host n hn]

theorem seen_scopeIn {outer : Scope} (houter : ∀ n ∈ hostNames, outer.lookup n = none) (p : Place) :
    p.Seen (p.scopeIn outer) := by
  have hne : ∀ n ∈ hostNames, n ≠ "remaining" ∧ n ≠ "ids" := by decide
  refine ⟨by simp [scopeIn, Roster.lookup_cons], by simp [scopeIn], fun n hn => ?_⟩
  rw [scopeIn, Roster.lookup_cons, if_neg (hne n hn).1, Roster.lookup_cons, if_neg (hne n hn).2,
    houter n hn]

/-- What neither changes the cells nor the tables keeps the variables. -/
theorem Holds.keep (h : p.Holds vs m s) (hk : s.Keeps s.nextCell s.nextTable s') :
    p.Holds vs m s' where
  ids := (hk.cells _ h.ids_lt (Nat.ne_of_lt h.ids_lt)).trans h.ids
  remaining := (hk.cells _ h.remaining_lt (Nat.ne_of_lt h.remaining_lt)).trans h.remaining
  size := by rw [hk.tables _ h.table_lt (Nat.ne_of_lt h.table_lt), h.size]
  entries k v hv := by
    rw [hk.tables _ h.table_lt (Nat.ne_of_lt h.table_lt), h.entries k v hv]
  ids_ne := h.ids_ne
  ids_lt := Nat.lt_of_lt_of_le h.ids_lt hk.nextCell
  remaining_lt := Nat.lt_of_lt_of_le h.remaining_lt hk.nextCell
  table_lt := Nat.lt_of_lt_of_le h.table_lt hk.nextTable

theorem Holds.setRemaining (h : p.Holds vs m s) (m' : Int) :
    p.Holds vs m' (s.setCell p.remaining (.number m')) :=
  { h with
    ids := (Function.update_of_ne h.ids_ne _ _).trans h.ids
    remaining := Function.update_self .. }

theorem HasLocal.keep {name : String} (h : p.HasLocal scope s name v)
    (hk : s.Keeps p.remaining p.table s') : p.HasLocal scope s' name v := by
  obtain ⟨a, ha, hlt, hne, hv⟩ := h
  exact ⟨a, ha, Nat.lt_of_lt_of_le hlt hk.nextCell, hne, (hk.cells a hlt hne).trans hv⟩

theorem HasLocal.cons {name other : String} (h : p.HasLocal scope s name v) (a : Nat)
    (hne : name ≠ other) : p.HasLocal ((other, a) :: scope) s name v := by
  obtain ⟨b, hb, hb'⟩ := h
  exact ⟨b, by rw [Roster.lookup_cons, if_neg hne, hb], hb'⟩

theorem Holds.hasLocal_newCell (h : p.Holds vs m s) (scope : Scope) (name : String)
    (v : Value Object) : p.HasLocal ((name, s.nextCell) :: scope) (s.newCell v) name v :=
  ⟨s.nextCell, by simp, Nat.lt_succ_self _, (Nat.ne_of_lt h.remaining_lt).symm,
    Store.cells_newCell s v⟩

/-- **Once no id is left, no object that follows changes anything.** -/
theorem Reached.append (h : p.Reached host args seen s)
    (hnone : (args.map (host.resolvedBy seen)).countP Value.isText = 0) (more : List Object) :
    p.Reached host args (seen ++ more) s := by
  have hmap : args.map (host.resolvedBy (seen ++ more)) = args.map (host.resolvedBy seen) := by
    refine List.map_congr_left fun a ha => host.resolvedBy_append ?_ more
    have := List.countP_eq_zero.1 hnone _ (List.mem_map_of_mem ha)
    simpa using this
  rwa [Reached, hmap]

theorem CanVisit.keep (h : p.CanVisit scope s) (hk : s.Keeps p.remaining p.table s') :
    p.CanVisit scope s' := by
  obtain ⟨b, inner, hb, hlt, hc, hp⟩ := h
  exact ⟨b, inner, hb.keep hk, Nat.lt_of_lt_of_le hlt hk.nextClosure,
    (hk.closures b hlt).trans hc, hp⟩

theorem CanVisit.cons (h : p.CanVisit scope s) {name : String} (a : Nat) (hne : "visit" ≠ name) :
    p.CanVisit ((name, a) :: scope) s := by
  obtain ⟨b, inner, hb, h⟩ := h
  exact ⟨b, inner, hb.cons a hne, h⟩

variable [DecidableEq Object]

theorem Holds.setEntry (h : p.Holds vs m s) {k : Nat} (hk : k < vs.length) (w : Value Object) :
    p.Holds (vs.set k w) m (s.setIndex p.table (.number (k + 1 : Nat)) w) :=
  { h with
    size := by simp [Store.setIndex, h.size]
    entries := fun j v hv => by
      by_cases hj : j = k
      · subst hj
        rw [List.getElem?_set_self hk] at hv
        cases hv
        simp [Store.setIndex]
      · rw [List.getElem?_set_ne (Ne.symm hj)] at hv
        have hne : (Value.number (j + 1 : Nat) : Value Object) ≠ .number (k + 1 : Nat) := by
          intro he
          injection he with he
          omega
        change Function.update s.tables p.table _ p.table _ = v
        rw [Function.update_self, Function.update_of_ne hne, h.entries j v hv] }

/-! ## Expressions of the function -/

theorem HasLocal.evalMany {name : String} (h : p.HasLocal scope s name v) :
    evalMany host scope rest (.name name) s = some ([v], s) := by
  obtain ⟨a, ha, -, -, hv⟩ := h
  rw [evalMany_name, Host.lookup, ha]
  simp [hv]

section
variable (hp : p.Seen scope) (h : p.Holds vs m s)
include hp h

theorem evalMany_ids : evalMany host scope rest Resolution.ids s = some ([.table p.table], s) := by
  rw [Resolution.ids, evalMany_name, Host.lookup, hp.ids]
  simp [h.ids]

theorem evalMany_idCount :
    evalMany host scope rest Resolution.idCount s = some ([.number vs.length], s) :=
  evalMany_member (evalMany_ids hp h) (congrArg some h.size)

theorem evalMany_remaining :
    evalMany host scope rest Resolution.remaining s = some ([.number m], s) := by
  rw [Resolution.remaining, evalMany_name, Host.lookup, hp.remaining]
  simp [h.remaining]

variable {k : Nat} (hi : host.lookup scope s "i" = .number (k + 1 : Nat)) (hv : vs[k]? = some v)
include hi hv

theorem evalMany_idAtIndex :
    evalMany host scope rest Resolution.idAtIndex s = some ([v], s) := by
  refine evalMany_index (evalMany_ids hp h) (evalMany_name "i") ?_
  rw [hi]
  exact congrArg some (h.entries k v hv)

theorem evalMany_isPending :
    evalMany host scope rest Resolution.isPending s = some ([.boolean v.isText], s) := by
  have htype : host.lookup scope s "type" = .builtin .type := by
    rw [Host.lookup, hp.host "type" (by decide)]; rfl
  have hcall : evalMany host scope rest (.call (.name "type") [Resolution.idAtIndex]) s =
      some ([.text v.typeName], s) := by
    refine evalMany_call (by simp) (evalMany_name "type")
      ((evalAll_singleton _).trans (evalMany_idAtIndex hp h hi hv)) ?_
    rw [htype, call_builtin]; rfl
  refine evalMany_binary hcall (evalMany_ofText "string") ?_
  simp [applyBinary, typeName_eq_string]

end

/-! ## Loops over the arguments -/

theorem set_map_take_append_drop {α : Type} (f : α → α) : ∀ {as : List α} {k : Nat} {a : α},
    as[k]? = some a → ((as.take k).map f ++ as.drop k).set k (f a) =
      (as.take (k + 1)).map f ++ as.drop (k + 1)
  | a :: as, 0, _, h => by cases h; rfl
  | a :: as, k + 1, _, h =>
    congrArg (f a :: ·) (set_map_take_append_drop f (show as[k]? = _ from h))

theorem getElem?_map_take_append_drop {α : Type} (f : α → α) : ∀ (as : List α) (k : Nat),
    ((as.take k).map f ++ as.drop k)[k]? = as[k]?
  | [], _ => by simp
  | _ :: _, 0 => rfl
  | _ :: as, k + 1 => getElem?_map_take_append_drop f as k

/-- In a store that keeps what is in `s`, a body changes the entry at `i` by `f`, the count by `g`, and
    nothing else. -/
def Changes (host : Host Object) (p : Place) (scope : Scope) (rest : List (Value Object))
    (s : Store Object) (body : List Stat) (f : Value Object → Value Object)
    (g : Value Object → Int) : Prop :=
  ∀ {vs : List (Value Object)} {m : Int} {t : Store Object} {k : Nat} {v : Value Object} (a : Nat),
    p.Holds vs m t → s.Keeps p.remaining p.table t →
    host.lookup (("i", a) :: scope) t "i" = .number (k + 1 : Nat) → vs[k]? = some v →
    ∃ inner t', execAll host (("i", a) :: scope) rest body t = some (.next, inner, t') ∧
      p.Holds (vs.set k (f v)) (m + g v) t' ∧ t.Keeps p.remaining p.table t'

/-- **A loop over the arguments** changes each entry, and the count by the sum, if its body does so
    for one. -/
theorem exec_forEachIndex (hp : p.Seen scope) (h : p.Holds vs m s) {body : List Stat}
    {f : Value Object → Value Object} {g : Value Object → Int}
    (hbody : Changes host p scope rest s body f g) :
    ∃ s', exec host scope rest (Resolution.forEachIndex body) s = some (.next, scope, s') ∧
      p.Holds (vs.map f) (m + (vs.map g).sum) s' ∧ s.Keeps p.remaining p.table s' := by
  -- after `k` rounds the first `k` entries are changed
  let P (k : Nat) (t : Store Object) : Prop :=
    p.Holds ((vs.take k).map f ++ vs.drop k) (m + ((vs.take k).map g).sum) t ∧
      s.Keeps p.remaining p.table t
  have hstep : ∀ k t, k < vs.length → P k t → ∃ inner t', execAll host (("i", t.nextCell) :: scope)
      rest body (t.newCell (.number (k + 1 : Nat))) = some (.next, inner, t') ∧ P (k + 1) t' := by
    rintro k t hk ⟨ht, hkeep⟩
    obtain ⟨v, hv⟩ : ∃ v, vs[k]? = some v := ⟨_, List.getElem?_eq_getElem hk⟩
    have hentry := (getElem?_map_take_append_drop f vs k).trans hv
    have hi : host.lookup (("i", t.nextCell) :: scope) (t.newCell (.number (k + 1 : Nat))) "i" =
        .number (k + 1 : Nat) := by simp [Host.lookup]
    obtain ⟨inner, t', hrun, ht', hkeep'⟩ := hbody t.nextCell
      (ht.keep (Store.keeps_newCell _ _ _ _)) (hkeep.trans (Store.keeps_newCell _ _ _ _)) hi hentry
    refine ⟨inner, t', hrun, ?_, hkeep.trans ((Store.keeps_newCell _ _ _ _).trans hkeep')⟩
    rw [set_map_take_append_drop f hv, Int.add_assoc] at ht'
    have hsum : ((vs.take (k + 1)).map g).sum = ((vs.take k).map g).sum + g v := by
      simp [List.take_add_one, hv]
    rwa [hsum]
  obtain ⟨s', hloop, h', hkeep⟩ := loopRange_of_step P hstep 0 (Nat.zero_le _)
    ⟨by simpa using h, Store.Keeps.refl _ _ _⟩
  refine ⟨s', exec_forRange (evalMany_ofNat 1 (by decide +kernel)) (evalMany_idCount hp h) hloop,
    ?_, hkeep⟩
  simpa using h'

theorem set_of_getElem? {α : Type} {as : List α} {k : Nat} {a : α} (h : as[k]? = some a) :
    as.set k a = as := by
  obtain ⟨hk, rfl⟩ := List.getElem?_eq_some_iff.1 h
  exact List.set_getElem_self hk

/-- An id is counted. -/
theorem changes_countPending (hp : p.Seen scope) :
    Changes host p scope rest s [.ifThen Resolution.isPending
        [.assignOne Resolution.remaining (.binary .add Resolution.remaining (.ofNat 1))]]
      id Value.pending := by
  intro vs m t k v a ht _ hi hv
  have hp' := hp.cons a (by decide : "i" ∉ _)
  have hpending : evalMany host (("i", a) :: scope) rest Resolution.isPending t =
    some ([.boolean v.isText], t) := evalMany_isPending hp' ht hi hv
  rw [id, set_of_getElem? hv]
  cases v with
  | text id =>
    have hsum : evalMany host (("i", a) :: scope) rest
        (.binary .add Resolution.remaining (.ofNat 1)) t = some ([.number (m + 1)], t) :=
      evalMany_binary (evalMany_remaining hp' ht) (evalMany_ofNat 1 (by decide +kernel)) rfl
    refine ⟨_, _, execAll_singleton (exec_ifThen_of_true hpending
      (execAll_singleton (exec_assignName hp'.remaining hsum))), ?_, Store.keeps_setCell _ _ _ _⟩
    exact ht.setRemaining (m + 1)
  | _ =>
    refine ⟨_, _, execAll_singleton (exec_ifThen_of_false hpending), ?_, Store.Keeps.refl _ _ _⟩
    rwa [Value.pending, Int.add_zero]
    exact nofun

/-- An id that is left is put behind the text that says so. -/
theorem changes_markPending (hp : p.Seen scope) :
    Changes host p scope rest s [.ifThen Resolution.isPending [.assignOne Resolution.idAtIndex
        (.binary .concat (.ofText Resolution.notFoundLead) Resolution.idAtIndex)]]
      marked (fun _ => 0) := by
  intro vs m t k v a ht _ hi hv
  have hp' := hp.cons a (by decide : "i" ∉ _)
  have hentry : evalMany host (("i", a) :: scope) rest Resolution.idAtIndex t = some ([v], t) :=
    evalMany_idAtIndex hp' ht hi hv
  have hpending : evalMany host (("i", a) :: scope) rest Resolution.isPending t =
    some ([.boolean v.isText], t) := evalMany_isPending hp' ht hi hv
  have hlt : k < vs.length := (List.getElem?_eq_some_iff.1 hv).1
  rw [Int.add_zero]
  cases v with
  | text id =>
    have hkey : evalMany host (("i", a) :: scope) rest (.name "i") t =
        some ([.number (k + 1 : Nat)], t) := by rw [evalMany_name, hi]
    have hmarked : evalMany host (("i", a) :: scope) rest
        (.binary .concat (.ofText Resolution.notFoundLead) Resolution.idAtIndex) t =
        some ([marked (.text id)], t) := evalMany_binary (evalMany_ofText _) hentry rfl
    exact ⟨_, _, execAll_singleton (exec_ifThen_of_true hpending (execAll_singleton
      (exec_assignIndex (evalMany_ids hp' ht) hkey hmarked))), ht.setEntry hlt _,
      Store.keeps_setIndex _ _ _ _ _⟩
  | _ =>
    refine ⟨_, _, execAll_singleton (exec_ifThen_of_false hpending), ?_, Store.Keeps.refl _ _ _⟩
    rwa [marked, set_of_getElem? hv]
    exact nofun

/-- **The ids are counted.** -/
theorem exec_countPending (host : Host Object) (rest : List (Value Object)) (hp : p.Seen scope)
    (h : p.Holds vs 0 s) :
    ∃ s', exec host scope rest Resolution.countPending s = some (.next, scope, s') ∧
      p.Holds vs (vs.countP Value.isText) s' ∧ s.Keeps p.remaining p.table s' := by
  obtain ⟨s', hrun, h', hkeep⟩ := exec_forEachIndex hp h (changes_countPending hp)
  rw [List.map_id, sum_pending, Int.zero_add] at h'
  exact ⟨s', hrun, h', hkeep⟩

/-- **The ids that are left are marked.** -/
theorem exec_markPending (host : Host Object) (rest : List (Value Object)) (hp : p.Seen scope)
    (h : p.Holds vs m s) : ∃ m' s', exec host scope rest Resolution.markPending s =
      some (.next, scope, s') ∧ p.Holds (vs.map marked) m' s' := by
  obtain ⟨s', hrun, h', -⟩ := exec_forEachIndex hp h (changes_markPending hp)
  exact ⟨_, s', hrun, h'⟩

/-! ## Visiting objects -/

/-- How many ids become an object when it is visited, as a change of their count. -/
def foundBy (host : Host Object) (o : Object) (v : Value Object) : Int :=
  if v = .text (host.debugId o) then -1 else 0

theorem changes_visit (hp : p.Seen scope) {o : Object}
    (hid : p.HasLocal scope s "debugId" (.text (host.debugId o)))
    (ho : p.HasLocal scope s "instance" (.object o)) :
    Changes host p scope rest s [.ifThen (.binary .eq Resolution.idAtIndex (.name "debugId"))
        [.assignOne Resolution.idAtIndex (.name "instance"),
          .assignOne Resolution.remaining (.binary .sub Resolution.remaining (.ofNat 1))]]
      (host.visited o) (foundBy host o) := by
  intro vs m t k v a ht hkeep hi hv
  have hp' := hp.cons a (by decide : "i" ∉ _)
  have hid' := (hid.keep hkeep).cons a (by decide : "debugId" ≠ "i")
  have ho' := (ho.keep hkeep).cons a (by decide : "instance" ≠ "i")
  have hlt : k < vs.length := (List.getElem?_eq_some_iff.1 hv).1
  have hcondition : evalMany host (("i", a) :: scope) rest
      (.binary .eq Resolution.idAtIndex (.name "debugId")) t =
      some ([.boolean (v = .text (host.debugId o))], t) :=
    evalMany_binary (evalMany_idAtIndex hp' ht hi hv) hid'.evalMany rfl
  by_cases hfound : v = .text (host.debugId o)
  · rw [decide_eq_true hfound] at hcondition
    have hkey : evalMany host (("i", a) :: scope) rest (.name "i") t =
        some ([.number (k + 1 : Nat)], t) := by rw [evalMany_name, hi]
    have ht₁ := ht.setEntry hlt (.object o)
    have hdifference : evalMany host (("i", a) :: scope) rest
        (.binary .sub Resolution.remaining (.ofNat 1))
        (t.setIndex p.table (.number (k + 1 : Nat)) (.object o)) = some ([.number (m - 1)], _) :=
      evalMany_binary (evalMany_remaining hp' ht₁) (evalMany_ofNat 1 (by decide +kernel)) rfl
    refine ⟨_, _, execAll_singleton (exec_ifThen_of_true hcondition ((execAll_cons
      (exec_assignIndex (evalMany_ids hp' ht) hkey ho'.evalMany)).trans (execAll_singleton
        (exec_assignName hp'.remaining hdifference)))), ?_,
      (Store.keeps_setIndex _ _ _ _ _).trans (Store.keeps_setCell _ _ _ _)⟩
    rw [Host.visited, if_pos hfound, foundBy, if_pos hfound]
    exact ht₁.setRemaining (m - 1)
  · rw [decide_eq_false hfound] at hcondition
    refine ⟨_, _, execAll_singleton (exec_ifThen_of_false hcondition), ?_, Store.Keeps.refl _ _ _⟩
    rwa [Host.visited, if_neg hfound, foundBy, if_neg hfound, Int.add_zero, set_of_getElem? hv]

theorem call_visit {b : Nat} (hb : s.closures b = some ⟨[.name "instance"], visitBody, scope⟩)
    (hp : p.Seen scope) (h : p.Holds vs m s) (o : Object) :
    ∃ s', call host (.closure b) [.object o] s = some ([], s') ∧
      p.Holds (vs.map (host.visited o)) (m + (vs.map (foundBy host o)).sum) s' ∧
      s.Keeps p.remaining p.table s' := by
  have h₁ : p.Holds vs m (s.newCell (.object o)) := h.keep (Store.keeps_newCell _ _ _ _)
  have ho := h.hasLocal_newCell scope "instance" (.object o)
  have hid : exec host (("instance", s.nextCell) :: scope) [] (.localName "debugId"
      (.methodCall (.name "instance") "GetDebugId" [])) (s.newCell (.object o)) = _ :=
    exec_localName "debugId" (evalMany_methodCall ho.evalMany evalAll_nil rfl)
  have hp₂ := (hp.cons s.nextCell (by decide : "instance" ∉ _)).cons (s.newCell (.object o)).nextCell
    (by decide : "debugId" ∉ _)
  have hk₂ := Store.keeps_newCell p.remaining p.table (s.newCell (.object o))
    (.text (host.debugId o))
  obtain ⟨s', hloop, h', hkeep⟩ := exec_forEachIndex hp₂ (h₁.keep (Store.keeps_newCell _ _ _ _))
    (changes_visit hp₂ (h₁.hasLocal_newCell _ "debugId" (.text (host.debugId o)))
      ((ho.keep hk₂).cons _ (by decide : "instance" ≠ "debugId")))
  refine ⟨s', call_closure hb rfl ((execAll_cons hid).trans (execAll_singleton hloop))
    (Or.inr ⟨rfl, rfl⟩), h', ?_⟩
  exact (Store.keeps_newCell _ _ _ _).trans (hk₂.trans hkeep)

theorem count_visited (host : Host Object) (o : Object) (vs : List (Value Object)) :
    (vs.countP Value.isText : Int) + (vs.map (foundBy host o)).sum =
      (vs.map (host.visited o)).countP Value.isText := by
  induction vs with
  | nil => rfl
  | cons v rest ih =>
    have hv : ((if v.isText then 1 else 0 : Nat) : Int) + foundBy host o v =
        (if (host.visited o v).isText then 1 else 0 : Nat) := by
      by_cases hfound : v = .text (host.debugId o)
      · simp [foundBy, Host.visited, hfound, Value.isText]
      · simp [foundBy, Host.visited, hfound]
    simp only [List.map_cons, List.sum_cons, List.countP_cons, Int.natCast_add]
    omega

theorem Reached.visit (h : p.Reached host args seen s) (hvisit : p.CanVisit scope s) {o : Object}
    (ho : p.HasLocal scope s "instance" (.object o)) :
    ∃ s', exec host scope rest (.call (.call (.name "visit") [.name "instance"])) s =
        some (.next, scope, s') ∧ p.Reached host args (seen ++ [o]) s' ∧
      s.Keeps p.remaining p.table s' := by
  obtain ⟨b, inner, hb, -, hc, hp⟩ := hvisit
  obtain ⟨s', hcall, h', hkeep⟩ := call_visit hc hp h o
  refine ⟨s', exec_call (evalMany_call (by simp) hb.evalMany
    ((evalAll_singleton _).trans ho.evalMany) hcall), ?_, hkeep⟩
  have hmap : (args.map (host.resolvedBy seen)).map (host.visited o) =
      args.map (host.resolvedBy (seen ++ [o])) := by
    rw [List.map_map]
    exact List.map_congr_left fun a _ => host.visited_resolvedBy seen o a
  rwa [count_visited, hmap] at h'

/-- The body of the loop over the objects of a list. -/
def visitEachBody : List Stat :=
  [.ifThen (.binary .eq Resolution.remaining (.ofNat 0)) [.breakLoop],
    .call (.call (.name "visit") [.name "instance"])]

/-- A round of the loop visits its object, or ends the loop because nothing can change any more. -/
theorem execAll_visitEachBody (hp : p.Seen scope) (h : p.Reached host args seen s)
    (hvisit : p.CanVisit scope s) {o : Object} (ho : p.HasLocal scope s "instance" (.object o)) :
    (execAll host scope rest visitEachBody s = some (.broke, scope, s) ∧
      ∀ more, p.Reached host args (seen ++ more) s) ∨
    ∃ s', execAll host scope rest visitEachBody s = some (.next, scope, s') ∧
      p.Reached host args (seen ++ [o]) s' ∧ s.Keeps p.remaining p.table s' := by
  have hcondition : evalMany host scope rest (.binary .eq Resolution.remaining (.ofNat 0)) s =
      some ([.boolean ((.number _ : Value Object) = .number 0)], s) :=
    evalMany_binary (evalMany_remaining hp h) (evalMany_ofNat 0 (by decide +kernel)) rfl
  by_cases hnone : (args.map (host.resolvedBy seen)).countP Value.isText = 0
  · rw [decide_eq_true (by rw [hnone]; rfl)] at hcondition
    exact Or.inl ⟨execAll_cons_broke (exec_ifThen_of_true hcondition
      (execAll_cons_broke exec_breakLoop)), h.append hnone⟩
  · rw [decide_eq_false (by simpa using hnone)] at hcondition
    obtain ⟨s', hrun, h', hkeep⟩ := h.visit hvisit ho
    exact Or.inr ⟨s', (execAll_cons (exec_ifThen_of_false hcondition)).trans
      (execAll_singleton hrun), h', hkeep⟩

/-- **The loop over the objects of a list**, from any of them on. -/
theorem loopEach_visit (hp : p.Seen scope) {x : Nat} : ∀ (todo done seen : List Object)
    {s : Store Object}, p.Reached host args (seen ++ done) s → p.CanVisit scope s →
    s.tables x = listContents ((done ++ todo).map .object) → x < s.nextTable → x ≠ p.table →
    ∃ s', loopEach host scope rest ["_", "instance"] visitEachBody (.builtin .ipairsNext) (.table x)
        (.number done.length) s = some (.next, s') ∧
      p.Reached host args (seen ++ done ++ todo) s' ∧ s.Keeps p.remaining p.table s'
  | [], done, seen, s, h, _, hx, _, _ => by
    have hend : s.tables x (.number (done.length + 1)) = .nil := by
      rw [hx, listContents_number]; simp
    have hcall : call host (.builtin .ipairsNext) [.table x, .number done.length] s =
        some ([.nil], s) := by
      rw [call_builtin, Host.callBuiltin.eq_def]
      dsimp only
      rw [hend, if_pos rfl]
    exact ⟨s, loopEach_of_nil hcall, by simpa using h, Store.Keeps.refl _ _ _⟩
  | o :: todo, done, seen, s, h, hvisit, hx, hlt, hne => by
    have hentry : s.tables x (.number (done.length + 1)) = .object o := by
      rw [hx, listContents_number]; simp
    have hcall : call host (.builtin .ipairsNext) [.table x, .number done.length] s =
        some ([.number (done.length + 1), .object o], s) := by
      rw [call_builtin, Host.callBuiltin.eq_def]
      dsimp only
      rw [hentry, if_neg nofun]
    -- the body runs with two more locals
    have h₁ := h.keep (Store.keeps_newCell _ _ s (.number (done.length + 1)))
    have ho := h₁.hasLocal_newCell (("_", s.nextCell) :: scope) "instance" (.object o)
    have hk₂ := (Store.keeps_newCell p.remaining p.table s (.number (done.length + 1))).trans
      (Store.keeps_newCell _ _ _ (.object o))
    have hp₂ := (hp.cons s.nextCell (by decide : "_" ∉ _)).cons (s.nextCell + 1)
      (by decide : "instance" ∉ _)
    have hvisit₂ := ((hvisit.keep hk₂).cons s.nextCell (by decide : "visit" ≠ "_")).cons
      (s.nextCell + 1) (by decide : "visit" ≠ "instance")
    rcases execAll_visitEachBody hp₂ (h₁.keep (Store.keeps_newCell _ _ _ _)) hvisit₂ ho with
      ⟨hrun, hall⟩ | ⟨s₃, hrun, h₃, hk₃⟩
    · exact ⟨_, loopEach_of_broke hcall nofun hrun, hall (o :: todo), hk₂⟩
    · have hk := hk₂.trans hk₃
      have hx₃ : s₃.tables x = listContents ((done ++ [o] ++ todo).map .object) := by
        rw [hk.tables x hlt hne, hx, List.append_assoc]; rfl
      rw [List.append_assoc] at h₃
      obtain ⟨s', hloop, h', hk'⟩ := loopEach_visit hp todo (done ++ [o]) seen h₃ (hvisit.keep hk)
        hx₃ (Nat.lt_of_lt_of_le hlt hk.nextTable) hne
      rw [List.length_append] at hloop
      have hnext : loopEach host scope rest ["_", "instance"] visitEachBody (.builtin .ipairsNext)
          (.table x) (.number done.length) s = _ := loopEach_of_next hcall nofun hrun
      exact ⟨s', hnext.trans hloop, by simpa using h', hk.trans hk'⟩

/-- **All objects of a list are visited**, as far as that changes anything. -/
theorem exec_visitEach (hp : p.Seen scope) (h : p.Reached host args seen s)
    (hvisit : p.CanVisit scope s) {e : Expr} {objects : List Object}
    (he : evalMany host scope rest e s =
      some ([.table s.nextTable], s.newTable (listContents (objects.map .object)))) :
    ∃ s', exec host scope rest (Resolution.visitEach e) s = some (.next, scope, s') ∧
      p.Reached host args (seen ++ objects) s' ∧ s.Keeps p.remaining p.table s' := by
  have hk₁ := Store.keeps_newTable p.remaining p.table s (listContents (objects.map .object))
  have hipairs : evalMany host scope rest (.call (.name "ipairs") [e]) s =
      some ([.builtin .ipairsNext, .table s.nextTable, .number 0], _) :=
    evalMany_call (by simp) (evalMany_name "ipairs") ((evalAll_singleton e).trans he) (by
      rw [hp.lookup (by decide)]; exact call_builtin .ipairs)
  have h₁ : p.Reached host args (seen ++ []) (s.newTable (listContents (objects.map .object))) := by
    rw [List.append_nil]
    exact h.keep (Store.keeps_newTable _ _ _ _)
  obtain ⟨s', hloop, h', hk'⟩ := loopEach_visit hp objects [] seen h₁ (hvisit.keep hk₁)
    (Store.tables_newTable s _) (Nat.lt_succ_self _) (Nat.ne_of_gt h.table_lt)
  exact ⟨s', exec_forEach hipairs hloop, by simpa using h', hk₁.trans hk'⟩

theorem evalMany_nilInstances (hp : p.Seen scope) :
    evalMany host scope rest (.call (.name "getnilinstances") []) s =
      some ([.table s.nextTable], s.newTable (listContents (host.nilInstances.map .object))) :=
  evalMany_call (by simp) (evalMany_name _) evalAll_nil (by
    rw [hp.lookup (by decide)]; exact call_builtin .nilInstances)

theorem evalMany_weakDescendants (hp : p.Seen scope) :
    evalMany host scope rest (.call (.name "getweakdescendants") [.name "game"]) s =
      some ([.table s.nextTable], s.newTable (listContents (host.descendants.map .object))) := by
  refine evalMany_call (by simp) (evalMany_name _)
    ((evalAll_singleton _).trans (evalMany_name "game")) ?_
  rw [hp.lookup (by decide), hp.lookup (by decide)]
  exact (call_builtin .weakDescendants).trans (if_pos rfl)

/-- The function that visits an object is declared. -/
theorem exec_visitFunction (host : Host Object) (rest : List (Value Object)) (hp : p.Seen scope)
    (h : p.Holds vs m s) :
    ∃ s', exec host scope rest Resolution.visitFunction s =
        some (.next, ("visit", s.nextCell) :: scope, s') ∧ p.Holds vs m s' ∧
      p.CanVisit (("visit", s.nextCell) :: scope) s' := by
  refine ⟨_, exec_function "visit" [.name "instance"] visitBody,
    h.keep ((Store.keeps_newCell _ _ _ _).trans (Store.keeps_newClosure _ _ _ _)), ?_⟩
  have hvisit := (h.hasLocal_newCell scope "visit" (.closure s.nextClosure)).keep
    (Store.keeps_newClosure _ _ _ ⟨[.name "instance"], visitBody, ("visit", s.nextCell) :: scope⟩)
  exact ⟨s.nextClosure, _, hvisit, Nat.lt_succ_self _, Store.closures_newClosure _ _,
    hp.cons _ (by decide : "visit" ∉ _)⟩

/-- The function returns what is in the table. -/
theorem evalAll_unpack (hp : p.Seen scope) (h : p.Holds vs m s) :
    evalAll host scope rest [.call (.member (.name "table") .dot "unpack")
      [Resolution.ids, .ofNat 1, Resolution.idCount]] s = some (vs, s) := by
  have hentries : (List.range vs.length).map
      (fun k : Nat => s.tables p.table (.number (1 + k))) = vs := by
    refine List.ext_getElem (by simp) fun k _ hk => ?_
    rw [List.getElem_map, List.getElem_range, Int.add_comm]
    exact h.entries k vs[k] (List.getElem?_eq_getElem hk)
  have hsize : ((vs.length : Int) - 1 + 1).toNat = vs.length := by omega
  have harguments : evalAll host scope rest [Resolution.ids, .ofNat 1, Resolution.idCount] s =
      some ([.table p.table, .number (1 : Nat), .number vs.length], s) :=
    evalAll_cons (evalMany_ids hp h) (evalAll_cons (evalMany_ofNat 1 (by decide +kernel))
      ((evalAll_singleton _).trans (evalMany_idCount hp h)))
  rw [evalAll_singleton]
  refine evalMany_call (by simp) (evalMany_member (evalMany_name "table") ?_) harguments
    (v := .builtin .tableUnpack) ?_
  · rw [hp.lookup (by decide)]; rfl
  · rw [call_builtin, Host.callBuiltin.eq_def]
    dsimp only
    rw [Int.natCast_one, hsize, hentries]

/-! ## The function -/

/-- The variables are declared: the table with the arguments, and the count. -/
theorem execAll_body (host : Host Object) {outer : Scope}
    (houter : ∀ n ∈ hostNames, outer.lookup n = none) (vs : List (Value Object))
    (s : Store Object) : ∃ s', (Place.new s).Holds vs 0 s' ∧
      execAll host outer vs Resolution.body s =
        execAll host ((Place.new s).scopeIn outer) vs (Resolution.body.drop 2) s' := by
  have hpack : evalMany host outer vs (.call (.member (.name "table") .dot "pack") [.vararg]) s =
      some ([.table s.nextTable],
        s.newTable (Function.update (listContents vs) (.text "n") (.number vs.length))) := by
    refine evalMany_call (by simp) (evalMany_member (evalMany_name "table") ?_)
      ((evalAll_singleton _).trans evalMany_vararg) (call_builtin .tablePack)
    rw [Host.lookup, houter "table" (by decide)]; rfl
  refine ⟨_, ?_, (execAll_cons (exec_localName "ids" hpack)).trans (execAll_cons
    (exec_localName "remaining" (evalMany_ofNat 0 (by decide +kernel))))⟩
  constructor
  case entries =>
    intro k v hv
    simp [Place.new, Store.newCell, Store.newTable, listContents_number, hv]
  all_goals simp [Place.new, Store.newCell, Store.newTable]

end Place

section
variable [DecidableEq Object]

/-- **The function resolves its arguments**, whatever the host has, and in whatever store it is
    called. -/
theorem call_function (host : Host Object) {b : Nat} {outer : Scope} {s : Store Object}
    (hb : s.closures b = some ⟨[.vararg], Resolution.body, outer⟩)
    (houter : ∀ n ∈ hostNames, outer.lookup n = none) (args : List (String ⊕ Object)) :
    ∃ s', call host (.closure b) (args.map argument) s = some (args.map host.resolved, s') := by
  have hp := (Place.new s).seen_scopeIn houter
  obtain ⟨s₂, h₂, hbody⟩ := Place.execAll_body host houter (args.map argument) s
  obtain ⟨s₃, hcount, h₃, -⟩ := Place.exec_countPending host (args.map argument) hp h₂
  have hp₄ := hp.cons s₃.nextCell (by decide : "visit" ∉ _)
  obtain ⟨s₄, hfunction, h₄, hvisit⟩ :=
    Place.exec_visitFunction host (args.map argument) hp h₃
  have h₄ : (Place.new s).Reached host args [] s₄ := by
    rwa [Place.Reached, host.resolvedBy_nil]
  obtain ⟨s₅, hfirst, h₅, hk₅⟩ :=
    Place.exec_visitEach hp₄ h₄ hvisit (Place.evalMany_nilInstances hp₄)
  obtain ⟨s₆, hsecond, h₆, -⟩ :=
    Place.exec_visitEach hp₄ h₅ (hvisit.keep hk₅) (Place.evalMany_weakDescendants hp₄)
  obtain ⟨m, s₇, hmark, h₇⟩ := Place.exec_markPending host (args.map argument) hp₄ h₆
  have hresolved : ((args.map (host.resolvedBy ([] ++ host.nilInstances ++ host.descendants))).map
      marked) = args.map host.resolved := by
    rw [List.map_map, List.nil_append]
    exact List.map_congr_left fun a _ => host.marked_resolvedBy a
  rw [hresolved] at h₇
  refine ⟨s₇, call_closure hb rfl (hbody.trans ((execAll_cons hcount).trans
    ((execAll_cons hfunction).trans ((execAll_cons hfirst).trans ((execAll_cons hsecond).trans
      ((execAll_cons hmark).trans (execAll_cons_returned
        (exec_ret (Place.evalAll_unpack hp₄ h₇))))))))) (Or.inl rfl)⟩

theorem exec_resolutionFunction (host : Host Object) :
    ∃ s, exec host [] [] Resolution.function {} =
        some (.next, [(Resolution.functionName, 0)], s) ∧
      host.lookup [(Resolution.functionName, 0)] s Resolution.functionName = .closure 0 ∧
      ∀ args : List (String ⊕ Object), ∃ s',
        call host (.closure 0) (args.map argument) s = some (args.map host.resolved, s') := by
  refine ⟨_, exec_function Resolution.functionName [.vararg] Resolution.body, ?_, fun args => ?_⟩
  · simp [Host.lookup, Store.newCell, Store.newClosure]
  · have hfree : ∀ n ∈ hostNames, List.lookup n [(Resolution.functionName, 0)] = none := by decide
    have hclosure := Store.closures_newClosure (({} : Store Object).newCell (.closure 0))
      ⟨[.vararg], Resolution.body, [(Resolution.functionName, 0)]⟩
    exact call_function host hclosure hfree args

/-- **Debug ids are resolved.**  Once the function of a snippet is declared, its results for debug ids
    and objects, however many, are what each of them resolves to; and after the statement that binds
    handles, each of them stands for what its own debug id resolves to. -/
theorem debugIds_resolved (host : Host Object) :
    (∀ args : List (String ⊕ Object), ∃ scope s s',
      execAll host [] [] [Resolution.function] {} = some (.next, scope, s) ∧
      call host (host.lookup scope s Resolution.functionName) (args.map argument) s =
        some (args.map host.resolved, s')) ∧
    ∀ h : Handles, ∃ scope s,
      execAll host [] [] [Resolution.function, Resolution.bind h] {} = some (.next, scope, s) ∧
      ∀ entry ∈ h.entries, ∃ a, scope.lookup entry.1 = some a ∧
        s.cells a = host.resolved (.inl entry.2.debugId) := by
  obtain ⟨s, hdeclare, hname, hcall⟩ := exec_resolutionFunction host
  constructor
  · intro args
    obtain ⟨s', hresults⟩ := hcall args
    exact ⟨_, s, s', execAll_singleton hdeclare, by rw [hname]; exact hresults⟩
  · intro h
    obtain ⟨s', hresults⟩ := hcall (h.debugIds.map .inl)
    have hids : (h.debugIds.map .inl).map (argument : _ → Value Object) = h.debugIds.map .text :=
      List.map_map
    rw [hids] at hresults
    have hvalues : evalAll host [(Resolution.functionName, 0)] []
        [.call (.name Resolution.functionName) (h.debugIds.map .ofText)] s =
          some ((h.debugIds.map .inl).map host.resolved, s') := by
      rw [evalAll_singleton]
      refine evalMany_call (by simp) (evalMany_name _) (evalAll_ofText h.debugIds) ?_
      rw [hname]
      exact hresults
    refine ⟨_, _, (execAll_cons hdeclare).trans
      (execAll_singleton (exec_localNames h.names hvalues)), ?_⟩
    rintro ⟨name, i⟩ hmem
    obtain ⟨k, hk⟩ := List.getElem?_of_mem hmem
    refine Store.exists_cell_declare h.names_nodup (k := k) ?_ ?_
    · rw [Roster.names, List.getElem?_map, hk]; rfl
    · rw [Handles.debugIds, Roster.values, List.getElem?_map, List.getElem?_map, List.getElem?_map,
        List.getElem?_map, hk]; rfl

end

/-- Here an object is listed twice, another one has the same debug id, and one id is nobody's. -/
theorem duplicate_debugIds_resolved :
    let host : Host Nat := ⟨0, [1, 1], [2, 3], fun o => if o = 3 then "B" else "A"⟩
    let args : List (String ⊕ Nat) := [.inl "A", .inl "C", .inr 2, .inl "B", .inl "A"]
    let h : Handles := ⟨[("x", ⟨⟨"B", "Part", "Part", .plain⟩, []⟩)], by simp⟩
    (∃ scope s s', execAll host [] [] [Resolution.function] {} = some (.next, scope, s) ∧
      call host (host.lookup scope s Resolution.functionName) (args.map argument) s =
        some ([.object 1, .text "nil -- Could not find instance with id: C", .object 2, .object 3,
          .object 1], s')) ∧
    ∃ scope s a, execAll host [] [] [Resolution.function, Resolution.bind h] {} =
        some (.next, scope, s) ∧ scope.lookup "x" = some a ∧ s.cells a = .object 3 := by
  intro host args h
  obtain ⟨hcall, hbind⟩ := debugIds_resolved host
  have hargs : args.map host.resolved = [.object 1,
      .text "nil -- Could not find instance with id: C", .object 2, .object 3, .object 1] := by decide
  obtain ⟨scope, s, hrun, hentries⟩ := hbind h
  obtain ⟨a, ha, hv⟩ := hentries _ (List.mem_singleton_self _)
  exact ⟨hargs ▸ hcall args, scope, s, a, hrun, ha, hv⟩

end Reenact.Lua
