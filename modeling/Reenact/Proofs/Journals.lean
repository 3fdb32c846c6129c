/-
  A journal is the list of the calls that it kept.

  The calls that a journal keeps, one after another, are a list that begins anew when the journal is
  cleared.  The histories are this list taken apart: one for each debug id, in the order of its
  first call, with the remote and its kind as of that call (`Journal.Lists`).  Each act keeps that,
  so it holds after any acts, and whatever a journal answers can be read off the list.

  * `Journal.answers_from_kept`: all answers of a journal, from the calls kept and the filter;
  * `Journal.visible_calls`: a remote is shown or hidden by the kind of its first call, so a call of
    another kind on it is shown or hidden with that.
-/
import Mathlib.Data.List.Basic
import Reenact.Journal
import Reenact.Proofs.Handles

namespace Reenact

namespace Roster

variable {α : Type}

theorem values_eq_filterMap (r : Roster α) : r.values = r.names.filterMap r.get? := by
  have hget : ∀ e ∈ r.entries, r.get? e.1 = some e.2 := fun e he => get?_of_mem he
  rw [values, names, List.filterMap_map, List.filterMap_congr (g := fun e => some e.2) hget,
    List.filterMap_eq_map']

theorem isEmpty_iff_names (r : Roster α) : r.isEmpty = true ↔ r.names = [] := by
  rw [isEmpty, List.isEmpty_iff, names, List.map_eq_nil_iff]

end Roster

/-! ## Calls on one remote -/

/-- The calls on the remote with a debug id. -/
def callsOn (id : String) (calls : List Call) : List Call := calls.filter (·.remote.debugId = id)

/-- The debug ids of the remotes that were called, each where it comes first. -/
def remoteIds (calls : List Call) : List String := (calls.map (·.remote.debugId)).eraseDups

/-- The history that consists of the given calls, if there are any. -/
def History.ofCalls? : List Call → Option History
  | [] => none
  | first :: rest => some ⟨first.remote, first.remoteKind, first :: rest⟩

/-- The histories that a list of calls is taken apart into. -/
def historiesOf (calls : List Call) : List History :=
  (remoteIds calls).filterMap fun id => History.ofCalls? (callsOn id calls)

/-- The first call on the remote that a call is on. -/
def firstOn? (calls : List Call) (c : Call) : Option Call := (callsOn c.remote.debugId calls).head?

/-- The kind of the first call on the same remote passes a filter. -/
def isShown (f : Filter) (calls : List Call) (c : Call) : Bool :=
  (firstOn? calls c).any (f.allows ·.remoteKind)

theorem exists_firstOn? {calls : List Call} {c : Call} (h : c ∈ calls) :
    ∃ first, firstOn? calls c = some first := by
  have hmem : c ∈ callsOn c.remote.debugId calls := List.mem_filter.2 ⟨h, by simp⟩
  cases hc : callsOn c.remote.debugId calls with
  | nil => rw [hc] at hmem; cases hmem
  | cons first rest => exact ⟨first, by rw [firstOn?, hc]; rfl⟩

theorem callsOn_concat_self (calls : List Call) (c : Call) :
    callsOn c.remote.debugId (calls ++ [c]) = callsOn c.remote.debugId calls ++ [c] := by
  simp [callsOn]

theorem callsOn_concat_of_ne {id : String} {c : Call} (h : id ≠ c.remote.debugId)
    (calls : List Call) : callsOn id (calls ++ [c]) = callsOn id calls := by
  simp [callsOn, Ne.symm h]

theorem History.ofCalls?_concat (calls : List Call) (c : Call) :
    ofCalls? (calls ++ [c]) = some (extend c (ofCalls? calls)) := by
  cases calls <;> rfl

theorem History.calls_ofCalls? (calls : List Call) :
    ((ofCalls? calls).map (·.calls)).getD [] = calls := by
  cases calls <;> rfl

theorem History.of_ofCalls? {calls : List Call} {h : History} (hh : ofCalls? calls = some h) :
    ∃ first, calls.head? = some first ∧ h = ⟨first.remote, first.remoteKind, calls⟩ := by
  cases calls with
  | nil => cases hh
  | cons first rest => cases hh; exact ⟨first, rfl, rfl⟩

/-- A call that is added to its history comes behind all others, up to the order of histories. -/
theorem flatMap_calls_alterEntries (id : String) (c : Call) : ∀ entries : List (String × History),
    (((Roster.alterEntries id (History.extend c) entries).map Prod.snd).flatMap (·.calls)).Perm
      ((entries.map Prod.snd).flatMap (·.calls) ++ [c])
  | [] => List.Perm.refl _
  | (n, h) :: rest => by
    rw [Roster.alterEntries]
    split
    · simp only [List.map_cons, List.flatMap_cons, History.extend, List.append_assoc]
      exact List.perm_append_comm.append_left h.calls
    · simp only [List.map_cons, List.flatMap_cons, List.append_assoc]
      exact (flatMap_calls_alterEntries id c rest).append_left h.calls

/-- Where all calls of a history are told by it, choosing histories is choosing calls. -/
theorem flatMap_filter_of_forall {p : History → Bool} {q : Call → Bool} :
    ∀ {hs : List History}, (∀ k ∈ hs, ∀ c ∈ k.calls, q c = p k) →
      (hs.filter p).flatMap (·.calls) = (hs.flatMap (·.calls)).filter q
  | [], _ => rfl
  | k :: rest, h => by
    have hk : ∀ c ∈ k.calls, q c = p k := h k List.mem_cons_self
    have hrest := flatMap_filter_of_forall fun m hm => h m (List.mem_cons_of_mem k hm)
    rw [List.flatMap_cons, List.filter_append, ← hrest]
    by_cases hp : p k = true
    · rw [List.filter_cons_of_pos hp, List.flatMap_cons,
        List.filter_eq_self.2 fun c hc => (hk c hc).trans hp]
    · have hnone : k.calls.filter q = [] :=
        List.filter_eq_nil_iff.2 fun c hc hq => hp ((hk c hc).symm.trans hq)
      rw [List.filter_cons_of_neg hp, hnone, List.nil_append]

namespace Journal

/-! ## Acts -/

/-- What can be done to a journal. -/
inductive Act where
  | record (c : Call)
  | setFilter (f : Filter)
  | clear

/-- The journal after an act. -/
def act (j : Journal) : Act → Journal
  | .record c => (j.record c).2
  | .setFilter f => j.setFilter f
  | .clear => j.clear

/-- The journal after acts, of which the first meets an empty one. -/
def run (f : Filter) (acts : List Act) : Journal := acts.foldl act { filter := f }

/-- The filter after an act. -/
def filterAfter (f : Filter) : Act → Filter
  | .setFilter f' => f'
  | _ => f

/-- The filter in force after acts: the last one that was set. -/
def filterInForce (f : Filter) (acts : List Act) : Filter := acts.foldl filterAfter f

/-- The calls kept after an act, where `calls` were kept before: a call comes on if the journal says
    that it was kept, and clearing drops all. -/
def keptAfter (j : Journal) (calls : List Call) : Act → List Call
  | .record c => if (j.record c).1 then calls ++ [c] else calls
  | .setFilter _ => calls
  | .clear => []

/-- The calls kept after acts. -/
def keptFrom (j : Journal) (calls : List Call) : List Act → List Call
  | [] => calls
  | a :: rest => keptFrom (j.act a) (j.keptAfter calls a) rest

/-- The calls that a journal kept since it was last cleared, in order. -/
def kept (f : Filter) (acts : List Act) : List Call := keptFrom { filter := f } [] acts

variable {j : Journal} {calls : List Call}

theorem keeps_iff {f : Filter} {c : Call} :
    keeps f c = true ↔ c.script.isSome = true ∧ f.allows c.remoteKind = true := by
  rw [keeps, Bool.and_eq_true, and_comm]

theorem record_of_keeps {c : Call} (h : keeps j.filter c = true) :
    j.record c =
      (true, { j with histories := j.histories.alter c.remote.debugId (History.extend c) }) :=
  if_pos h

theorem record_of_not_keeps {c : Call} (h : ¬ keeps j.filter c = true) : j.record c = (false, j) :=
  if_neg h

theorem filter_act (j : Journal) (a : Act) : (j.act a).filter = filterAfter j.filter a := by
  cases a with
  | record c =>
    by_cases h : keeps j.filter c = true
    · rw [act, record_of_keeps h]; rfl
    · rw [act, record_of_not_keeps h]; rfl
  | setFilter f => rfl
  | clear => rfl

theorem filter_run (f : Filter) (acts : List Act) : (run f acts).filter = filterInForce f acts := by
  have hall : ∀ j : Journal, (acts.foldl act j).filter = filterInForce j.filter acts := by
    induction acts with
    | nil => intro j; rfl
    | cons a rest ih =>
      intro j
      rw [List.foldl_cons, ih, filter_act]; rfl
  exact hall _

/-! ## Histories of a list of calls -/

/-- The histories of a journal are those of a list of calls. -/
structure Lists (j : Journal) (calls : List Call) : Prop where
  names : j.histories.names = remoteIds calls
  history : ∀ id, j.histories.get? id = History.ofCalls? (callsOn id calls)
  /-- Each call stands in one history, once. -/
  perm : (j.histories.values.flatMap (·.calls)).Perm calls

theorem lists_empty (f : Filter) : Lists { filter := f } [] :=
  ⟨rfl, fun _ => rfl, List.Perm.refl _⟩

theorem Lists.record (h : j.Lists calls) (c : Call) :
    Lists { j with histories := j.histories.alter c.remote.debugId (History.extend c) }
      (calls ++ [c]) := by
  refine ⟨?_, fun id => ?_, ?_⟩
  · rw [remoteIds, List.map_append]
    exact Roster.names_alter_of_eraseDups h.names _ _
  · rw [Roster.get?_alter, h.history, h.history]
    by_cases hid : id = c.remote.debugId
    · subst hid
      rw [if_pos rfl, callsOn_concat_self, History.ofCalls?_concat]
    · rw [if_neg hid, callsOn_concat_of_ne hid]
  · exact (flatMap_calls_alterEntries _ c j.histories.entries).trans (h.perm.append_right [c])

/-- **Every act keeps the histories those of the list.** -/
theorem Lists.act (h : j.Lists calls) (a : Act) : (j.act a).Lists (j.keptAfter calls a) := by
  cases a with
  | record c =>
    by_cases hk : keeps j.filter c = true
    · rw [Journal.act, keptAfter, record_of_keeps hk]
      exact h.record c
    · rw [Journal.act, keptAfter, record_of_not_keeps hk]
      exact h
  | setFilter f => exact ⟨h.names, h.history, h.perm⟩
  | clear => exact ⟨rfl, fun _ => rfl, List.Perm.refl _⟩

theorem Lists.acts (acts : List Act) :
    ∀ {j : Journal} {calls : List Call}, j.Lists calls →
      (acts.foldl Journal.act j).Lists (keptFrom j calls acts) := by
  induction acts with
  | nil => exact fun h => h
  | cons a rest ih => exact fun h => ih (h.act a)

theorem run_lists (f : Filter) (acts : List Act) : (run f acts).Lists (kept f acts) :=
  (lists_empty f).acts acts

/-! ## Answers -/

namespace Lists

theorem values (h : j.Lists calls) :
    j.histories.values = historiesOf calls := by
  rw [historiesOf, Roster.values_eq_filterMap, h.names, funext h.history]

theorem callsFor (h : j.Lists calls) (id : String) : j.callsFor id = callsOn id calls := by
  rw [Journal.callsFor, h.history, History.calls_ofCalls?]

theorem isEmpty (h : j.Lists calls) : j.isEmpty = true ↔ calls = [] := by
  rw [Journal.isEmpty, Roster.isEmpty_iff_names, h.names]
  cases calls with
  | nil => simp [remoteIds]
  | cons c rest => simp [remoteIds, List.eraseDups_cons]

theorem size (h : j.Lists calls) : j.size = calls.length := by
  have hsum : ∀ (hs : List History) (n : Nat),
      hs.foldl (fun n h => n + h.calls.length) n = n + (hs.flatMap (·.calls)).length := by
    intro hs
    induction hs with
    | nil => intro n; rfl
    | cons h rest ih =>
      intro n
      rw [List.foldl_cons, ih, List.flatMap_cons, List.length_append, Nat.add_assoc]
  rw [Journal.size, hsum, h.perm.length_eq, Nat.zero_add]

/-- The calls in a history are on one remote, and the history has the kind of the first of them. -/
theorem firstOn?_of_mem (h : j.Lists calls) {k : History} (hk : k ∈ j.histories.values) {c : Call}
    (hc : c ∈ k.calls) : ∃ first, firstOn? calls c = some first ∧ k.kind = first.remoteKind := by
  rw [h.values, historiesOf, List.mem_filterMap] at hk
  obtain ⟨id, -, hk⟩ := hk
  obtain ⟨first, hfirst, rfl⟩ := History.of_ofCalls? hk
  obtain ⟨-, hid⟩ := List.mem_filter.1 hc
  rw [← of_decide_eq_true hid] at hfirst
  exact ⟨first, hfirst, rfl⟩

theorem visible_perm (h : j.Lists calls) :
    (j.visible.flatMap (·.calls)).Perm (calls.filter (isShown j.filter calls)) := by
  have hshown : ∀ k ∈ j.histories.values, ∀ c ∈ k.calls,
      isShown j.filter calls c = j.filter.allows k.kind := by
    intro k hk c hc
    obtain ⟨first, hfirst, hkind⟩ := h.firstOn?_of_mem hk hc
    rw [isShown, hfirst, hkind, Option.any_some]
  rw [visible, flatMap_filter_of_forall hshown]
  exact h.perm.filter _

end Lists

/-- **A journal answers from the calls that it kept.**  After any acts, a call is kept exactly if it
    has a script and its kind passes the filter in force, and changes nothing else; and what the
    journal holds and shows is the list of the kept calls taken apart by remotes, in the order of
    the first call on each. -/
theorem answers_from_kept (f : Filter) (acts : List Act) :
    (∀ c, ((run f acts).record c).1 = true ↔
        c.script.isSome = true ∧ (filterInForce f acts).allows c.remoteKind = true) ∧
      (∀ c, ((run f acts).record c).1 = false → ((run f acts).record c).2 = run f acts) ∧
      (∀ id, (run f acts).callsFor id = callsOn id (kept f acts)) ∧
      (run f acts).size = (kept f acts).length ∧
      ((run f acts).isEmpty = true ↔ kept f acts = []) ∧
      (run f acts).histories.names = remoteIds (kept f acts) ∧
      (run f acts).histories.values = historiesOf (kept f acts) ∧
      (run f acts).visible =
        (historiesOf (kept f acts)).filter ((filterInForce f acts).allows ·.kind) := by
  have h : (run f acts).Lists (kept f acts) := run_lists f acts
  refine ⟨fun c => ?_, fun c hc => ?_, h.callsFor, h.size, h.isEmpty, h.names, h.values, ?_⟩
  · rw [← keeps_iff, ← filter_run]
    by_cases hk : keeps (run f acts).filter c = true
    · simp [record_of_keeps hk, hk]
    · simp [record_of_not_keeps hk, hk]
  · by_cases hk : keeps (run f acts).filter c = true
    · rw [record_of_keeps hk] at hc
      cases hc
    · rw [record_of_not_keeps hk]
  · rw [visible, h.values, filter_run]

/-- **A call is shown with the first on its remote.**  The calls in the visible histories are those
    kept calls, each once, for which the kind of the first call on the same remote passes the filter.
    They are the ones whose own kind passes exactly if that makes no difference to any of them. -/
theorem visible_calls (f : Filter) (acts : List Act) :
    ((run f acts).visible.flatMap (·.calls)).Perm
        ((kept f acts).filter (isShown (filterInForce f acts) (kept f acts))) ∧
      ((∀ c, c ∈ (run f acts).visible.flatMap (·.calls) ↔
          c ∈ kept f acts ∧ (filterInForce f acts).allows c.remoteKind = true) ↔
        ∀ c ∈ kept f acts, ∀ first, firstOn? (kept f acts) c = some first →
          (filterInForce f acts).allows c.remoteKind =
            (filterInForce f acts).allows first.remoteKind) := by
  have hperm := (run_lists f acts).visible_perm
  rw [filter_run] at hperm
  have hmem : ∀ c, c ∈ (run f acts).visible.flatMap (·.calls) ↔ c ∈ kept f acts ∧
      isShown (filterInForce f acts) (kept f acts) c = true := by
    intro c
    rw [hperm.mem_iff, List.mem_filter]
  refine ⟨hperm, ?_⟩
  simp only [hmem]
  constructor
  · intro hown c hc first hfirst
    have hiff := hown c
    simp only [hc, true_and, isShown, hfirst, Option.any_some] at hiff
    exact Bool.eq_iff_iff.2 hiff.symm
  · intro hsame c
    refine and_congr_right fun hc => ?_
    obtain ⟨first, hfirst⟩ := exists_firstOn? hc
    rw [isShown, hfirst, Option.any_some, hsame c hc first hfirst]

/-- Here a call on a remote event is followed by one of another kind on the same remote.  With the
    default filter the second is shown, though its kind does not pass; with a filter that only its
    kind passes it is hidden. -/
theorem kind_of_first_call_decides :
    let remote : Instance := ⟨⟨"1", "Remote", "RemoteEvent", .plain⟩, []⟩
    let script : Instance := ⟨⟨"s", "Client", "LocalScript", .plain⟩, []⟩
    let event : Call := ⟨some script, [], remote, .remoteEvent, none, .game⟩
    let bindable : Call := ⟨some script, [], remote, .bindableEvent, none, .game⟩
    let acts (f : Filter) : List Act := [.record event, .record bindable, .setFilter f]
    let shown (f : Filter) : List Call := (run .all (acts f)).visible.flatMap (·.calls)
    let onlyBindable : Filter := ⟨false, false, true, false⟩
    (∀ f, kept .all (acts f) = [event, bindable]) ∧
      shown {} = [event, bindable] ∧ ({} : Filter).allows bindable.remoteKind = false ∧
      shown onlyBindable = [] ∧ onlyBindable.allows bindable.remoteKind = true ∧
      ¬ ∀ (f : Filter) (c : Call),
        c ∈ shown f ↔ c ∈ kept .all (acts f) ∧ f.allows c.remoteKind = true := by
  intro remote script event bindable acts shown onlyBindable
  refine ⟨fun _ => rfl, rfl, rfl, rfl, rfl, fun hown => ?_⟩
  have hshown : bindable ∈ shown {} := List.mem_cons_of_mem event (List.mem_singleton_self bindable)
  have hpasses := ((hown {} bindable).1 hshown).2
  cases hpasses

end Journal

end Reenact
