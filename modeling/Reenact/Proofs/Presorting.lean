/-
  Sorting tables while they are written, and sorting them beforehand.

  Tables are sorted one by one, each when it is written, between the names and handles that are
  given out for what is in it.  All that an order of keys sees of a key that is a table is that it
  is one, so a table is put in the same order before and after the tables in its keys and values
  are (`Value.sortPairs_presortedPairs`), and every step of drafting comes at the same time.

  * `Value.presorted`: a value with every table in it sorted;
  * `sorted_as_presorted`: drafting it without sorting is drafting the value with sorting.
-/
import Reenact.Proofs.Drafting
import Reenact.Proofs.SortedTables

namespace Reenact

namespace Value

/-! ## Values with sorted tables -/

mutual

/-- The value with the pairs of every table in it sorted, at any depth, in keys and in values. -/
def presorted : Value → Value
  | .table pairs => .table (sortPairs (presortedPairs pairs))
  | v => v

/-- The pairs, in their order, with every table in them sorted. -/
def presortedPairs : List (Value × Value) → List (Value × Value)
  | [] => []
  | (k, v) :: rest => (k.presorted, v.presorted) :: presortedPairs rest

end

theorem presortedPairs_eq_map (pairs : List (Value × Value)) :
    presortedPairs pairs = pairs.map fun p => (p.1.presorted, p.2.presorted) := by
  induction pairs with
  | nil => rfl
  | cons p rest ih => simp only [presortedPairs, List.map_cons, ih]

/-- The order of keys sees nothing of what is in a table. -/
theorem place_presorted (k : Value) : k.presorted.place = k.place := by
  cases k <;> rfl

theorem compareKeys_presorted (a b : Value) :
    compareKeys a.presorted b.presorted = compareKeys a b := by
  rw [compareKeys_eq_cmp, compareKeys_eq_cmp, place_presorted, place_presorted]

/-- **A table is put in the same order before and after the tables in it are.** -/
theorem sortPairs_presortedPairs (pairs : List (Value × Value)) :
    sortPairs (presortedPairs pairs) = presortedPairs (sortPairs pairs) := by
  rw [presortedPairs_eq_map, presortedPairs_eq_map, sortPairs, sortPairs]
  refine (List.map_mergeSort fun p _ q _ => ?_).symm
  rw [compareKeys_presorted]

/-- Pairs in descending order are turned round, if no two have keys in one place. -/
theorem sortPairs_eq_reverse {pairs : List (Value × Value)}
    (hplaces : (pairs.reverse.map fun p => p.1.place).Nodup)
    (hsorted : pairs.reverse.Pairwise fun p q => (compareKeys p.1 q.1).isLE = true) :
    sortPairs pairs = pairs.reverse := by
  have hinj : ∀ p ∈ pairs.reverse, ∀ q ∈ pairs.reverse, p.1.place = q.1.place → p = q :=
    fun p hp q hq => List.inj_on_of_nodup_map hplaces hp hq
  rw [sortPairs_eq_of_perm pairs.reverse_perm.symm hinj]
  exact List.mergeSort_of_pairwise hsorted

end Value

/-! ## Drafting -/

/-- The scene without sorting. -/
def Scene.unsorted (scene : Scene) : Scene :=
  { scene with settings := { scene.settings with sortTableKeys := false } }

namespace Drafting

variable {scene : Scene} {position : Nat}

/-- What it takes to write the value with every table in it sorted. -/
def Form.presorted : Form → Form
  | .table pairs => .table (Value.sortPairs (Value.presortedPairs pairs))
  | form => form

theorem form_presorted (scene : Scene) (v : Value) :
    form scene.unsorted v.presorted = (form scene v).presorted := by
  cases v with
  | reference i =>
    show (if scene.settings.useInstanceIds then Form.handle i else .expr (.raw (scene.locate i))) =
      Form.presorted (if scene.settings.useInstanceIds then .handle i
        else .expr (.raw (scene.locate i)))
    split <;> rfl
  | _ => rfl

/-- A key is written in the same form, whatever is in it. -/
theorem keyForm_presorted (next : Nat) (k : Value) :
    keyForm next k.presorted = keyForm next k := by
  cases k <;> rfl

theorem nested_presorted {write write' : List (Value × Value) → Drafting Expr}
    (hw : ∀ pairs, write pairs = write' (Value.sortPairs (Value.presortedPairs pairs)))
    (v : Value) :
    nested scene position write v = nested scene.unsorted position write' v.presorted := by
  unfold nested
  rw [form_presorted]
  cases form scene v with
  | expr e => rfl
  | handle i => rfl
  | table pairs => simp only [Form.presorted, hw pairs]

theorem fields_presorted {value value' : Value → Drafting Expr}
    (hv : ∀ v, value v = value' v.presorted) :
    ∀ next pairs, fields value next pairs = fields value' next (Value.presortedPairs pairs)
  | _, [] => rfl
  | next, (k, v) :: rest => by
    rw [Value.presortedPairs, fields, fields, keyForm_presorted, hv k, hv v]
    simp only [fields_presorted hv _ rest]

/-- **A table is drafted as it is with every table in it sorted before.** -/
theorem table_presorted (hsort : scene.settings.sortTableKeys = true) :
    ∀ room pairs, table scene position room pairs =
      table scene.unsorted position room (Value.sortPairs (Value.presortedPairs pairs))
  | 0, _ => rfl
  | room + 1, pairs => by
    have hkept : ∀ pairs, ordered scene.unsorted pairs = pairs := fun _ => rfl
    rw [table_succ, table_succ, ordered_of_sort hsort, hkept, Value.sortPairs_presortedPairs,
      fields_presorted (nested_presorted (table_presorted hsort room))]

end Drafting

/-- **Sorting tables is drafting what is sorted already.**  With sorting on, an argument has the
    same outcome as the value with every table in it sorted has with sorting off, whether it is
    drafted or refused, and leaves the same draft: the same handles, locals and numbers. -/
theorem sorted_as_presorted {scene : Scene} (hsort : scene.settings.sortTableKeys = true)
    (position : Nat) (v : Value) (d : Draft) :
    d.argument scene position v = d.argument scene.unsorted position v.presorted := by
  have hname : LocalName.ofArgument v.presorted position = LocalName.ofArgument v position := by
    cases v <;> rfl
  have hsame : Drafting.argument scene position v =
      Drafting.argument scene.unsorted position v.presorted := by
    unfold Drafting.argument
    rw [Drafting.form_presorted, hname]
    cases Drafting.form scene v with
    | expr e => rfl
    | handle i => rfl
    | table pairs => simp only [Drafting.Form.presorted, Drafting.table_presorted hsort]
  rw [Draft.argument, Draft.argument, hsame]

/-- Tables are out of order in a key, in its value and around both; one key is nil. -/
theorem unordered_tables_as_presorted :
    let scene : Scene := ⟨{ sortTableKeys := true }, fun i => i.name⟩
    let one : Value := .number (Binary64.ofInt 1)
    let v : Value := .table
      [(.text "b", .table [(.text "z", .reference Instance.game), (.nil, one)]),
        (.table [(.boolean true, .table []), (one, .nil)], .reference Instance.game), (one, .nil)]
    let sorted : Value := .table [(one, .nil),
      (.table [(one, .nil), (.boolean true, .table [])], .reference Instance.game),
      (.text "b", .table [(.nil, one), (.text "z", .reference Instance.game)])]
    scene.settings.sortTableKeys = true ∧ v.presorted = sorted ∧
      ({} : Draft).argument scene 1 v = ({} : Draft).argument scene.unsorted 1 sorted := by
  intro scene one v sorted
  -- the pairs of every table stand in reverse
  have hempty : Value.sortPairs [] = [] := Value.sortPairs_eq_reverse .nil .nil
  have hkey := @Value.sortPairs_eq_reverse [(.boolean true, .table []), (one, .nil)]
    (by decide +kernel) (by decide +kernel)
  have hvalue := @Value.sortPairs_eq_reverse [(.text "z", .reference Instance.game), (.nil, one)]
    (by decide +kernel) (by decide +kernel)
  have hpairs := @Value.sortPairs_eq_reverse
    [(.text "b", .table [(.nil, one), (.text "z", .reference Instance.game)]),
      (.table [(one, .nil), (.boolean true, .table [])], .reference Instance.game), (one, .nil)]
    (by decide +kernel) (by decide +kernel)
  have hone : one.presorted = one := rfl
  have hpresorted : v.presorted = sorted := by
    simp only [v, Value.presorted, Value.presortedPairs, hone, hempty, hkey, hvalue]
    exact congrArg Value.table hpairs
  refine ⟨rfl, hpresorted, ?_⟩
  rw [← hpresorted]
  exact sorted_as_presorted rfl 1 v {}

end Reenact
