/-
  Which arguments are refused, and for what.

  An argument is refused for what is in its value and for nothing else: a step of drafting ends in
  the same way whatever the draft is (`Drafting.Ends`), and the order in which pairs are written has
  no say in whether one of them is refused, only in which of them is found first.

  * `Value.Offends`: a value has a table with a nil or a NaN for a key in it, or too many tables in
    one another;
  * `Value.firstOffence?`: what a walk through the value finds first;
  * `argument_refused_iff`: an argument is refused exactly if its value offends, and where tables
    are not sorted, for what is found first.
-/
import Mathlib.Logic.Relation
import Reenact.Proofs.Meaning

namespace Reenact

theorem findSome?_cons_or {α β : Type} (f : α → Option β) (a : α) (as : List α) :
    (a :: as).findSome? f = (f a).or (as.findSome? f) := by
  rw [List.findSome?_cons]
  cases f a <;> rfl

/-! ## What is wrong with a value -/

namespace Value

/-- What is wrong with a key. -/
def keyOffence? : Value → Option Malformed
  | .nil => some .nilKey
  | .number x => if x.isNaN then some .nanKey else none
  | _ => none

/-- A key or a value of a pair of the table. -/
inductive ItemOf : Value → Value → Prop where
  | key {pairs : List (Value × Value)} {k v : Value} (h : (k, v) ∈ pairs) : ItemOf k (.table pairs)
  | value {pairs : List (Value × Value)} {k v : Value} (h : (k, v) ∈ pairs) :
      ItemOf v (.table pairs)

/-- The value itself, or what is in it at any depth. -/
def Within : Value → Value → Prop := Relation.ReflTransGen ItemOf

/-- The value is the outermost of `n` tables, each of which is a key or a value of the one
    before. -/
inductive Nests : (n : Nat) → Value → Prop where
  | innermost (pairs : List (Value × Value)) : Nests 1 (.table pairs)
  | around {pairs : List (Value × Value)} {item : Value} {n : Nat}
      (h : item.ItemOf (.table pairs)) (hn : Nests n item) : Nests (n + 1) (.table pairs)

/-- What is wrong with a value, where `limit` tables may be in one another. -/
inductive Offends (limit : Nat) (v : Value) : Malformed → Prop where
  | nilKey {pairs : List (Value × Value)} {w : Value} (ht : Within (.table pairs) v)
      (hp : (.nil, w) ∈ pairs) : Offends limit v .nilKey
  | nanKey {pairs : List (Value × Value)} {x : Binary64} {w : Value} (ht : Within (.table pairs) v)
      (hp : (.number x, w) ∈ pairs) (hx : x.isNaN = true) : Offends limit v .nanKey
  | tooDeep {t : Value} {n : Nat} (ht : Within t v) (hn : Nests n t) (h : limit < n) :
      Offends limit v .tooDeep

end Value

/-! ## A walk through a value -/

/-- What is met on a walk through a value. -/
inductive Stop where
  /-- A table is entered that is the `depth`-th of tables in one another -/
  | table (depth : Nat)
  /-- The key of a pair -/
  | key (k : Value)

/-- What is wrong where a walk stops. -/
def Stop.offence? (limit : Nat) : Stop → Option Malformed
  | .table depth => if limit < depth then some .tooDeep else none
  | .key k => k.keyOffence?

namespace Value

mutual

/-- A walk through a value: it stops at a table when it enters it. -/
def walk (depth : Nat) : Value → List Stop
  | .table pairs => .table depth :: walkPairs (depth + 1) pairs
  | _ => []

/-- A walk through the pairs of a table in their order: it stops at the key, then goes through the
    key and through the value.  In a key that is written as a position or a name there is nothing to
    stop at. -/
def walkPairs (depth : Nat) : List (Value × Value) → List Stop
  | [] => []
  | (k, v) :: rest => .key k :: (k.walk depth ++ (v.walk depth ++ walkPairs depth rest))

end

/-- What a walk through a value finds first. -/
def firstOffence? (limit : Nat) (v : Value) : Option Malformed :=
  (v.walk 1).findSome? (Stop.offence? limit)

/-! ## Offences and the items of a table -/

variable {limit : Nat} {v item : Value} {pairs : List (Value × Value)} {cause : Malformed}

theorem offends_of_key {k w : Value} (hp : (k, w) ∈ pairs) (h : k.keyOffence? = some cause) :
    (Value.table pairs).Offends limit cause := by
  cases k with
  | nil => cases h; exact .nilKey .refl hp
  | number x =>
    rw [keyOffence?] at h
    split at h
    · next hx => cases h; exact .nanKey .refl hp hx
    · cases h
  | _ => cases h

/-- What is wrong with an item is wrong with the table, which is one more around it. -/
theorem Offends.of_item (hitem : item.ItemOf v) (h : item.Offends limit cause) :
    v.Offends (limit + 1) cause := by
  cases h with
  | nilKey ht hp => exact .nilKey (ht.tail hitem) hp
  | nanKey ht hp hx => exact .nanKey (ht.tail hitem) hp hx
  | tooDeep ht hn h =>
    -- what holds the outermost of these tables is a table in the value, too
    obtain ⟨t', hmem, ht'⟩ := Relation.TransGen.head'_iff.1 (Relation.TransGen.tail' ht hitem)
    refine .tooDeep ht' (n := _ + 1) ?_ (Nat.succ_lt_succ h)
    cases hmem with
    | key hp => exact .around (.key hp) hn
    | value hp => exact .around (.value hp) hn

theorem Offends.cases_table (h : (Value.table pairs).Offends (limit + 1) cause) :
    (∃ k w, (k, w) ∈ pairs ∧ k.keyOffence? = some cause) ∨
      ∃ item : Value, item.ItemOf (.table pairs) ∧ item.Offends limit cause := by
  cases h with
  | nilKey ht hp =>
    rcases Relation.ReflTransGen.cases_tail ht with heq | ⟨item, hin, hitem⟩
    · cases heq; exact Or.inl ⟨_, _, hp, rfl⟩
    · exact Or.inr ⟨item, hitem, .nilKey hin hp⟩
  | nanKey ht hp hx =>
    rcases Relation.ReflTransGen.cases_tail ht with heq | ⟨item, hin, hitem⟩
    · cases heq; exact Or.inl ⟨_, _, hp, if_pos hx⟩
    · exact Or.inr ⟨item, hitem, .nanKey hin hp hx⟩
  | tooDeep ht hn h =>
    cases hn with
    | innermost => omega
    | around hmem hn =>
      obtain ⟨item, hin, hitem⟩ := Relation.TransGen.tail'_iff.1 (Relation.TransGen.head' hmem ht)
      exact Or.inr ⟨item, hitem, .tooDeep hin hn (Nat.lt_of_succ_lt_succ h)⟩

theorem Offends.eq_table (h : v.Offends limit cause) : ∃ pairs, v = .table pairs := by
  have hin : ∀ {t : Value} {ps}, t = .table ps → Within t v → ∃ pairs, v = .table pairs := by
    intro t ps ht h
    rcases Relation.ReflTransGen.cases_tail h with rfl | ⟨_, -, hitem⟩
    · exact ⟨ps, ht⟩
    · cases hitem <;> exact ⟨_, rfl⟩
  cases h with
  | nilKey ht | nanKey ht => exact hin rfl ht
  | tooDeep ht hn => cases hn <;> exact hin rfl ht

/-- What a walk through the pairs of a table finds first. -/
theorem walkPairs_findSome? (f : Stop → Option Malformed) (depth : Nat) :
    ∀ pairs, (walkPairs depth pairs).findSome? f =
      pairs.findSome? fun p =>
        (f (.key p.1)).or (((p.1.walk depth).findSome? f).or ((p.2.walk depth).findSome? f))
  | [] => rfl
  | (k, v) :: rest => by
    rw [walkPairs, findSome?_cons_or, List.findSome?_append, List.findSome?_append,
      walkPairs_findSome? f depth rest, findSome?_cons_or, Option.or_assoc, Option.or_assoc]

end Value

namespace Drafting

/-! ## Steps that end in the same way from every draft -/

section
variable {α β : Type} {m : Drafting α} {cause cause' : Option Malformed}

/-- The cause with which a step fails, if it does. -/
def cause? (m : Drafting α) (d : Draft) : Option Malformed :=
  match m.run d with
  | .ok _ _ => none
  | .error cause _ => some cause

/-- Whatever the draft is, the step fails with the given cause, or does not fail if there is
    none. -/
def Ends (m : Drafting α) (cause : Option Malformed) : Prop := ∀ d, cause? m d = cause

theorem Ends.pure (a : α) : Ends (pure a) none := fun _ => rfl

theorem Ends.throw (e : Malformed) : Ends (throw e : Drafting α) (some e) := fun _ => rfl

theorem Ends.bind {f : α → Drafting β} (hm : Ends m cause) (hf : ∀ a, Ends (f a) cause') :
    Ends (m >>= f) (cause.or cause') := by
  intro d
  have hd := hm d
  unfold cause? at hd ⊢
  cases hr : m.run d with
  | ok a d₁ =>
    rw [hr] at hd
    rw [run_bind_of_ok hr, ← hd, Option.none_or]
    exact hf a d₁
  | error e d₁ => rw [hr] at hd; rw [run_bind_of_error hr, ← hd, Option.some_or]

theorem Ends.map (f : α → β) (hm : Ends m cause) : Ends (f <$> m) cause := by
  have h := hm.bind fun a => Ends.pure (f a)
  rwa [Option.or_none] at h

end

/-! ## Tables -/

/-- What is found first in a pair, where `cause` says what is found in a value. -/
def pairCause (cause : Value → Option Malformed) (p : Value × Value) : Option Malformed :=
  p.1.keyOffence?.or ((cause p.1).or (cause p.2))

/-- What is found first in a value that only tables can be refused for. -/
def ofTable (cause : List (Value × Value) → Option Malformed) : Value → Option Malformed
  | .table pairs => cause pairs
  | _ => none

/-- What is found first where the pairs of each table come in the order in which they are written.
    `room` is how many nested tables are still followed. -/
def tableCause (scene : Scene) : (room : Nat) → List (Value × Value) → Option Malformed
  | 0, _ => some .tooDeep
  | room + 1, pairs => (ordered scene pairs).findSome? (pairCause (ofTable (tableCause scene room)))

section
variable {scene : Scene} {position : Nat}

theorem keyForm_eq_error_iff {next : Nat} {k : Value} {cause : Malformed} :
    keyForm next k = .error cause ↔ k.keyOffence? = some cause := by
  cases k with
  | nil => simp [keyForm, Value.keyOffence?]
  | number x =>
    rw [keyForm, Value.keyOffence?]
    split
    · simp
    · split <;> simp
  | text s => rw [keyForm]; split <;> simp [Value.keyOffence?]
  | _ => simp [keyForm, Value.keyOffence?]

theorem keyOffence?_of_keyForm_eq_ok {next : Nat} {k : Value} {form : KeyForm}
    (h : keyForm next k = .ok form) : k.keyOffence? = none := by
  cases hk : k.keyOffence? with
  | none => rfl
  | some cause =>
    rw [keyForm_eq_error_iff.2 hk] at h
    cases h

theorem ofTable_of_ne {cause : List (Value × Value) → Option Malformed} {v : Value}
    (h : ∀ pairs, v ≠ .table pairs) : ofTable cause v = none := by
  rw [ofTable]
  exact h

theorem ofTable_eq_some {cause : List (Value × Value) → Option Malformed} {v : Value}
    {e : Malformed} (h : ofTable cause v = some e) :
    ∃ pairs, v = .table pairs ∧ cause pairs = some e := by
  cases v with
  | table pairs => exact ⟨pairs, rfl, h⟩
  | _ => cases h

theorem ofTable_of_form {cause : List (Value × Value) → Option Malformed} {v : Value} {e : Expr}
    (h : form scene v = .expr e) : ofTable cause v = none :=
  ofTable_of_ne (ne_table_of_form h)

theorem ofTable_key {cause : List (Value × Value) → Option Malformed} {next : Nat} {k : Value}
    {form : KeyForm} (h : keyForm next k = .ok form) (hform : form ≠ .keyed) :
    ofTable cause k = none :=
  ofTable_of_ne (ne_of_keyForm h hform).2

theorem fields_ends {value : Value → Drafting Expr}
    {cause : List (Value × Value) → Option Malformed}
    (hv : ∀ v, Ends (value v) (ofTable cause v)) :
    ∀ next pairs, Ends (fields value next pairs) (pairs.findSome? (pairCause (ofTable cause)))
  | _, [] => Ends.pure _
  | next, (k, v) :: rest => by
    -- what comes behind the key is the same in all forms of a field
    have hrest : ∀ {next} {field : Expr → Field}, Ends (do
        let written ← value v
        return field written :: (← fields value next rest))
        ((ofTable cause v).or (rest.findSome? (pairCause (ofTable cause)))) := by
      intro next field
      have h := (hv v).bind fun written =>
        (fields_ends hv next rest).map fun fs => field written :: fs
      simpa [← bind_pure_comp] using h
    rw [findSome?_cons_or, pairCause, Option.or_assoc, Option.or_assoc]
    unfold fields
    split
    · next e hk =>
      rw [keyForm_eq_error_iff.1 hk]
      exact Ends.throw e
    · next hk =>
      rw [keyOffence?_of_keyForm_eq_ok hk, ofTable_key hk (by simp)]
      exact hrest
    · next name hk =>
      rw [keyOffence?_of_keyForm_eq_ok hk, ofTable_key hk (by simp)]
      exact hrest
    · next hk =>
      rw [keyOffence?_of_keyForm_eq_ok hk]
      exact (hv k).bind fun key => hrest

theorem nested_ends {write : List (Value × Value) → Drafting Expr}
    {cause : List (Value × Value) → Option Malformed}
    (hw : ∀ pairs, Ends (write pairs) (cause pairs)) (v : Value) :
    Ends (nested scene position write v) (ofTable cause v) := by
  unfold nested
  split
  · next e hf =>
    rw [ofTable_of_form hf]
    exact Ends.pure e
  · next pairs hf =>
    obtain rfl := form_eq_table hf
    -- a name is given and the local declared, which does not fail
    have hdeclare : ∀ constructor : Expr, Ends (do
        let name ← nestedName position .table
        hoist name constructor
        return Expr.name name) none := fun _ _ => rfl
    have h := (hw pairs).bind hdeclare
    rwa [Option.or_none] at h
  · next i hf =>
    obtain ⟨rfl, -⟩ := form_eq_handle hf
    exact fun d => rfl

/-- **A table ends in the same way from every draft.** -/
theorem table_ends (scene : Scene) (position : Nat) : ∀ room pairs,
    Ends (table scene position room pairs) (tableCause scene room pairs)
  | 0, _ => Ends.throw _
  | room + 1, pairs => by
    rw [table_succ]
    exact (fields_ends (nested_ends (table_ends scene position room)) 1 (ordered scene pairs)).map _

/-! ## What is found -/

open Value (Offends)

/-- What is found is wrong. -/
theorem offends_of_tableCause : ∀ {room pairs cause}, tableCause scene room pairs = some cause →
    (Value.table pairs).Offends room cause
  | 0, pairs, cause, h => by
    cases h
    exact .tooDeep .refl (.innermost pairs) Nat.one_pos
  | room + 1, pairs, cause, h => by
    have hitem : ∀ {item : Value}, ofTable (tableCause scene room) item = some cause →
        item.ItemOf (.table pairs) → (Value.table pairs).Offends (room + 1) cause := by
      intro item hc hitem
      cases item with
      | table inner => exact (offends_of_tableCause hc).of_item hitem
      | _ => cases hc
    obtain ⟨⟨k, v⟩, hp, hc⟩ := List.exists_of_findSome?_eq_some h
    have hp := mem_ordered.1 hp
    rcases Option.or_eq_some_iff.1 hc with hc | ⟨-, hc⟩
    · exact Value.offends_of_key hp hc
    rcases Option.or_eq_some_iff.1 hc with hc | ⟨-, hc⟩
    · exact hitem hc (.key hp)
    · exact hitem hc (.value hp)

/-- **Where something is wrong, something is found**, in whatever order the pairs are written. -/
theorem tableCause_isSome_of_offends (scene : Scene) : ∀ {room pairs cause},
    (Value.table pairs).Offends room cause → (tableCause scene room pairs).isSome
  | 0, _, _, _ => rfl
  | room + 1, pairs, cause, h => by
    have hfound : ∀ {p}, p ∈ pairs →
        (pairCause (ofTable (tableCause scene room)) p).isSome →
        (tableCause scene (room + 1) pairs).isSome := fun hp hc =>
      List.findSome?_isSome_iff.2 ⟨_, mem_ordered.2 hp, hc⟩
    rcases h.cases_table with ⟨k, w, hp, hc⟩ | ⟨item, hitem, hc⟩
    · exact hfound hp (by rw [pairCause, hc]; rfl)
    · obtain ⟨inner, rfl⟩ := hc.eq_table
      have hinner := tableCause_isSome_of_offends scene hc
      cases hitem with
      | key hp => exact hfound hp (by simp [pairCause, ofTable, hinner])
      | value hp => exact hfound hp (by simp [pairCause, ofTable, hinner])

theorem ofTable_eq_walk {cause : List (Value × Value) → Option Malformed} {depth : Nat}
    {f : Stop → Option Malformed}
    (h : ∀ pairs, cause pairs = ((Value.table pairs).walk depth).findSome? f) (v : Value) :
    ofTable cause v = (v.walk depth).findSome? f := by
  cases v with
  | table pairs => exact h pairs
  | _ => simp [ofTable, Value.walk]

/-- Where tables are not sorted, what is found first is what a walk finds first. -/
theorem tableCause_eq_walk (hsort : scene.settings.sortTableKeys = false) {limit : Nat} :
    ∀ {room depth}, room + depth = limit + 1 → ∀ pairs, tableCause scene room pairs =
      ((Value.table pairs).walk depth).findSome? (Stop.offence? limit)
  | 0, depth, h, pairs => by
    have hdeep : limit < depth := by omega
    simp [tableCause, Value.walk, Stop.offence?, hdeep]
  | room + 1, depth, h, pairs => by
    have hfollowed : ¬ limit < depth := by omega
    have hordered : ordered scene pairs = pairs := if_neg (by simp [hsort])
    have hdepth : room + (depth + 1) = limit + 1 := by omega
    have hitem := ofTable_eq_walk (tableCause_eq_walk hsort hdepth)
    have hpair : ∀ p, pairCause (ofTable (tableCause scene room)) p =
        (Stop.offence? limit (.key p.1)).or
          (((p.1.walk (depth + 1)).findSome? (Stop.offence? limit)).or
            ((p.2.walk (depth + 1)).findSome? (Stop.offence? limit))) := by
      intro p
      rw [pairCause, hitem, hitem, Stop.offence?]
    rw [tableCause, hordered, Value.walk, findSome?_cons_or, Stop.offence?, if_neg hfollowed,
      Option.none_or, Value.walkPairs_findSome?, funext hpair]

end

end Drafting

/-! ## Arguments -/

namespace Draft

variable {scene : Scene} {position : Nat}

/-- An argument is refused for what is found first in its value. -/
theorem argument_error_iff {v : Value} {d : Draft} {cause : Malformed} :
    (d.argument scene position v).1 = .error cause ↔
      Drafting.ofTable (Drafting.tableCause scene deepestTable) v = some cause := by
  cases hf : Drafting.form scene v with
  | expr e =>
    rw [Drafting.argument_expr hf, Drafting.ofTable_of_form hf]
    simp
  | handle i =>
    obtain ⟨rfl, -⟩ := Drafting.form_eq_handle hf
    rw [Drafting.argument_handle hf]
    simp [Drafting.ofTable]
  | table pairs =>
    obtain rfl := Drafting.form_eq_table hf
    have hends := Drafting.table_ends scene position deepestTable pairs d
    rw [Drafting.ofTable, ← hends, Drafting.cause?]
    cases ht : (Drafting.table scene position deepestTable pairs).run d with
    | ok e d₁ => rw [Drafting.argument_table_ok hf ht]; simp
    | error e d₁ => rw [Drafting.argument_table_error hf ht]; simp

/-- **Arguments are refused for what is wrong with their values.**  Whatever the settings, the
    position and the draft are, an argument is refused exactly if something is wrong with its value,
    and for something that is wrong with it; where tables are not sorted, for what a walk through
    the value finds first. -/
theorem argument_refused_iff (scene : Scene) (position : Nat) (v : Value) (d : Draft) :
    ((∃ cause, (d.argument scene position v).1 = .error cause) ↔
      ∃ cause, v.Offends deepestTable cause) ∧
    (∀ cause, (d.argument scene position v).1 = .error cause → v.Offends deepestTable cause) ∧
    (scene.settings.sortTableKeys = false → ∀ cause,
      (d.argument scene position v).1 = .error cause ↔
        v.firstOffence? deepestTable = some cause) := by
  have hwrong : ∀ cause, (d.argument scene position v).1 = .error cause →
      v.Offends deepestTable cause := by
    intro cause h
    obtain ⟨pairs, rfl, hc⟩ := Drafting.ofTable_eq_some (argument_error_iff.1 h)
    exact Drafting.offends_of_tableCause hc
  refine ⟨⟨fun ⟨cause, h⟩ => ⟨cause, hwrong cause h⟩, fun ⟨cause, h⟩ => ?_⟩, hwrong, ?_⟩
  · obtain ⟨pairs, rfl⟩ := h.eq_table
    have hfound := Drafting.tableCause_isSome_of_offends scene h
    exact ⟨_, argument_error_iff.2 (Option.some_get hfound).symm⟩
  · intro hsort cause
    rw [argument_error_iff, Value.firstOffence?,
      Drafting.ofTable_eq_walk (Drafting.tableCause_eq_walk hsort rfl) v]

/-- The key that is a table comes before the key that is nil, and a NaN is a key in it; what was
    drafted before does not matter. -/
theorem refused_for_first_offence :
    let scene : Scene := ⟨{}, fun i => i.name⟩
    let inner : Value := .table [(.text "a", .table []), (.number .nan, .boolean true)]
    let v : Value := .table [(.number .zero, .table []), (inner, .nil), (.nil, .nil)]
    let d : Draft := (Draft.argument scene 1 (.reference Instance.game) { nestedNames := 5 }).2
    scene.settings.sortTableKeys = false ∧
      v.firstOffence? deepestTable = some .nanKey ∧ v.Offends deepestTable .nilKey ∧
      (d.argument scene 3 v).1 = .error .nanKey := by
  intro scene inner v d
  have hfirst : v.firstOffence? deepestTable = some .nanKey := by decide
  exact ⟨rfl, hfirst, .nilKey .refl (List.mem_of_getElem? (i := 2) rfl),
    ((argument_refused_iff scene 3 v d).2.2 rfl .nanKey).2 hfirst⟩

end Draft

end Reenact
