/-
  Tables with sorted keys.

  The pairs of a sorted table are written in the order of their keys, so what a table is written as
  depends on the order in which its pairs were met only where the order of keys does not tell two of
  them apart (`sorted_independent_iff`).

  The numbers come first and ascend.  So as long as the next position is still to come, no number
  before it is a later position, and the positions are the keys `1`, ..., `n` as far as they go
  without a gap, whatever other numbers are between them (`sorted_array_positional`).  `Slots` is
  what this comes to for the fields from a position on.
-/
import Mathlib.Data.List.Forall2
import Mathlib.Data.List.Nodup
import Mathlib.Order.Bounds.Basic
import Reenact.Proofs.Drafting
import Reenact.Proofs.KeyOrder

namespace Reenact

/-! ## The order in which pairs were met -/

section
variable {scene : Scene} {position : Nat} {pairs other : List (Value × Value)}

theorem Drafting.ordered_of_sort (hsort : scene.settings.sortTableKeys = true)
    (pairs : List (Value × Value)) : ordered scene pairs = Value.sortPairs pairs :=
  if_pos hsort

/-- What a table is written as depends on the order in which its pairs are written. -/
theorem Drafting.table_congr (h : ordered scene other = ordered scene pairs) :
    ∀ room, table scene position room other = table scene position room pairs
  | 0 => rfl
  | room + 1 => by rw [table_succ, table_succ, h]

theorem Draft.argument_congr (h : Drafting.ordered scene other = Drafting.ordered scene pairs)
    (d : Draft) : d.argument scene position (.table other) =
      d.argument scene position (.table pairs) := by
  have hsame : Drafting.argument scene position (.table other) =
      Drafting.argument scene position (.table pairs) :=
    congrArg (Drafted.bound (LocalName.ofKind .table position) <$> ·)
      (Drafting.table_congr h deepestTable)
  rw [Draft.argument, Draft.argument, hsame]

/-- **Sorting makes the order of traversal irrelevant** exactly if the order of keys tells any two
    pairs of the table apart: whatever order they are met in, they are written in one order, and the
    same is drafted. -/
theorem sorted_independent_iff (hsort : scene.settings.sortTableKeys = true)
    (pairs : List (Value × Value)) :
    (∀ other, other.Perm pairs →
      Drafting.ordered scene other = Drafting.ordered scene pairs ∧
      ∀ position (d : Draft), d.argument scene position (.table other) =
        d.argument scene position (.table pairs)) ↔
    ∀ p ∈ pairs, ∀ q ∈ pairs, p.1.Alike q.1 → p = q := by
  rw [← Value.sorted_alike_iff]
  constructor
  · intro h other hperm
    have hordered := (h other hperm).1
    rwa [Drafting.ordered_of_sort hsort, Drafting.ordered_of_sort hsort] at hordered
  · intro h other hperm
    have hordered : Drafting.ordered scene other = Drafting.ordered scene pairs := by
      rw [Drafting.ordered_of_sort hsort, Drafting.ordered_of_sort hsort, h other hperm]
    exact ⟨hordered, fun _ d => Draft.argument_congr hordered d⟩

end

/-- The keys differ in their texts, or are numbers: their traversal can be reversed. -/
theorem reversed_traversal_drafted :
    let scene : Scene := ⟨{ sortTableKeys := true }, fun i => i.name⟩
    let pairs : List (Value × Value) :=
      [(.text "b", .reference Instance.game), (.number (Binary64.infinity true), .nil),
        (.table [], .table []), (.boolean true, .nil), (.number .zero, .boolean false)]
    scene.settings.sortTableKeys = true ∧
      ∀ d : Draft,
        d.argument scene 1 (.table pairs.reverse) = d.argument scene 1 (.table pairs) := by
  intro scene pairs
  have hplaces : (pairs.map fun p => p.1.place).Nodup := by decide
  refine ⟨rfl, fun d => (((sorted_independent_iff rfl pairs).2 fun p hp q hq h => ?_)
    pairs.reverse pairs.reverse_perm).2 1 d⟩
  exact List.inj_on_of_nodup_map hplaces hp hq (Value.place_eq_iff.2 h)

/-- A text and a truth value are different keys, but with one text they are written in the order in
    which they were met. -/
theorem alike_keys_keep_traversal :
    let scene : Scene := ⟨{ sortTableKeys := true }, fun i => i.name⟩
    let truth : Value × Value := (.boolean true, .number (Binary64.ofInt 1))
    let word : Value × Value := (.text "true", .number (Binary64.ofInt 2))
    scene.settings.sortTableKeys = true ∧ [word, truth].Perm [truth, word] ∧
      truth.1.equals word.1 = false ∧
      (Draft.argument scene 1 (.table [truth, word]) {}).1 = .ok (.bound "_4lveTable1" (.table
        [.keyed (.boolean true) (.ofNumber (Binary64.ofInt 1)),
          .keyed (.ofText "true") (.ofNumber (Binary64.ofInt 2))])) ∧
      (Draft.argument scene 1 (.table [word, truth]) {}).1 = .ok (.bound "_4lveTable1" (.table
        [.keyed (.ofText "true") (.ofNumber (Binary64.ofInt 2)),
          .keyed (.boolean true) (.ofNumber (Binary64.ofInt 1))])) := by
  intro scene truth word
  have hname : "_4lveTable1" = LocalName.ofArgument (.table [truth, word]) 1 := by decide
  have hsorted : ∀ p q : Value × Value, (Value.compareKeys p.1 q.1).isLE = true →
      Drafting.ordered scene [p, q] = [p, q] := fun p q h =>
    List.mergeSort_of_pairwise (by simpa using h)
  have htruth : (Drafting.table scene 1 deepestTable [truth, word]).run {} = .ok (.table
      [.keyed (.boolean true) (.ofNumber (Binary64.ofInt 1)),
        .keyed (.ofText "true") (.ofNumber (Binary64.ofInt 2))]) {} := by
    rw [deepestTable, Drafting.table_succ, hsorted _ _ (by decide)]
    rfl
  have hword : (Drafting.table scene 1 deepestTable [word, truth]).run {} = .ok (.table
      [.keyed (.ofText "true") (.ofNumber (Binary64.ofInt 2)),
        .keyed (.boolean true) (.ofNumber (Binary64.ofInt 1))]) {} := by
    rw [deepestTable, Drafting.table_succ, hsorted _ _ (by decide)]
    rfl
  refine ⟨rfl, List.Perm.swap _ _ _, by simp [truth, word, Value.equals], ?_, ?_⟩
  · rw [hname, Drafting.argument_table_ok rfl htruth]
  · rw [hname, Drafting.argument_table_ok rfl hword]
    rfl

/-! ## Keys that are positions -/

/-- The key is the natural number `i`. -/
def Value.IsIndex (i : Nat) : Value → Prop
  | .number x => x.isNat i = true
  | _ => False

/-- The natural number `i` is a key. -/
def HasIndex (pairs : List (Value × Value)) (i : Nat) : Prop := ∃ p ∈ pairs, p.1.IsIndex i

def Field.isPositional : Field → Bool
  | .positional _ => true
  | _ => false

namespace Value

variable {k l : Value} {i j : Nat}

theorem exists_of_isIndex (h : k.IsIndex i) : ∃ x, k = .number x ∧ x.isNat i = true := by
  cases k with
  | number x => exact ⟨x, rfl, h⟩
  | _ => exact h.elim

theorem units_of_isIndex {x : Binary64} (h : (Value.number x).IsIndex i) :
    x.units = (i * Binary64.unitsPerOne : Nat) := by
  have h := (Bool.and_eq_true_iff.1 (show x.isNat i = true from h)).2
  exact beq_iff_eq.1 h

/-- **Positions ascend with the places of their keys.** -/
theorem isIndex_le_of_place_le (hk : k.IsIndex i) (hl : l.IsIndex j) (h : k.place ≤ l.place) :
    i ≤ j := by
  obtain ⟨x, rfl, -⟩ := exists_of_isIndex hk
  obtain ⟨y, rfl, -⟩ := exists_of_isIndex hl
  have hunits := Binary64.units_le_of_rank_le (Sum.Lex.inl_le_inl_iff.1 h)
  rw [units_of_isIndex hk, units_of_isIndex hl] at hunits
  exact Nat.le_of_mul_le_mul_right (Int.ofNat_le.1 hunits) Binary64.unitsPerOne_pos

theorem isIndex_unique (hi : k.IsIndex i) (hj : k.IsIndex j) : i = j :=
  Nat.le_antisymm (isIndex_le_of_place_le hi hj le_rfl) (isIndex_le_of_place_le hj hi le_rfl)

/-- Keys that are equal to no other are positions of no other. -/
theorem not_isIndex_of_equals (h : k.equals l = false) (hk : k.IsIndex i) : ¬ l.IsIndex i := by
  intro hl
  obtain ⟨x, rfl, hx⟩ := exists_of_isIndex hk
  obtain ⟨y, rfl, hy⟩ := exists_of_isIndex hl
  have hunits : x.units = y.units := by rw [units_of_isIndex hk, units_of_isIndex hl]
  have hnan : x.isNaN = false ∧ y.isNaN = false := by
    simp only [Binary64.isNat, Bool.and_eq_true, Bool.not_eq_true'] at hx hy
    exact ⟨hx.1, hy.1⟩
  rw [equals, Binary64.equals, hnan.1, hnan.2, hunits] at h
  simp at h

end Value

section
variable {next ends i : Nat} {p : Value × Value} {f : Field} {rest : List (Value × Value)}
  {fs : List Field}

theorem hasIndex_cons : HasIndex (p :: rest) i ↔ p.1.IsIndex i ∨ HasIndex rest i := by
  simp only [HasIndex, List.mem_cons, exists_eq_or_imp]

theorem hasIndex_perm {pairs other : List (Value × Value)} (h : other.Perm pairs) :
    HasIndex other i ↔ HasIndex pairs i := by
  simp only [HasIndex, h.mem_iff]

/-- The fields for pairs in the order of their keys, where `next` is the next position: the natural
    numbers up to the first that is no key are the positions, and their fields come in order. -/
structure Slots (next ends : Nat) (pairs : List (Value × Value)) (fs : List Field) : Prop where
  le : next ≤ ends
  filled : ∀ i, next ≤ i → i < ends → HasIndex pairs i
  gap : ¬ HasIndex pairs ends
  exactly : ∀ w ∈ pairs.zip fs,
    w.2.isPositional = true ↔ ∃ i, next ≤ i ∧ i < ends ∧ w.1.1.IsIndex i
  inOrder : List.Forall₂ (fun i w => w.1.1.IsIndex i) (List.range' next (ends - next))
    ((pairs.zip fs).filter fun w => w.2.isPositional)

namespace Slots

theorem nil (next : Nat) : Slots next next [] [] where
  le := le_rfl
  filled _ hi he := absurd hi (Nat.not_le_of_lt he)
  gap := by
    rintro ⟨p, hmem, -⟩
    cases hmem
  exactly := nofun
  inOrder := by
    rw [Nat.sub_self]
    exact .nil

/-- The next position, and behind it no other pair with that key. -/
theorem positional {e : Expr} (hp : p.1.IsIndex next) (hnew : ¬ HasIndex rest next)
    (h : Slots (next + 1) ends rest fs) : Slots next ends (p :: rest) (.positional e :: fs) where
  le := Nat.le_of_succ_le h.le
  filled i hi he := by
    rcases Nat.eq_or_lt_of_le hi with rfl | hi
    · exact hasIndex_cons.2 (Or.inl hp)
    · exact hasIndex_cons.2 (Or.inr (h.filled i hi he))
  gap hgap := by
    rcases hasIndex_cons.1 hgap with hends | hrest
    · have heq := Value.isIndex_unique hp hends
      have := h.le
      omega
    · exact h.gap hrest
  exactly w hw := by
    rcases List.mem_cons.1 hw with rfl | hw
    · exact ⟨fun _ => ⟨next, le_rfl, h.le, hp⟩, fun _ => rfl⟩
    rw [h.exactly w hw]
    constructor
    · rintro ⟨i, hi, he, hwi⟩
      exact ⟨i, Nat.le_of_succ_le hi, he, hwi⟩
    · rintro ⟨i, hi, he, hwi⟩
      rcases Nat.eq_or_lt_of_le hi with rfl | hi
      · exact absurd ⟨w.1, (List.of_mem_zip hw).1, hwi⟩ hnew
      · exact ⟨i, hi, he, hwi⟩
  inOrder := by
    have hcount : ends - next = ends - (next + 1) + 1 := by
      have := h.le
      omega
    rw [hcount, List.range'_succ, List.zip_cons_cons, List.filter_cons_of_pos rfl]
    exact .cons hp h.inOrder

/-- A key that is not the next position is none of those behind it: if the next position is still to
    come, then all keys of later positions come after it. -/
theorem not_isIndex (h : Slots next ends rest fs) (hp : ¬ p.1.IsIndex next)
    (hsorted : ∀ q ∈ rest, p.1.place ≤ q.1.place) : ∀ i, next ≤ i → i ≤ ends → ¬ p.1.IsIndex i := by
  intro i hi he hpi
  have hne : next ≠ i := fun heq => hp (heq ▸ hpi)
  obtain ⟨q, hmem, hq⟩ := h.filled next le_rfl (by omega)
  have hle := Value.isIndex_le_of_place_le hpi hq (hsorted q hmem)
  omega

/-- A pair that has a field with a key. -/
theorem passed (h : Slots next ends rest fs) (hp : ∀ i, next ≤ i → i ≤ ends → ¬ p.1.IsIndex i)
    (hf : f.isPositional = false) : Slots next ends (p :: rest) (f :: fs) where
  le := h.le
  filled i hi he := hasIndex_cons.2 (Or.inr (h.filled i hi he))
  gap hgap := by
    rcases hasIndex_cons.1 hgap with hends | hrest
    · exact hp ends h.le le_rfl hends
    · exact h.gap hrest
  exactly w hw := by
    rcases List.mem_cons.1 hw with rfl | hw
    · refine ⟨fun hpos => absurd (hf.symm.trans hpos) nofun, ?_⟩
      rintro ⟨i, hi, he, hpi⟩
      exact absurd hpi (hp i hi (Nat.le_of_lt he))
    · exact h.exactly w hw
  inOrder := by
    rw [List.zip_cons_cons, List.filter_cons_of_neg (by simp [hf])]
    exact h.inOrder

end Slots

end

namespace Drafting

section
variable {next : Nat} {k : Value}

theorem isIndex_of_keyForm (h : keyForm next k = .ok .positional) : k.IsIndex next := by
  obtain ⟨x, rfl, hx⟩ := eq_number_of_keyForm h
  exact hx

theorem not_isIndex_of_keyForm (h : keyForm next k = .ok .keyed) : ¬ k.IsIndex next := by
  intro hk
  obtain ⟨x, rfl, hx⟩ := Value.exists_of_isIndex hk
  rw [keyForm, hx] at h
  split at h <;> cases h

end

/-- **Fields of sorted pairs** have positions as long as the keys go on without a gap. -/
theorem fields_slots {W : Value → Draft → Expr → Draft → Prop} {next : Nat}
    {pairs : List (Value × Value)} {d d' : Draft} {fs : List Field}
    (h : FieldsOf W next pairs d fs d')
    (hsorted : pairs.Pairwise fun p q => p.1.place ≤ q.1.place)
    (hdiff : pairs.Pairwise fun p q => ∀ i, p.1.IsIndex i → ¬ q.1.IsIndex i) :
    ∃ ends, Slots next ends pairs fs := by
  induction h with
  | @nil next d => exact ⟨next, Slots.nil next⟩
  | positional hk _ _ ih =>
    obtain ⟨hfirst, hrest⟩ := List.pairwise_cons.1 hdiff
    obtain ⟨ends, h⟩ := ih (List.pairwise_cons.1 hsorted).2 hrest
    have hindex := isIndex_of_keyForm hk
    exact ⟨ends, h.positional hindex fun ⟨q, hmem, hq⟩ => hfirst q hmem _ hindex hq⟩
  | named hk _ _ ih =>
    obtain ⟨ends, h⟩ := ih (List.pairwise_cons.1 hsorted).2 (List.pairwise_cons.1 hdiff).2
    obtain rfl := eq_text_of_keyForm hk
    exact ⟨ends, h.passed (fun _ _ _ hi => hi) rfl⟩
  | keyed hk _ _ _ ih =>
    obtain ⟨hfirst, hrest⟩ := List.pairwise_cons.1 hsorted
    obtain ⟨ends, h⟩ := ih hrest (List.pairwise_cons.1 hdiff).2
    exact ⟨ends, h.passed (h.not_isIndex (not_isIndex_of_keyForm hk) hfirst) rfl⟩

end Drafting

/-- **Of a sorted table exactly the array part is positional**, at any depth in an argument.  Let
    `n` be the largest number such that all of `1`, ..., `n` are keys.  Then the pairs are drafted
    one after another in some order, each as one field, and those that have a field without a key
    are the pairs with the keys `1`, ..., `n`, in this order. -/
theorem sorted_array_positional {scene : Scene} {position room : Nat} {d d' : Draft} {e : Expr}
    {pairs : List (Value × Value)} (hsort : scene.settings.sortTableKeys = true)
    (hdiff : pairs.Pairwise fun p q => p.1.equals q.1 = false)
    (h : (Drafting.table scene position (room + 1) pairs).run d = .ok e d') :
    ∃ n order fields, e = .table fields ∧ order.Perm pairs ∧
      Drafting.FieldsOf (fun v d e d' => (Drafting.nested scene position
        (Drafting.table scene position room) v).run d = .ok e d') 1 order d fields d' ∧
      IsGreatest {n | ∀ i, 1 ≤ i → i ≤ n → HasIndex pairs i} n ∧
      (∀ w ∈ order.zip fields,
        w.2.isPositional = true ↔ ∃ i, 1 ≤ i ∧ i ≤ n ∧ w.1.1.IsIndex i) ∧
      List.Forall₂ (fun i w => w.1.1.IsIndex i) (List.range' 1 n)
        ((order.zip fields).filter fun w => w.2.isPositional) := by
  obtain ⟨fields, hfields, rfl⟩ := Drafting.table_ok_iff.1 h
  rw [Drafting.ordered_of_sort hsort] at hfields
  have hperm := Value.sortPairs_perm pairs
  have hindex : (Value.sortPairs pairs).Pairwise fun p q =>
      ∀ i, p.1.IsIndex i → ¬ q.1.IsIndex i := by
    refine (hperm.pairwise_iff fun {p q} hpq i hq hp => hpq i hp hq).2 ?_
    exact hdiff.imp fun h i => Value.not_isIndex_of_equals h
  obtain ⟨ends, hslots⟩ :=
    Drafting.fields_slots hfields (Value.sortPairs_sorted pairs) hindex
  obtain ⟨n, rfl⟩ : ∃ n, ends = n + 1 := ⟨ends - 1, by have := hslots.le; omega⟩
  refine ⟨n, Value.sortPairs pairs, fields, rfl, hperm, hfields,
    ⟨fun i hi hn => ?_, fun m hm => ?_⟩, fun w hw => ?_, hslots.inOrder⟩
  · exact (hasIndex_perm hperm).1 (hslots.filled i hi (Nat.lt_succ_of_le hn))
  · by_contra hlt
    exact hslots.gap ((hasIndex_perm hperm).2 (hm (n + 1) (Nat.succ_pos n) (Nat.lt_of_not_le hlt)))
  · simpa only [Nat.lt_succ_iff] using hslots.exactly w hw

/-- The keys are met in the order `"a"`, `2`, `1.5`, `1`: the number between the positions keeps its
    key. -/
theorem interleaved_array_positional :
    let scene : Scene := ⟨{ sortTableKeys := true }, fun i => i.name⟩
    let one : Binary64 := ⟨0x3ff0000000000000⟩
    let between : Binary64 := ⟨0x3ff8000000000000⟩
    let two : Binary64 := ⟨0x4000000000000000⟩
    let pairs : List (Value × Value) := [(.text "a", .nil), (.number two, .boolean true),
      (.number between, .nil), (.number one, .boolean false)]
    let fields : List Field := [.positional (.boolean false), .keyed (.ofNumber between) .nil,
      .positional (.boolean true), .named "a" .nil]
    scene.settings.sortTableKeys = true ∧ (pairs.Pairwise fun p q => p.1.equals q.1 = false) ∧
      (Drafting.table scene 1 deepestTable pairs).run {} = .ok (.table fields) {} ∧
      IsGreatest {n | ∀ i, 1 ≤ i → i ≤ n → HasIndex pairs i} 2 := by
  intro scene one between two pairs fields
  have hdiff : pairs.Pairwise fun p q => p.1.equals q.1 = false := by
    have htext : ∀ x, (Value.text "a").equals (.number x) = false := fun _ => rfl
    have hbetween : two.equals between = false := by decide +kernel
    have hone : two.equals one = false ∧ between.equals one = false := by decide +kernel
    refine .cons ?_ (.cons ?_ (List.pairwise_pair.2 hone.2))
    · exact List.forall_mem_cons.2 ⟨htext _, List.forall_mem_cons.2
        ⟨htext _, List.forall_mem_singleton.2 (htext _)⟩⟩
    · exact List.forall_mem_cons.2 ⟨hbetween, List.forall_mem_singleton.2 hone.1⟩
  have hordered : Drafting.ordered scene pairs = pairs.reverse := by
    have hplaces : (pairs.reverse.map fun p => p.1.place).Nodup := by decide +kernel
    have hsame : Value.sortPairs pairs = Value.sortPairs pairs.reverse :=
      Value.sortPairs_eq_of_perm pairs.reverse_perm.symm
        fun p hp q hq => List.inj_on_of_nodup_map hplaces hp hq
    have hsorted : Value.sortPairs pairs.reverse = pairs.reverse :=
      List.mergeSort_of_pairwise (by decide +kernel)
    rw [Drafting.ordered_of_sort rfl, hsame, hsorted]
  have hkey : Drafting.keyForm 1 (.number one) = .ok .positional ∧
      Drafting.keyForm 2 (.number between) = .ok .keyed ∧
      Drafting.keyForm 2 (.number two) = .ok .positional := by
    refine ⟨?_, ?_, ?_⟩
    · rw [Drafting.keyForm, if_neg (by decide +kernel), if_pos (by decide +kernel)]
    · rw [Drafting.keyForm, if_neg (by decide +kernel), if_neg (by decide +kernel)]
    · rw [Drafting.keyForm, if_neg (by decide +kernel), if_pos (by decide +kernel)]
  have hrun : (Drafting.table scene 1 deepestTable pairs).run {} = .ok (.table fields) {} := by
    refine Drafting.table_ok_iff.2 ⟨fields, ?_, rfl⟩
    rw [hordered]
    exact .positional hkey.1 rfl (.keyed hkey.2.1 rfl rfl (.positional hkey.2.2 rfl
      (.named rfl rfl .nil)))
  obtain ⟨n, order, _, he, hperm, -, hgreatest, -, hinOrder⟩ :=
    sorted_array_positional rfl hdiff hrun
  cases he
  have hfields : (order.zip fields).map Prod.snd = fields :=
    List.map_snd_zip (Nat.le_of_eq hperm.length_eq.symm)
  have hn : n = 2 := calc
    n = ((order.zip fields).filter (Field.isPositional ∘ Prod.snd)).length :=
      List.length_range'.symm.trans hinOrder.length_eq
    _ = (fields.filter Field.isPositional).length := by
      conv_rhs => rw [← hfields, List.filter_map, List.length_map]
    _ = 2 := rfl
  exact ⟨rfl, hdiff, hrun, hn ▸ hgreatest⟩

end Reenact
