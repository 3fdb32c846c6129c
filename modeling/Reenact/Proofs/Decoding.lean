/-
  Decoding of records and choices, from all their spellings.

  A record is spelled by an object that has, under the name of each field, one member that spells
  the field, or none where it may be left out.  The order of the members and what else is there does
  not matter.  A variant is spelled by an object with one member, named after it, or by its name
  alone if it has no content.

  * `RecordSpelled`, `ConstantSpelled`, `VariantSpelled`, `ListSpelled`: what spells a record, a
    choice and a list;
  * `Fields.Reads`: from all members that spell them, the fields are read as a value; it is proved
    for one field (`field_reads`) and for fields followed by others (`Reads.and`);
  * `record_of_spelled`, `choice_of_constant`, `choice_of_variant`: a spelling is decoded as what it
    spells.
-/
import Mathlib.Data.List.Forall2
import Reenact.Json.Decoder

namespace Reenact

namespace Json

/-! ## Spellings -/

/-- The values of the members of an object that have a name. -/
def valuesOf (name : String) (members : List (String × Json)) : List Json :=
  (members.filter (·.1 = name)).map (·.2)

theorem valuesOf_cons_self (name : String) (j : Json) (members : List (String × Json)) :
    valuesOf name ((name, j) :: members) = j :: valuesOf name members := by
  simp [valuesOf]

theorem valuesOf_cons_of_ne {name other : String} (h : other ≠ name) (j : Json)
    (members : List (String × Json)) :
    valuesOf name ((other, j) :: members) = valuesOf name members := by
  simp [valuesOf, h]

theorem depth_le_of_mem_valuesOf {name : String} {j : Json} {members : List (String × Json)}
    (h : j ∈ valuesOf name members) : j.depth ≤ membersDepth members := by
  induction members with
  | nil => cases h
  | cons m members ih =>
    obtain ⟨other, k⟩ := m
    rw [membersDepth]
    by_cases hname : other = name
    · subst hname
      rw [valuesOf_cons_self, List.mem_cons] at h
      rcases h with rfl | h
      · exact Nat.le_max_left _ _
      · exact Nat.le_trans (ih h) (Nat.le_max_right _ _)
    · rw [valuesOf_cons_of_ne hname] at h
      exact Nat.le_trans (ih h) (Nat.le_max_right _ _)

/-- What a field may be written as. -/
structure FieldSpelling where
  name : String
  spells : Json → Prop
  /-- The field may be left out -/
  omittable : Prop

/-- One member of an object spells a field, or none does and it is left out. -/
def FieldSpelling.In (f : FieldSpelling) (members : List (String × Json)) : Prop :=
  (∃ j, valuesOf f.name members = [j] ∧ f.spells j) ∨ (valuesOf f.name members = [] ∧ f.omittable)

/-- An object with a member for each field. -/
def RecordSpelled (fields : List FieldSpelling) (j : Json) : Prop :=
  ∃ members, j = .object members ∧ ∀ f ∈ fields, f.In members

/-- One of the names of a variant without content, or an object with null under such a name. -/
def ConstantSpelled (names : List String) (j : Json) : Prop :=
  ∃ name ∈ names, j = .text name ∨ j = .object [(name, .null)]

/-- An object with the content of a variant under one of its names. -/
def VariantSpelled (names : List String) (spells : Json → Prop) (j : Json) : Prop :=
  ∃ name ∈ names, ∃ content, j = .object [(name, content)] ∧ spells content

/-- An array with an item for each element of a list. -/
def ListSpelled {α : Type} (spells : α → Json → Prop) (as : List α) (j : Json) : Prop :=
  ∃ items, j = .array items ∧ List.Forall₂ spells as items

/-- Null for nothing. -/
def OptionSpelled {α : Type} (spells : α → Json → Prop) : Option α → Json → Prop
  | none, j => j = .null
  | some a, j => spells a j

/-! ## Fields -/

namespace Fields

variable {α β : Type}

/-- A member with this name is passed over. -/
def Skips (f : Fields α) (name : String) : Prop := ∀ j former, f.member name j former = none

/-- The fields are read as `a` from all members that spell them, and other members are passed
    over. -/
structure Reads (f : Fields α) (fields : List FieldSpelling) (a : α) : Prop where
  skips : ∀ name, name ∉ fields.map (·.name) → f.Skips name
  reads : ∀ members, (∀ g ∈ fields, g.In members) →
    ∃ slots, f.members members f.empty = .ok slots ∧ f.finish slots = .ok a

theorem members_cons_none {f : Fields α} {name : String} {j : Json} {former : f.Slots}
    (h : f.member name j former = none) (rest : List (String × Json)) :
    f.members ((name, j) :: rest) former = f.members rest former := by
  rw [Fields.members.eq_2, h]

theorem members_cons_some {f : Fields α} {name : String} {j : Json} {former : f.Slots}
    {read : Except Failure f.Slots} (h : f.member name j former = some read)
    (rest : List (String × Json)) :
    f.members ((name, j) :: rest) former = read.bind (f.members rest) := by
  rw [Fields.members.eq_2, h]
  rfl

section field

variable {name : String} {decode : Decoder α} {absent : Except Failure α}
  {ended : String × Nat → Nat → Except Failure α}

theorem field_skips {other : String} (h : other ≠ name) :
    (field name decode absent ended).Skips other := fun _ _ => if_neg h

theorem field_self (j : Json) (former : Option α) :
    (field name decode absent ended).member name j former = some (match former with
      | some _ => .error (.problem (.repeatedField name))
      | none => some <$> decode j) := if_pos rfl

theorem members_of_values_nil {members : List (String × Json)} (h : valuesOf name members = [])
    (former : Option α) : (field name decode absent ended).members members former = .ok former := by
  induction members with
  | nil => rfl
  | cons m members ih =>
    obtain ⟨other, j⟩ := m
    by_cases hname : other = name
    · subst hname
      rw [valuesOf_cons_self] at h
      cases h
    · rw [valuesOf_cons_of_ne hname] at h
      exact (members_cons_none (field_skips hname j former) members).trans (ih h)

theorem members_of_values_single {members : List (String × Json)} {j : Json} {a : α}
    (h : valuesOf name members = [j]) (hdecode : decode j = .ok a) :
    (field name decode absent ended).members members none = .ok (some a) := by
  induction members with
  | nil => cases h
  | cons m members ih =>
    obtain ⟨other, k⟩ := m
    by_cases hname : other = name
    · subst hname
      rw [valuesOf_cons_self, List.cons.injEq] at h
      obtain ⟨rfl, hrest⟩ := h
      refine (members_cons_some (field_self k none) members).trans ?_
      rw [hdecode]
      exact members_of_values_nil hrest (some a)
    · rw [valuesOf_cons_of_ne hname] at h
      exact (members_cons_none (field_skips hname k none) members).trans (ih h)

/-- **A field is read from the member that spells it**, and has its default where it is left out. -/
theorem field_reads {spells : Json → Prop} {omittable : Prop} {a : α}
    (hdecode : ∀ j, spells j → decode j = .ok a) (habsent : omittable → absent = .ok a) :
    (field name decode absent ended).Reads [⟨name, spells, omittable⟩] a where
  skips other h := field_skips (by simpa using h)
  reads members h := by
    rcases h _ List.mem_cons_self with ⟨j, hvalues, hj⟩ | ⟨hvalues, homitted⟩
    · exact ⟨some a, members_of_values_single hvalues (hdecode j hj), rfl⟩
    · exact ⟨none, members_of_values_nil hvalues none, habsent homitted⟩

theorem required_reads {spells : Json → Prop} {a : α} (hdecode : ∀ j, spells j → decode j = .ok a) :
    (required name decode).Reads [⟨name, spells, False⟩] a :=
  field_reads hdecode False.elim

theorem optional_reads {spells : Json → Prop} {omittable : Prop} {a value : α}
    (hdecode : ∀ j, spells j → decode j = .ok a) (hdefault : omittable → a = value) :
    (optional name decode value).Reads [⟨name, spells, omittable⟩] a :=
  field_reads hdecode fun h => by rw [hdefault h]

end field

theorem members_and {f : Fields α} {g : Fields β} (hdisjoint : ∀ name, f.Skips name ∨ g.Skips name)
    {members : List (String × Json)} {s s' : f.Slots} {t t' : g.Slots}
    (hf : f.members members s = .ok s') (hg : g.members members t = .ok t') :
    (f.and g).members members (s, t) = .ok (s', t') := by
  induction members generalizing s t with
  | nil => cases hf; cases hg; rfl
  | cons m members ih =>
    obtain ⟨name, j⟩ := m
    cases hs : f.member name j s with
    -- a member of the first fields is none of the others
    | some read =>
      have ht : g.member name j t = none := by
        refine (hdisjoint name).elim (fun h => ?_) fun h => h j t
        rw [h j s] at hs
        cases hs
      rw [members_cons_some hs] at hf
      rw [members_cons_none ht] at hg
      cases read with
      | error e => cases hf
      | ok s₁ =>
        have hboth : (f.and g).member name j (s, t) = some (.ok (s₁, t)) := by
          simp only [Fields.and, hs]
          rfl
        exact (members_cons_some hboth members).trans (ih hf hg)
    | none =>
      rw [members_cons_none hs] at hf
      cases ht : g.member name j t with
      | none =>
        rw [members_cons_none ht] at hg
        have hboth : (f.and g).member name j (s, t) = none := by simp [Fields.and, hs, ht]
        exact (members_cons_none hboth members).trans (ih hf hg)
      | some read =>
        rw [members_cons_some ht] at hg
        cases read with
        | error e => cases hg
        | ok t₁ =>
          have hboth : (f.and g).member name j (s, t) = some (.ok (s, t₁)) := by
            simp only [Fields.and, hs, ht]
            rfl
          exact (members_cons_some hboth members).trans (ih hf hg)

/-- **Fields with different names are read independently.** -/
theorem Reads.and {f : Fields α} {g : Fields β} {fs gs : List FieldSpelling} {a : α} {b : β}
    (hf : f.Reads fs a) (hg : g.Reads gs b)
    (hdisjoint : ∀ name ∈ fs.map (·.name), name ∉ gs.map (·.name)) :
    (f.and g).Reads (fs ++ gs) (a, b) where
  skips name hname := by
    rw [List.map_append, List.mem_append, not_or] at hname
    intro j former
    simp [Fields.and, hf.skips name hname.1 j former.1, hg.skips name hname.2 j former.2]
  reads members h := by
    obtain ⟨s, hs, ha⟩ := hf.reads members fun p hp => h p (List.mem_append_left _ hp)
    obtain ⟨t, ht, hb⟩ := hg.reads members fun p hp => h p (List.mem_append_right _ hp)
    have hskips : ∀ name, f.Skips name ∨ g.Skips name := fun name => by
      by_cases hname : name ∈ fs.map (·.name)
      · exact .inr (hg.skips name (hdisjoint name hname))
      · exact .inl (hf.skips name hname)
    refine ⟨(s, t), members_and hskips hs ht, ?_⟩
    simp only [Fields.and, ha, hb]
    rfl

theorem members_map (f : Fields α) (make : α → β) (members : List (String × Json))
    (former : f.Slots) : (f.map make).members members former = f.members members former := by
  induction members generalizing former with
  | nil => rfl
  | cons m members ih =>
    obtain ⟨name, j⟩ := m
    cases hread : f.member name j former with
    | none =>
      rw [members_cons_none hread]
      exact (members_cons_none (f := f.map make) hread members).trans (ih former)
    | some read =>
      rw [members_cons_some hread]
      refine (members_cons_some (f := f.map make) hread members).trans ?_
      cases read with
      | error e => rfl
      | ok s => exact ih s

theorem Reads.map {f : Fields α} {fs : List FieldSpelling} {a : α} (h : f.Reads fs a)
    (make : α → β) : (f.map make).Reads fs (make a) where
  skips := h.skips
  reads members hmembers := by
    obtain ⟨s, hs, ha⟩ := h.reads members hmembers
    refine ⟨s, (members_map f make members _).trans hs, ?_⟩
    show make <$> f.finish s = _
    rw [ha]
    rfl

end Fields

/-! ## Records, choices and lists -/

variable {α β : Type}

/-- **A record is decoded from each of its spellings.** -/
theorem record_of_spelled {f : Fields α} {fields : List FieldSpelling} {a : α}
    (h : f.Reads fields a) {j : Json} (hj : RecordSpelled fields j) (name : String) :
    record name f j = .ok a := by
  obtain ⟨members, rfl, hmembers⟩ := hj
  obtain ⟨slots, hslots, hfinish⟩ := h.reads members hmembers
  rw [record, hslots]
  exact hfinish

theorem Variant.find_one {variants : List (Variant α)} {name : String} {v : Variant α}
    (h : find variants name = .ok v) : ∀ n ∈ [name], find variants n = .ok v :=
  List.forall_mem_singleton.2 h

theorem Variant.find_two {variants : List (Variant α)} {name other : String} {v : Variant α}
    (h : find variants name = .ok v) (hother : find variants other = .ok v) :
    ∀ n ∈ [name, other], find variants n = .ok v :=
  List.forall_mem_cons.2 ⟨h, find_one hother⟩

theorem choice_of_constant {variants : List (Variant α)} {names : List String} {a : α}
    (hfind : ∀ name ∈ names, Variant.find variants name = .ok (.constant names a)) {j : Json}
    (hj : ConstantSpelled names j) : choice variants j = .ok a := by
  obtain ⟨name, hname, rfl | rfl⟩ := hj
  · rw [choice, hfind name hname]
    rfl
  · rw [choice, hfind name hname]
    rfl

theorem depth_lt_of_variant {names : List String} {spells : Json → Prop} {j : Json}
    (hj : VariantSpelled names spells j) : ∃ name ∈ names, ∃ content,
      j = .object [(name, content)] ∧ spells content ∧ content.depth < j.depth := by
  obtain ⟨name, hname, content, rfl, hcontent⟩ := hj
  refine ⟨name, hname, content, rfl, hcontent, ?_⟩
  simp only [depth, membersDepth]
  omega

/-- A variant with content is decoded as its content is. -/
theorem choice_of_variant {variants : List (Variant α)} {names : List String}
    {spells : Json → Prop} {v : Variant α} {a : α}
    (hfind : ∀ name ∈ names, Variant.find variants name = .ok v) {j : Json}
    (hj : VariantSpelled names spells j)
    (hcontent : ∀ content, spells content → content.depth < j.depth → v.decode content = .ok a) :
    choice variants j = .ok a := by
  obtain ⟨name, hname, content, rfl, hspells, hdepth⟩ := depth_lt_of_variant hj
  rw [choice, hfind name hname]
  show (v.decode content >>= _) = _
  rw [hcontent content hspells hdepth]
  rfl

theorem mapM_of_forall₂ {decode : Decoder α} {as : List α} {items : List Json}
    (h : List.Forall₂ (fun a j => decode j = .ok a) as items) : items.mapM decode = .ok as := by
  induction h with
  | nil => rfl
  | cons ha _ ih => rw [List.mapM_cons, ha, ih]; rfl

theorem listDecoder_of_spelled {spells : α → Json → Prop} {decode : Decoder α}
    (hdecode : ∀ a j, spells a j → decode j = .ok a) {as : List α} {j : Json}
    (hj : ListSpelled spells as j) : listDecoder decode j = .ok as := by
  obtain ⟨items, rfl, hitems⟩ := hj
  exact mapM_of_forall₂ (hitems.imp hdecode)

theorem nullable_of_ne {decode : Decoder α} {j : Json} (h : j ≠ .null) :
    nullable decode j = some <$> decode j := by
  cases j <;> first | rfl | exact absurd rfl h

theorem nullable_of_spelled {spells : α → Json → Prop} {decode : Decoder α} {j : Json}
    (hdecode : ∀ a, spells a j → decode j = .ok a) (hnull : ∀ a, ¬spells a .null) {a : Option α}
    (hj : OptionSpelled spells a j) : nullable decode j = .ok a := by
  cases a with
  | none => cases hj; rfl
  | some a =>
    have hne : j ≠ .null := by rintro rfl; exact hnull a hj
    rw [nullable_of_ne hne, hdecode a hj]
    rfl

theorem not_recordSpelled_null (fields : List FieldSpelling) : ¬RecordSpelled fields .null := by
  rintro ⟨members, h, -⟩
  cases h

end Json

end Reenact
