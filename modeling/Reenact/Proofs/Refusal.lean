/-
  What a refused argument leaves behind.

  A draft may have handles from anywhere.  When an argument is refused, the locals and handles that
  were added for it are dropped, so the hoisted locals and the names of the handles are what they
  were (`argument_refused_names`).  A handle that was put in the place of another is not dropped: it
  keeps its name and stands for another instance.

  `refusal_traceless_iff`: from the draft that is given, no refused argument at a position leaves a
  trace exactly if none of the names still to be given to instances inside it is that of a handle.
-/
import Mathlib.Data.Fintype.EquivFin
import Reenact.Proofs.Handles

namespace Reenact

theorem Roster.names_truncate {α : Type} (r : Roster α) (n : Nat) :
    (r.truncate n).names = r.names.take n :=
  List.map_take

theorem Roster.truncate_of_names_eq {α : Type} {r s : Roster α} (h : s.names = r.names) :
    s.truncate r.size = s := by
  have hsize : r.size = s.size := by
    simpa [names, size] using congrArg List.length h.symm
  rw [hsize]
  exact truncate_of_prefix (List.prefix_refl _)

/-- A handle that has the name already is replaced. -/
theorem Handles.names_refer_of_mem {h : Handles} {name : String} (hmem : name ∈ h.names)
    (i : Instance) : (h.refer name i).2.names = h.names := by
  unfold refer
  split
  · rfl
  · exact (Roster.names_alter h name fun _ => i).trans (if_pos hmem)

theorem Handles.names_refer_eq (h : Handles) (name : String) (i : Instance) :
    (h.refer name i).2.names = h.names ∨ (h.refer name i).2.names = h.names ++ [name] := by
  unfold refer
  split
  · exact Or.inl rfl
  · have hnames := Roster.names_alter h name fun _ => i
    split at hnames
    · exact Or.inl hnames
    · exact Or.inr hnames

namespace Draft

variable {scene : Scene} {position : Nat} {v : Value} {d d' : Draft} {cause : Malformed}

/-! ## Names and locals -/

/-- Names of handles, and locals, are added at the end. -/
def Grows (d d' : Draft) : Prop := d.handles.names <+: d'.handles.names ∧ d.hoisted <+: d'.hoisted

theorem Grows.refl (d : Draft) : Grows d d := ⟨List.prefix_refl _, List.prefix_refl _⟩

theorem Grows.trans (d d₁ d₂ : Draft) (h : Grows d d₁) (h' : Grows d₁ d₂) : Grows d d₂ :=
  ⟨h.1.trans h'.1, h.2.trans h'.2⟩

theorem grows_nestHandle (d : Draft) (i : Instance) : Grows d (d.nestHandle position i).2 := by
  refine ⟨?_, List.prefix_refl _⟩
  rcases Handles.names_refer_eq d.handles
    (LocalName.ofNested .reference position (d.nestedNames + 1)) i with he | he
  · exact he ▸ List.prefix_refl _
  · exact he ▸ List.prefix_append _ _

theorem table_grows (room : Nat) (pairs : List (Value × Value)) :
    Drafting.Moves Grows (Drafting.table scene position room pairs) :=
  Drafting.table_moves Grows.refl Grows.trans
    (fun _ _ => ⟨List.prefix_refl _, List.prefix_append _ _⟩)
    (fun _ d i => grows_nestHandle d i) room pairs

/-- **A refused argument leaves the locals and the names of the handles as they were**, whatever the
    draft. -/
theorem argument_refused_names (h : d.argument scene position v = (.error cause, d')) :
    d'.handles.names = d.handles.names ∧ d'.hoisted = d.hoisted := by
  obtain ⟨pairs, d₁, ht, rfl⟩ := Drafting.argument_error_cases h
  obtain ⟨hnames, hhoisted⟩ := (table_grows deepestTable pairs).of_run_error ht
  have hsize : d.handles.size = d.handles.names.length := (List.length_map _).symm
  refine ⟨?_, (List.prefix_iff_eq_take.1 hhoisted).symm⟩
  rw [Roster.names_truncate, hsize]
  exact (List.prefix_iff_eq_take.1 hnames).symm

/-! ## Handles that stay -/

/-- The names still to be given to instances inside the argument at a position are free. -/
def NumbersFree (position : Nat) (d : Draft) : Prop :=
  ∀ n, d.nestedNames < n → LocalName.ofNested .reference position n ∉ d.handles.names

/-- As long as the names to be given are free, nothing is replaced. -/
def Adds (position : Nat) (d d' : Draft) : Prop :=
  d.NumbersFree position → d'.NumbersFree position ∧ d.handles.entries <+: d'.handles.entries

theorem Adds.refl (d : Draft) : Adds position d d := fun h => ⟨h, List.prefix_refl _⟩

theorem Adds.trans (d d₁ d₂ : Draft) (h : Adds position d d₁) (h' : Adds position d₁ d₂) :
    Adds position d d₂ := by
  intro hfree
  obtain ⟨hfree₁, hp₁⟩ := h hfree
  obtain ⟨hfree₂, hp₂⟩ := h' hfree₁
  exact ⟨hfree₂, hp₁.trans hp₂⟩

theorem adds_nestTable (d : Draft) (e : Expr) : Adds position d (d.nestTable position e).2 :=
  fun hfree => ⟨fun n hn => hfree n (Nat.lt_of_succ_lt hn), List.prefix_refl _⟩

theorem adds_nestHandle (d : Draft) (i : Instance) : Adds position d (d.nestHandle position i).2 := by
  intro hfree
  have hnew := hfree (d.nestedNames + 1) (Nat.lt_succ_self _)
  constructor
  · intro n hn hmem
    have hold := hfree n (Nat.lt_of_succ_lt hn)
    rcases Handles.names_refer_eq d.handles
      (LocalName.ofNested .reference position (d.nestedNames + 1)) i with he | he
    · exact hold (he ▸ hmem)
    · have hmem := he ▸ hmem
      rcases List.mem_append.1 hmem with hmem | hmem
      · exact hold hmem
      · -- the number just given is not a later one
        have hnum := (LocalName.ofNested_inj (List.mem_singleton.1 hmem)).2.2
        exact Nat.ne_of_gt hn hnum
  · rcases Handles.refer_entries hnew i with he | ⟨-, he⟩
    · exact he ▸ List.prefix_refl _
    · exact he ▸ List.prefix_append _ _

/-- If the names to be given are free, a refused argument leaves the handles as they were. -/
theorem NumbersFree.argument_refused (hfree : d.NumbersFree position)
    (h : d.argument scene position v = (.error cause, d')) : d'.handles = d.handles := by
  obtain ⟨pairs, d₁, ht, rfl⟩ := Drafting.argument_error_cases h
  have hadds : Adds position d d₁ :=
    (Drafting.table_moves Adds.refl Adds.trans adds_nestTable (fun _ d i => adds_nestHandle d i)
      deepestTable pairs).of_run_error ht
  exact Roster.truncate_of_prefix (hadds hfree).2

/-- Without handles for instances, a refused argument leaves the handles as they were. -/
theorem argument_refused_byPath (hpath : ¬ scene.settings.useInstanceIds = true)
    (h : d.argument scene position v = (.error cause, d')) : d'.handles = d.handles := by
  obtain ⟨pairs, d₁, ht, rfl⟩ := Drafting.argument_error_cases h
  have hsame : d₁.handles = d.handles :=
    (Drafting.table_moves (R := fun d d' => d'.handles = d.handles) (fun _ => rfl)
      (fun _ _ _ h h' => h'.trans h) (fun _ _ => rfl) (fun hids => absurd hids hpath)
      deepestTable pairs).of_run_error ht
  rw [hsame]
  exact Roster.truncate_of_prefix (List.prefix_refl _)

/-! ## A handle that is replaced -/

/-- Pairs with `m` empty tables, then an instance, then a table that is refused. -/
def probe (m : Nat) (i : Instance) : List (Value × Value) :=
  List.replicate m (.boolean true, .table []) ++
    [(.boolean true, .reference i), (.boolean true, .table [(.nil, .nil)])]

/-- Pairs with the same key stay in their order. -/
theorem ordered_of_keys_eq {pairs : List (Value × Value)} {k : Value}
    (hk : ∀ p ∈ pairs, p.1 = k) (hle : (Value.compareKeys k k).isLE) :
    Drafting.ordered scene pairs = pairs := by
  unfold Drafting.ordered
  split
  · refine List.mergeSort_of_pairwise (List.pairwise_of_forall_mem_list fun p hp q hq => ?_)
    rwa [hk p hp, hk q hq]
  · rfl

theorem ordered_probe (m : Nat) (i : Instance) :
    Drafting.ordered scene (probe m i) = probe m i := by
  refine ordered_of_keys_eq (k := .boolean true) (fun p hp => ?_) (by decide)
  rcases List.mem_append.1 hp with hp | hp
  · rw [List.eq_of_mem_replicate hp]
  · rcases List.mem_pair.1 hp with rfl | rfl <;> rfl

theorem nested_emptyTable (room : Nat) (d : Draft) :
    (Drafting.nested scene position (Drafting.table scene position (room + 1)) (.table [])).run d =
      .ok (.name (d.nestTable position (.table [])).1) (d.nestTable position (.table [])).2 := by
  refine Drafting.nested_ok_iff.2 (Or.inr (Or.inl ⟨[], .table [], d, rfl, ?_, rfl, rfl⟩))
  refine Drafting.table_ok_iff.2 ⟨[], ?_, rfl⟩
  rw [ordered_of_keys_eq (k := .nil) (by simp) (by decide)]
  exact .nil

theorem nested_nilKey (room : Nat) (d : Draft) :
    (Drafting.nested scene position (Drafting.table scene position (room + 1))
      (.table [(.nil, .nil)])).run d = .error .nilKey d := by
  refine Drafting.run_bind_of_error ?_ _
  rw [Drafting.table_succ, ← bind_pure_comp]
  refine Drafting.run_bind_of_error ?_ _
  rw [ordered_of_keys_eq (k := .nil) (by simp) (by decide)]
  rfl

/-- The fields come to the instance with the number behind those of the empty tables, and fail
    then. -/
theorem fields_probe (position room : Nat) (i : Instance)
    (hids : scene.settings.useInstanceIds = true) :
    ∀ (m next : Nat) (d : Draft), ∃ d₁ : Draft,
      (Drafting.fields (Drafting.nested scene position (Drafting.table scene position (room + 1)))
        next (probe m i)).run d = .error .nilKey (d₁.nestHandle position i).2 ∧
      d₁.handles = d.handles ∧ d₁.nestedNames = d.nestedNames + m
  | 0, next, d => by
    refine ⟨d, ?_, rfl, rfl⟩
    have hform : Drafting.form scene (.reference i) = .handle i := if_pos hids
    have hhandle : (Drafting.nested scene position (Drafting.table scene position (room + 1))
        (.reference i)).run d =
        .ok (.name (d.nestHandle position i).1) (d.nestHandle position i).2 :=
      Drafting.nested_ok_iff.2 (Or.inr (Or.inr ⟨i, hform, rfl, rfl⟩))
    -- the key, the instance; then the next key, and the table that is refused
    refine (Drafting.run_bind_of_ok rfl _).trans ((Drafting.run_bind_of_ok hhandle _).trans ?_)
    refine Drafting.run_bind_of_error ?_ _
    refine (Drafting.run_bind_of_ok rfl _).trans ?_
    exact Drafting.run_bind_of_error (nested_nilKey room _) _
  | m + 1, next, d => by
    obtain ⟨d₁, hrun, hhandles, hgiven⟩ := fields_probe position room i hids m next
      (d.nestTable position (.table [])).2
    refine ⟨d₁, ?_, hhandles, ?_⟩
    · refine (Drafting.run_bind_of_ok rfl _).trans
        ((Drafting.run_bind_of_ok (nested_emptyTable room d) _).trans ?_)
      exact Drafting.run_bind_of_error hrun _
    · calc d₁.nestedNames = d.nestedNames + 1 + m := hgiven
        _ = d.nestedNames + (m + 1) := by omega

theorem exists_debugId_not_mem (ids : List String) : ∃ id, id ∉ ids := by
  have hinj : Function.Injective fun n : Nat => String.ofList (List.replicate n 'a') := by
    intro m n h
    simpa using congrArg String.length h
  have : Infinite String := Infinite.of_injective _ hinj
  obtain ⟨id, hid⟩ := Infinite.exists_notMem_finset ids.toFinset
  exact ⟨id, fun hmem => hid (List.mem_toFinset.2 hmem)⟩

/-- **If a name to be given is that of a handle**, some refused argument replaces that handle. -/
theorem exists_refused_replacing (hids : scene.settings.useInstanceIds = true)
    (hfree : ¬ d.NumbersFree position) : ∃ v cause d',
      d.argument scene position v = (.error cause, d') ∧ d'.handles ≠ d.handles := by
  simp only [NumbersFree, not_forall, not_not] at hfree
  obtain ⟨n, hn, hmem⟩ := hfree
  obtain ⟨id, hid⟩ := exists_debugId_not_mem d.handles.debugIds
  let i : Instance := ⟨⟨id, "", "", .plain⟩, []⟩
  obtain ⟨d₁, hrun, hhandles, hgiven⟩ := fields_probe position 198 i hids
    (n - d.nestedNames - 1) 1 d
  have ht : (Drafting.table scene position deepestTable (probe (n - d.nestedNames - 1) i)).run d =
      .error .nilKey (d₁.nestHandle position i).2 := by
    rw [deepestTable, Drafting.table_succ, ← bind_pure_comp, ordered_probe]
    exact Drafting.run_bind_of_error hrun _
  have hnumber : d₁.nestedNames + 1 = n := by omega
  have hreferred : (d₁.nestHandle position i).2.handles =
      (d.handles.refer (LocalName.ofNested .reference position n) i).2 := by
    rw [Draft.nestHandle, hnumber, hhandles]
  refine ⟨.table (probe _ i), _, _, Drafting.argument_table_error rfl ht, fun heq => hid ?_⟩
  -- the names are as many as before, so nothing is dropped, and the instance has a handle
  rw [hreferred, Roster.truncate_of_names_eq (Handles.names_refer_of_mem hmem i)] at heq
  replace heq : (d.handles.refer (LocalName.ofNested .reference position n) i).2 = d.handles := heq
  obtain ⟨j, hj, hjd⟩ := Handles.names_refer d.handles (LocalName.ofNested .reference position n) i
  rw [heq] at hj
  exact List.mem_map.2 ⟨j, List.mem_map_of_mem hj, hjd⟩

/-- **Refused arguments leave no trace** in the locals and the names of the handles; and they leave
    none at all exactly if no name still to be given to an instance is that of a handle. -/
theorem refusal_traceless_iff (scene : Scene) (position : Nat) (d : Draft) :
    (∀ v cause d', d.argument scene position v = (.error cause, d') →
      d'.handles.names = d.handles.names ∧ d'.hoisted = d.hoisted) ∧
    ((∀ v cause d', d.argument scene position v = (.error cause, d') → d'.handles = d.handles) ↔
      (scene.settings.useInstanceIds = true → d.NumbersFree position)) := by
  refine ⟨fun _ _ _ => argument_refused_names, ?_, ?_⟩
  · intro hno hids
    by_contra hfree
    obtain ⟨v, cause, d', h, hne⟩ := exists_refused_replacing hids hfree
    exact hne (hno v cause d' h)
  · intro hfree v cause d' h
    by_cases hids : scene.settings.useInstanceIds = true
    · exact (hfree hids).argument_refused h
    · exact argument_refused_byPath hids h

/-- The handle of an earlier session has the name that the next session gives first, so a refused
    argument takes it for another instance. -/
theorem handle_replaced_by_refused :
    let scene : Scene := ⟨{}, fun i => i.name⟩
    let one : Instance := ⟨⟨"D1", "A", "Part", .plain⟩, []⟩
    let two : Instance := ⟨⟨"D2", "B", "Part", .plain⟩, []⟩
    let earlier : Draft := (Draft.argument scene 1 (.table [(.text "a", .reference one)]) {}).2
    let d : Draft := { handles := earlier.handles }
    ∃ d', d.argument scene 1 (.table [(.text "a", .reference two), (.nil, .nil)]) =
        (.error .nilKey, d') ∧
      d.handles.entries = [("_4lveInstance1_1", one)] ∧
      d'.handles.entries = [("_4lveInstance1_1", two)] := by
  intro scene one two earlier d
  have hname : LocalName.ofNested .reference 1 1 = "_4lveInstance1_1" := by decide
  rw [← hname]
  refine ⟨_, rfl, rfl, ?_⟩
  decide

end Draft

end Reenact
