/-
  Rosters: named entries in the order in which their names first came.

  A name has at most one entry.  `alter` is the one operation that adds or changes entries: an entry
  that is there changes in its place, a new one goes to the end.

  * `names_alter`: the names after it;
  * `names_alter_of_eraseDups`: the names are the first occurrences of all names that came;
  * `get?_alter`: what is found after it under any name.
-/

namespace Reenact

/-- Named entries in the order of their first coming. -/
structure Roster (α : Type) where
  entries : List (String × α)
  names_nodup : (entries.map Prod.fst).Nodup

namespace Roster

variable {α : Type}

/-- The roster without entries. -/
def empty : Roster α := ⟨[], List.nodup_nil⟩

instance : EmptyCollection (Roster α) := ⟨empty⟩

@[simp] theorem entries_empty : (empty : Roster α).entries = [] := rfl

/-- The names, in order. -/
def names (r : Roster α) : List String := r.entries.map Prod.fst

/-- The entries without their names, in order. -/
def values (r : Roster α) : List α := r.entries.map Prod.snd

def size (r : Roster α) : Nat := r.entries.length

def isEmpty (r : Roster α) : Bool := r.entries.isEmpty

/-- The entry with a name. -/
def get? (r : Roster α) (name : String) : Option α := r.entries.lookup name

/-- Changes the first entry with a name, or adds one at the end. -/
def alterEntries (name : String) (f : Option α → α) : List (String × α) → List (String × α)
  | [] => [(name, f none)]
  | (n, a) :: rest =>
    if n = name then (n, f (some a)) :: rest else (n, a) :: alterEntries name f rest

theorem map_fst_alterEntries (name : String) (f : Option α → α) (entries : List (String × α)) :
    (alterEntries name f entries).map Prod.fst =
      if name ∈ entries.map Prod.fst then entries.map Prod.fst
      else entries.map Prod.fst ++ [name] := by
  induction entries with
  | nil => simp [alterEntries]
  | cons e rest ih =>
    by_cases h : e.1 = name
    · simp [alterEntries, h]
    · have h' : name ≠ e.1 := fun e' => h e'.symm
      simp only [alterEntries, h, if_false, List.map_cons, ih, List.mem_cons, h', false_or]
      split <;> simp

theorem nodup_alterEntries (name : String) (f : Option α → α) {entries : List (String × α)}
    (h : (entries.map Prod.fst).Nodup) : ((alterEntries name f entries).map Prod.fst).Nodup := by
  rw [map_fst_alterEntries]
  split
  · exact h
  · rename_i hn
    rw [List.nodup_append]
    exact ⟨h, by simp, fun a ha b hb => by simp at hb; exact fun e => hn (hb ▸ e ▸ ha)⟩

/-- Changes the entry with a name in its place, or adds one at the end. -/
def alter (r : Roster α) (name : String) (f : Option α → α) : Roster α where
  entries := alterEntries name f r.entries
  names_nodup := nodup_alterEntries name f r.names_nodup

/-- Puts an entry under a name, in the place of the former one if there is one. -/
def put (r : Roster α) (name : String) (a : α) : Roster α := r.alter name fun _ => a

/-- The first entries, at most `n` of them. -/
def truncate (r : Roster α) (n : Nat) : Roster α where
  entries := r.entries.take n
  names_nodup := by
    rw [List.map_take]
    exact r.names_nodup.sublist (List.take_sublist _ _)

/-! ## First occurrences -/

theorem eraseDups_append_of_mem {ids : List String} {id : String} (h : id ∈ ids) :
    (ids ++ [id]).eraseDups = ids.eraseDups := by
  simp [List.eraseDups_append, List.removeAll, h]

theorem eraseDups_append_of_not_mem {ids : List String} {id : String} (h : id ∉ ids) :
    (ids ++ [id]).eraseDups = ids.eraseDups ++ [id] := by
  simp [List.eraseDups_append, List.removeAll, h, List.eraseDups_cons]

/-! ## Laws -/

theorem names_alter (r : Roster α) (name : String) (f : Option α → α) :
    (r.alter name f).names = if name ∈ r.names then r.names else r.names ++ [name] :=
  map_fst_alterEntries name f r.entries

theorem names_alter_of_eraseDups {r : Roster α} {came : List String} (h : r.names = came.eraseDups)
    (name : String) (f : Option α → α) :
    (r.alter name f).names = (came ++ [name]).eraseDups := by
  rw [names_alter, h]
  split
  · rename_i hmem
    rw [eraseDups_append_of_mem (List.mem_eraseDups.1 hmem)]
  · rename_i hmem
    rw [eraseDups_append_of_not_mem fun hc => hmem (List.mem_eraseDups.2 hc)]

theorem lookup_cons (n m : String) (a : α) (rest : List (String × α)) :
    ((n, a) :: rest).lookup m = if m = n then some a else rest.lookup m := by
  by_cases h : m = n
  · simp [h]
  · simp [List.lookup_cons, h, beq_eq_false_iff_ne.2 h]

theorem lookup_alterEntries (name m : String) (f : Option α → α) (entries : List (String × α)) :
    (alterEntries name f entries).lookup m =
      if m = name then some (f (entries.lookup name)) else entries.lookup m := by
  induction entries with
  | nil => simp [alterEntries, lookup_cons]
  | cons e rest ih =>
    rcases e with ⟨n, a⟩
    by_cases hn : n = name
    · subst hn
      by_cases hm : m = n <;> simp [alterEntries, lookup_cons, hm]
    · have hn' : ¬name = n := fun e => hn e.symm
      by_cases hm : m = n
      · simp [alterEntries, hn, hm]
      · simp [alterEntries, lookup_cons, hn, hn', hm, ih]

theorem get?_alter (r : Roster α) (name m : String) (f : Option α → α) :
    (r.alter name f).get? m = if m = name then some (f (r.get? name)) else r.get? m :=
  lookup_alterEntries name m f r.entries

end Roster

end Reenact
