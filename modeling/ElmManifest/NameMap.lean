/-!
# Maps keyed by name

Dependencies are declared by name.  A `NameMap` keeps its entries in the order of their names, so
that whatever walks over a map, resolution and error reports included, goes through it in one fixed
order.

## Main Definitions

* `NameMap` — entries in strictly ascending order of name.
* `NameMap.insert`, `NameMap.ofList` — building; a later entry replaces an earlier one of its name.
* `NameMap.find?` — look-up.
* `NameMap.filter` — the entries with a property.
* `NameMap.map` — the same names with other values.
* `NameMap.traverse` — a map whose values are computed one after the other, in order.

## Main Statements

* `NameMap.find?_eq_some_iff` — look-up finds exactly the entries.
* `NameMap.find?_insert`, `NameMap.find?_ofList` — look-up after building.
* `NameMap.toList_ofList` — entries that are in order already are kept as they are.
* `NameMap.mem_names_ofList` — the names after building are those that were listed.

## Design Notes

Names are compared by code point, which is also the order of their UTF-8 bytes.  As the order is
part of the type, two maps with the same entries are equal values.
-/

namespace ElmManifest

/-- Entries in strictly ascending order of name.  The order is part of the data, so a map is gone
through in one way only. -/
structure NameMap (α : Type) where
  /-- The entries. -/
  toList : List (String × α)
  /-- Each name comes before the next. -/
  ascending : toList.Pairwise fun a b => a.1 < b.1

namespace NameMap

variable {α β ε : Type}

instance [DecidableEq α] : DecidableEq (NameMap α) := fun a b =>
  if h : a.toList = b.toList then isTrue (by cases a; cases b; simpa using h)
  else isFalse fun e => h (e ▸ rfl)

/-- No entries. -/
def empty : NameMap α := ⟨[], .nil⟩

instance : Inhabited (NameMap α) := ⟨empty⟩

/-- The names, in order. -/
def names (m : NameMap α) : List String := m.toList.map Prod.fst

/-- The number of entries. -/
def size (m : NameMap α) : Nat := m.toList.length

/-- The value under a name. -/
def find? (m : NameMap α) (name : String) : Option α := m.toList.lookup name

/-- Whether there is a value under a name. -/
def contains (m : NameMap α) (name : String) : Bool := (m.find? name).isSome

/-- The entries after `value` has been put under `name`; an entry that is there already is replaced
where it stands. -/
def insertInto (name : String) (value : α) : List (String × α) → List (String × α)
  | [] => [(name, value)]
  | entry :: rest =>
    if name < entry.1 then (name, value) :: entry :: rest
    else if name = entry.1 then (name, value) :: rest
    else entry :: insertInto name value rest

/-- Every entry afterwards was there before or is the new one. -/
theorem mem_insertInto {name : String} {value : α} {entries : List (String × α)}
    {entry : String × α} (h : entry ∈ insertInto name value entries) :
    entry = (name, value) ∨ entry ∈ entries := by
  induction entries with
  | nil => simpa [insertInto] using h
  | cons first rest ih =>
    unfold insertInto at h
    split at h
    · simpa using h
    · split at h
      · rcases List.mem_cons.mp h with h | h
        · exact .inl h
        · exact .inr (List.mem_cons_of_mem _ h)
      · rcases List.mem_cons.mp h with h | h
        · exact .inr (h ▸ List.mem_cons_self ..)
        · exact (ih h).imp id (List.mem_cons_of_mem _)

theorem pairwise_insertInto {name : String} {value : α} {entries : List (String × α)}
    (h : entries.Pairwise fun a b => a.1 < b.1) :
    (insertInto name value entries).Pairwise fun a b => a.1 < b.1 := by
  induction entries with
  | nil => simp [insertInto]
  | cons first rest ih =>
    obtain ⟨hfirst, hrest⟩ := List.pairwise_cons.mp h
    unfold insertInto
    split
    next hlt =>
      refine List.pairwise_cons.mpr ⟨fun entry he => ?_, h⟩
      rcases List.mem_cons.mp he with rfl | he
      · exact hlt
      · exact String.lt_trans hlt (hfirst entry he)
    next hlt =>
      split
      next heq => exact List.pairwise_cons.mpr ⟨fun entry he => heq ▸ hfirst entry he, hrest⟩
      next hne =>
        refine List.pairwise_cons.mpr ⟨fun entry he => ?_, ih hrest⟩
        rcases mem_insertInto he with rfl | he
        · exact Std.lt_of_le_of_ne (Std.not_lt.mp hlt) (Ne.symm hne)
        · exact hfirst entry he

/-- The map with `value` under `name`. -/
def insert (m : NameMap α) (name : String) (value : α) : NameMap α :=
  ⟨insertInto name value m.toList, pairwise_insertInto m.ascending⟩

/-- The map of the listed entries; of several under one name the last one counts. -/
def ofList (entries : List (String × α)) : NameMap α :=
  entries.foldl (fun m entry => m.insert entry.1 entry.2) empty

/-- The entries with a property. -/
def filter (m : NameMap α) (p : String → α → Bool) : NameMap α :=
  ⟨m.toList.filter fun entry => p entry.1 entry.2, m.ascending.filter _⟩

/-- The map with every value replaced by its image. -/
def map (m : NameMap α) (f : α → β) : NameMap β :=
  ⟨m.toList.map fun entry => (entry.1, f entry.2), m.ascending.map _ fun _ _ h => h⟩

/-- Computes the values of a new map in the order of their names and stops at the first failure:
`collect` into a result. -/
def traverse (m : NameMap α) (f : String → α → Except ε β) : Except ε (NameMap β) := do
  let entries ← m.toList.mapM fun (name, value) => do return (name, ← f name value)
  return ofList entries

/-! ## Look-up and order -/

private theorem lookup_entry (first : String × α) (rest : List (String × α)) (name : String) :
    (first :: rest).lookup name = if name = first.1 then some first.2 else rest.lookup name := by
  rw [List.lookup_cons]
  split
  next h => rw [if_pos (by simpa using h)]
  next h => rw [if_neg (by simpa using h)]

private theorem lookup_insertInto (name other : String) (value : α)
    (entries : List (String × α)) :
    (insertInto name value entries).lookup other =
      if other = name then some value else entries.lookup other := by
  induction entries with
  | nil => simp [insertInto, lookup_entry]
  | cons first rest ih =>
    unfold insertInto
    split
    · rw [lookup_entry]
    · split
      next heq =>
        rw [lookup_entry, lookup_entry, heq]
        by_cases e : other = first.1 <;> simp [e]
      next hne =>
        rw [lookup_entry, lookup_entry, ih]
        by_cases e : other = first.1
        · simp [e, Ne.symm hne]
        · simp [e]

/-- After an insertion the new value is under its name, and every other value where it was. -/
theorem find?_insert (m : NameMap α) (name other : String) (value : α) :
    (m.insert name value).find? other = if other = name then some value else m.find? other :=
  lookup_insertInto name other value m.toList

/-- The value under a name is the one that is listed with it. -/
theorem find?_eq_some_iff {m : NameMap α} {name : String} {value : α} :
    m.find? name = some value ↔ (name, value) ∈ m.toList := by
  obtain ⟨entries, h⟩ := m
  change entries.lookup name = some value ↔ (name, value) ∈ entries
  induction entries with
  | nil => simp
  | cons first rest ih =>
    obtain ⟨hfirst, hrest⟩ := List.pairwise_cons.mp h
    rw [lookup_entry, List.mem_cons]
    split
    next e =>
      subst e
      constructor
      · intro h
        exact .inl (by rw [← Option.some.inj h])
      · rintro (h | h)
        · rw [← h]
        · exact absurd (hfirst _ h) Std.lt_irrefl
    next e =>
      rw [ih hrest]
      constructor
      · exact .inr
      · rintro (h | h)
        · exact absurd (congrArg Prod.fst h) e
        · exact h

private theorem insertInto_append {name : String} {value : α} {entries : List (String × α)}
    (h : ∀ entry ∈ entries, entry.1 < name) :
    insertInto name value entries = entries ++ [(name, value)] := by
  induction entries with
  | nil => rfl
  | cons first rest ih =>
    have hf := h first (List.mem_cons_self ..)
    have h₁ : ¬ name < first.1 := Std.not_lt.mpr (Std.le_of_lt hf)
    have h₂ : name ≠ first.1 := fun e => absurd hf (e ▸ Std.lt_irrefl)
    simp only [insertInto, h₁, h₂, if_false, List.cons_append]
    rw [ih fun entry he => h entry (List.mem_cons_of_mem _ he)]

private theorem toList_foldl_insert {entries : List (String × α)} {m : NameMap α}
    (h : (m.toList ++ entries).Pairwise fun a b => a.1 < b.1) :
    (entries.foldl (fun m entry => m.insert entry.1 entry.2) m).toList = m.toList ++ entries := by
  induction entries generalizing m with
  | nil => simp
  | cons first rest ih =>
    have hm : (m.insert first.1 first.2).toList = m.toList ++ [first] :=
      insertInto_append fun entry he => (List.pairwise_append.mp h).2.2 entry he first
        (List.mem_cons_self ..)
    rw [List.foldl_cons, ih (by rw [hm]; simpa using h), hm]
    simp

/-- The map of entries that are in order already has these entries. -/
theorem toList_ofList {entries : List (String × α)}
    (h : entries.Pairwise fun a b => a.1 < b.1) : (ofList entries).toList = entries := by
  simpa [ofList, empty] using toList_foldl_insert (m := empty) (by simpa [empty] using h)

/-- Of several entries under one name the last one counts. -/
theorem find?_ofList (entries : List (String × α)) (name : String) :
    (ofList entries).find? name = entries.reverse.lookup name := by
  have : ∀ m : NameMap α, (entries.foldl (fun m entry => m.insert entry.1 entry.2) m).find? name =
      (entries.reverse.lookup name).or (m.find? name) := by
    induction entries with
    | nil => intro m; rfl
    | cons first rest ih =>
      intro m
      rw [List.foldl_cons, ih, find?_insert, List.reverse_cons, List.lookup_append]
      by_cases e : name = first.1
      · cases rest.reverse.lookup name <;> simp [lookup_entry, e]
      · cases rest.reverse.lookup name <;> simp [lookup_entry, e]
  rw [ofList, this]
  cases entries.reverse.lookup name <;> rfl

theorem pairwise_names (m : NameMap α) : m.names.Pairwise (· < ·) :=
  m.ascending.map _ fun _ _ h => h

/-- The names of a map are those that there is a value under. -/
theorem mem_names_iff {m : NameMap α} {name : String} :
    name ∈ m.names ↔ ∃ value, m.find? name = some value := by
  simp [names, find?_eq_some_iff]

/-- The names of the map of listed entries are those that are listed. -/
theorem mem_names_ofList {entries : List (String × α)} {name : String} :
    name ∈ (ofList entries).names ↔ name ∈ entries.map Prod.fst := by
  rw [mem_names_iff, ← Option.isSome_iff_exists, find?_ofList, List.lookup_isSome_iff]
  simp

end NameMap

end ElmManifest
