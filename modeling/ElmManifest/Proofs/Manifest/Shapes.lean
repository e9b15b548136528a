import ElmManifest.Manifest.Decode
import ElmManifest.Proofs.Success

/-!
# Values of a shape

Which values the shape readers accept, and what they make of them.  Each reader is described by the
value that it reads: a text is a string, a list of texts is an array of strings, and so on, so that
what is read determines the part of the value that counts.

## Main Definitions

* `valuesUnder` — the values that are listed under a key, in order.
* `effectiveValue?` — the last one of them, which is the one that counts.
* `Json.textEntries` — entries that hold texts.

## Main Statements

* `NameMap.find?_ofList_eq_effectiveValue?`, `Json.find?_effective` — look-up finds the effective
  value.
* `NameMap.traverse_eq_ok_iff`, `NameMap.exists_traverse_eq_ok_iff`,
  `NameMap.exists_first_of_traverse_eq_error` — a map is read entry by entry, in order of name.
* `Json.asTexts_eq_ok_iff`, `Json.asTextMap_eq_ok_iff`, `Json.asModuleNames_eq_ok_iff`,
  `Json.asEffectiveTextMap_eq_ok_iff` — the values of a shape.
* `readText_eq_ok_iff` — a text is read exactly if its parser takes it.
-/

namespace ElmManifest

/-! ## Entries under a key -/

section Entries

variable {α : Type}

/-- The values that are listed under a key, in order. -/
def valuesUnder (key : String) (entries : List (String × α)) : List α :=
  (entries.filter fun entry => entry.1 == key).map Prod.snd

/-- The value that counts under a key: the last one. -/
def effectiveValue? (key : String) (entries : List (String × α)) : Option α :=
  (valuesUnder key entries).getLast?

theorem valuesUnder_cons_self (key : String) (value : α) (entries : List (String × α)) :
    valuesUnder key ((key, value) :: entries) = value :: valuesUnder key entries := by
  simp [valuesUnder]

theorem valuesUnder_cons_of_ne {key other : String} (h : other ≠ key) (value : α)
    (entries : List (String × α)) :
    valuesUnder key ((other, value) :: entries) = valuesUnder key entries := by
  simp [valuesUnder, h]

/-- The first value under a key is the one that a look-up in source order finds. -/
theorem lookup_eq_head?_valuesUnder (key : String) (entries : List (String × α)) :
    entries.lookup key = (valuesUnder key entries).head? := by
  induction entries with
  | nil => rfl
  | cons entry entries ih =>
    obtain ⟨other, value⟩ := entry
    by_cases h : other = key
    · subst h
      rw [valuesUnder_cons_self, List.lookup_cons_self, List.head?_cons]
    · rw [valuesUnder_cons_of_ne h, ← ih, List.lookup_cons, beq_false_of_ne (Ne.symm h)]

/-- What counts under a key is listed there. -/
theorem mem_of_effectiveValue?_eq_some {key : String} {value : α} {entries : List (String × α)}
    (h : effectiveValue? key entries = some value) : (key, value) ∈ entries := by
  have hmem : value ∈ valuesUnder key entries := List.mem_of_getLast? h
  simp only [valuesUnder, List.mem_map, List.mem_filter, beq_iff_eq] at hmem
  obtain ⟨⟨_, _⟩, ⟨hentry, rfl⟩, rfl⟩ := hmem
  exact hentry

theorem valuesUnder_reverse (key : String) (entries : List (String × α)) :
    valuesUnder key entries.reverse = (valuesUnder key entries).reverse := by
  simp [valuesUnder, List.filter_reverse, List.map_reverse]

end Entries

/-! ## Maps -/

namespace NameMap

variable {α β ε : Type}

/-- Maps with the same entries are the same. -/
theorem ext {m n : NameMap α} (h : m.toList = n.toList) : m = n := by
  cases m
  cases n
  simpa using h

theorem ofList_toList (m : NameMap α) : ofList m.toList = m :=
  ext (toList_ofList m.ascending)

/-- The value that a map of entries has under a name is the last one that is listed. -/
theorem find?_ofList_eq_effectiveValue? (entries : List (String × α)) (name : String) :
    (ofList entries).find? name = effectiveValue? name entries := by
  rw [find?_ofList, lookup_eq_head?_valuesUnder, valuesUnder_reverse, List.head?_reverse,
    effectiveValue?]

/-- Computing the values of entries keeps their names. -/
theorem mapM_entries_eq_ok_iff {f : String → α → Except ε β} {entries : List (String × α)}
    {results : List (String × β)} :
    entries.mapM (fun (name, value) => do return (name, ← f name value)) = .ok results ↔
      List.Forall₂ (fun a b => a.1 = b.1 ∧ f a.1 a.2 = .ok b.2) entries results := by
  rw [List.mapM_eq_ok_iff]
  have hentry : ∀ (a : String × α) (b : String × β),
      (do return (a.1, ← f a.1 a.2) : Except ε (String × β)) = .ok b ↔
        a.1 = b.1 ∧ f a.1 a.2 = .ok b.2 := by
    rintro ⟨name, value⟩ ⟨name', value'⟩
    simp [and_comm]
  simp only [hentry]

theorem names_eq_of_forall₂ {p : String × α → String × β → Prop} {entries : List (String × α)}
    {results : List (String × β)}
    (h : List.Forall₂ (fun a b => a.1 = b.1 ∧ p a b) entries results) :
    entries.map Prod.fst = results.map Prod.fst := by
  induction h with
  | nil => rfl
  | cons hentry _ ih => rw [List.map_cons, List.map_cons, hentry.1, ih]

/-- A map is read entry by entry: each entry has its counterpart under the same name. -/
theorem traverse_eq_ok_iff {m : NameMap α} {f : String → α → Except ε β} {n : NameMap β} :
    m.traverse f = .ok n ↔
      List.Forall₂ (fun a b => a.1 = b.1 ∧ f a.1 a.2 = .ok b.2) m.toList n.toList := by
  unfold traverse
  rw [Except.bind_eq_ok_iff]
  simp only [mapM_entries_eq_ok_iff, Except.pure_eq_ok_iff]
  constructor
  · rintro ⟨entries, h, rfl⟩
    have hascending : entries.Pairwise fun a b => a.1 < b.1 := by
      have := List.pairwise_map.mpr m.ascending
      rw [names_eq_of_forall₂ h] at this
      exact List.pairwise_map.mp this
    rwa [toList_ofList hascending]
  · intro h
    exact ⟨n.toList, h, ofList_toList n⟩

/-- A map can be read exactly if every value that can be looked up in it can. -/
theorem exists_traverse_eq_ok_iff {m : NameMap α} {f : String → α → Except ε β} :
    (∃ n, m.traverse f = .ok n) ↔
      ∀ name value, m.find? name = some value → ∃ result, f name value = .ok result := by
  have htraverse : (∃ n, m.traverse f = .ok n) ↔
      ∃ results, m.toList.mapM (fun (name, value) => do return (name, ← f name value)) =
        .ok results := by
    unfold traverse
    simp
  rw [htraverse, List.exists_mapM_eq_ok_iff]
  simp only [find?_eq_some_iff, Prod.forall]
  apply forall_congr'
  intro name
  apply forall_congr'
  intro value
  apply imp_congr_right
  intro _
  simp

/-- If it cannot be read, the value under some name is to blame, and those under smaller names can
be read. -/
theorem exists_first_of_traverse_eq_error {m : NameMap α} {f : String → α → Except ε β} {e : ε}
    (h : m.traverse f = .error e) : ∃ name value, m.find? name = some value ∧
      f name value = .error e ∧ ∀ other value', m.find? other = some value' → other < name →
        ∃ result, f other value' = .ok result := by
  unfold traverse at h
  cases hentries : m.toList.mapM fun (name, value) => do return (name, ← f name value) with
  | ok results =>
    rw [hentries] at h
    cases h
  | error found =>
    rw [hentries] at h
    cases h
    obtain ⟨before, ⟨name, value⟩, after, hsplit, hbefore, hfirst⟩ :=
      List.exists_first_of_mapM_eq_error hentries
    have hread : f name value = .error e := by
      cases hvalue : f name value with
      | ok result =>
        dsimp only at hfirst
        rw [hvalue] at hfirst
        cases hfirst
      | error fault =>
        dsimp only at hfirst
        rw [hvalue] at hfirst
        cases hfirst
        rfl
    -- The entries are in order of name, so those with smaller names are in front of the one that
    -- fails.
    have hascending := m.ascending
    rw [hsplit, List.pairwise_append, List.pairwise_cons] at hascending
    obtain ⟨-, ⟨hafter, -⟩, -⟩ := hascending
    refine ⟨name, value, find?_eq_some_iff.mpr (by simp [hsplit]), hread, ?_⟩
    intro other value' hother hlt
    rw [find?_eq_some_iff, hsplit, List.mem_append, List.mem_cons] at hother
    obtain hmem | hsame | hmem := hother
    · obtain ⟨_, hresult⟩ := hbefore _ hmem
      obtain ⟨result, hresult, -⟩ := Except.bind_eq_ok_iff.mp hresult
      exact ⟨result, hresult⟩
    · cases hsame
      exact absurd hlt Std.lt_irrefl
    · exact absurd hlt (Std.not_gt_of_lt (hafter _ hmem))

end NameMap

/-! ## Shapes -/

namespace Json

/-- Look-up among the entries that count finds the effective value. -/
theorem find?_effective (entries : List (String × Json)) (key : String) :
    (effective entries).find? key = effectiveValue? key entries :=
  NameMap.find?_ofList_eq_effectiveValue? entries key

theorem asText_eq_ok_iff {value : Json} {text : String} :
    value.asText = .ok text ↔ value = .string text := by
  cases value <;> simp [asText]

/-- Reading texts one by one is reading the strings that hold them. -/
theorem mapM_asText_eq_ok_iff {items : List Json} {texts : List String} :
    items.mapM asText = .ok texts ↔ items = texts.map .string := by
  rw [List.mapM_eq_ok_iff]
  simp only [asText_eq_ok_iff]
  rw [← List.forall₂_eq_eq_eq, List.forall₂_map_right_iff]

/-- A list of texts is an array of strings. -/
theorem asTexts_eq_ok_iff {value : Json} {texts : List String} :
    value.asTexts = .ok texts ↔ value = .array (texts.map .string) := by
  cases value with
  | array items => simp [asTexts, mapM_asText_eq_ok_iff]
  | _ => simp [asTexts]

theorem asOptionalText_eq_ok_iff {value : Json} {text : Option String} :
    value.asOptionalText = .ok text ↔ value = text.elim .null .string := by
  cases value <;> cases text <;> simp [asOptionalText, asText]

/-- The entries that hold texts. -/
def textEntries (texts : List (String × String)) : List (String × Json) :=
  texts.map fun entry => (entry.1, .string entry.2)

theorem entriesAsTexts_eq_ok_iff {entries : List (String × Json)}
    {texts : List (String × String)} :
    entriesAsTexts entries = .ok texts ↔ entries = textEntries texts := by
  have hread : entriesAsTexts entries = .ok texts ↔
      List.Forall₂ (fun a b => a.1 = b.1 ∧ a.2.asText = .ok b.2) entries texts :=
    NameMap.mapM_entries_eq_ok_iff (f := fun (_ : String) (value : Json) => value.asText)
  apply hread.trans
  unfold textEntries
  rw [← List.forall₂_eq_eq_eq, List.forall₂_map_right_iff]
  simp only [asText_eq_ok_iff, Prod.ext_iff]

/-- A map of texts is an object of strings; under each name the last one counts. -/
theorem asTextMap_eq_ok_iff {value : Json} {m : NameMap String} :
    value.asTextMap = .ok m ↔
      ∃ texts, value = .object (textEntries texts) ∧ NameMap.ofList texts = m := by
  cases value with
  | object entries => simp [asTextMap, entriesAsTexts_eq_ok_iff]
  | _ => simp [asTextMap]

/-- Module names are an array of strings, or an object of such arrays. -/
theorem asModuleNames_eq_ok_iff {value : Json} {names : List String} :
    value.asModuleNames = .ok names ↔ value = .array (names.map .string) ∨
      ∃ entries groups, value = .object entries ∧
        List.Forall₂ (fun entry group => entry.2 = .array (group.map .string)) entries groups ∧
        groups.flatten = names := by
  cases value with
  | array items => simp [asModuleNames, mapM_asText_eq_ok_iff]
  | object entries => simp [asModuleNames, List.mapM_eq_ok_iff, asTexts_eq_ok_iff]
  | _ => simp [asModuleNames]

/-- A map of effective texts is an object whose effective values are strings. -/
theorem asEffectiveTextMap_eq_ok_iff {value : Json} {m : NameMap String} :
    value.asEffectiveTextMap = .ok m ↔
      ∃ entries, value = .object entries ∧ (effective entries).toList = textEntries m.toList := by
  cases value with
  | object entries =>
    have hentries : (effective entries).toList = textEntries m.toList ↔ List.Forall₂
        (fun a b => a.1 = b.1 ∧ a.2 = .string b.2) (effective entries).toList m.toList := by
      unfold textEntries
      rw [← List.forall₂_eq_eq_eq, List.forall₂_map_right_iff]
      simp only [Prod.ext_iff]
    simp [asEffectiveTextMap, NameMap.traverse_eq_ok_iff, asText_eq_ok_iff, hentries]
  | _ => simp [asEffectiveTextMap]

end Json

/-! ## Texts that are read further -/

/-- A text is read exactly if its parser takes it. -/
theorem readText_eq_ok_iff {ε α : Type} {parse : String → Except ε α}
    {fault : String → ε → SchemaFault} {field text : String} {a : α} :
    readText parse fault field text = .ok a ↔ parse text = .ok a :=
  Except.mapError_eq_ok_iff

end ElmManifest
