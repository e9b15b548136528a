import ElmManifest.Proofs.Manifest.Fields

/-!
# Accepted manifests

The schema of a manifest, said without reading anything: which keys an object has to have, how often
they may be there, and what their values look like.  A manifest is decoded exactly if the object
meets the schema of its kind.

The fields of a manifest and the maps of a package are read from the entries as they are written, so
every one of them has to be in shape.  The dependencies of an application are read from the entries
that count, so an entry that a later one replaces may have any value.

## Main Definitions

* `Once`, `AtMostOnce` — how often a key is there, and with what value.
* `Json.IsText`, `Json.IsTexts`, `Json.IsModuleNames`, `Json.IsRanges`, `Json.IsPins` — shapes.
* `Application.Accepts`, `Package.Accepts`, `LegacyManifest.Accepts`, `Manifest.Accepts` — schemas.

## Main Statements

* `Manifest.exists_decode_eq_ok_iff` — a manifest is decoded exactly if its object is accepted.
-/

namespace ElmManifest

/-! ## Keys -/

/-- The key is there once, with such a value. -/
def Once (key : String) (p : Json → Prop) (entries : List (String × Json)) : Prop :=
  ∃ value, valuesUnder key entries = [value] ∧ p value

/-- The key is missing, or it is there once, with such a value. -/
def AtMostOnce (key : String) (p : Json → Prop) (entries : List (String × Json)) : Prop :=
  valuesUnder key entries = [] ∨ Once key p entries

namespace Field

variable {α : Type} {f : Field α} {entries : List (String × Json)}

/-- A required field holds something that passes a further check exactly if its key is there once,
with a value for which that is so. -/
theorem exists_holds_iff {p : α → Prop} {q : Json → Prop}
    (hq : ∀ value, (∃ a, f.read value = .ok a ∧ p a) ↔ q value) :
    (∃ a, f.Holds entries a ∧ p a) ↔ Once f.key q entries := by
  constructor
  · rintro ⟨a, ⟨value, hvalue, hread⟩, ha⟩
    exact ⟨value, hvalue, (hq value).mp ⟨a, hread, ha⟩⟩
  · rintro ⟨value, hvalue, hv⟩
    obtain ⟨a, hread, ha⟩ := (hq value).mpr hv
    exact ⟨a, ⟨value, hvalue, hread⟩, ha⟩

/-- As `exists_holds_iff`, for a value of which nothing more is asked than its shape. -/
theorem exists_holds_iff_once {q : Json → Prop}
    (hq : ∀ value, (∃ a, f.read value = .ok a) ↔ q value) :
    (∃ a, f.Holds entries a) ↔ Once f.key q entries := by
  simpa using exists_holds_iff (p := fun _ => True) (by simpa using hq)

/-- An optional field may also be missing, if nothing passes the check. -/
theorem exists_mayHold_iff {p : Option α → Prop} {q : Json → Prop} (hnone : p none)
    (hq : ∀ value, (∃ a, f.read value = .ok a ∧ p (some a)) ↔ q value) :
    (∃ held, f.MayHold entries held ∧ p held) ↔ AtMostOnce f.key q entries := by
  constructor
  · rintro ⟨_ | a, hheld, ha⟩
    · exact .inl hheld
    · exact .inr ((exists_holds_iff hq).mp ⟨a, hheld, ha⟩)
  · rintro (hmissing | honce)
    · exact ⟨none, hmissing, hnone⟩
    · obtain ⟨a, hheld, ha⟩ := (exists_holds_iff hq).mpr honce
      exact ⟨some a, hheld, ha⟩

theorem exists_mayHold_iff_atMostOnce {q : Json → Prop}
    (hq : ∀ value, (∃ a, f.read value = .ok a) ↔ q value) :
    (∃ held, f.MayHold entries held) ↔ AtMostOnce f.key q entries := by
  simpa using exists_mayHold_iff (p := fun _ => True) trivial (by simpa using hq)

end Field

/-! ## Shapes -/

namespace Json

/-- A string with such a text. -/
def IsTextThat (p : String → Prop) (value : Json) : Prop :=
  ∃ text, value = .string text ∧ p text

/-- A string. -/
def IsText : Json → Prop :=
  IsTextThat fun _ => True

/-- A string that holds a version. -/
def IsVersion : Json → Prop :=
  IsTextThat fun text => ∃ version, Version.parse text = .ok version

/-- A string that holds a constraint. -/
def IsConstraint : Json → Prop :=
  IsTextThat fun text => ∃ range, Constraint.parse text = .ok range

/-- A string or `null`. -/
def IsOptionalText (value : Json) : Prop :=
  value = .null ∨ IsText value

/-- An array of strings. -/
def IsTexts (value : Json) : Prop :=
  ∃ items, value = .array items ∧ ∀ item ∈ items, IsText item

/-- An array of strings, or an object of such arrays. -/
def IsModuleNames (value : Json) : Prop :=
  IsTexts value ∨ ∃ entries, value = .object entries ∧ ∀ entry ∈ entries, IsTexts entry.2

/-- An object of strings, those that count being constraints. -/
def IsRanges (value : Json) : Prop :=
  ∃ entries, value = .object entries ∧ (∀ entry ∈ entries, IsText entry.2) ∧
    ∀ name range, effectiveValue? name entries = some range → IsConstraint range

/-- An object whose values that count are versions. -/
def IsPinGroup (value : Json) : Prop :=
  ∃ entries, value = .object entries ∧
    ∀ name version, effectiveValue? name entries = some version → IsVersion version

/-- An object whose groups that count, as far as they are there, are objects of versions. -/
def IsPins (value : Json) : Prop :=
  ∃ entries, value = .object entries ∧ ∀ key ∈ ["direct", "indirect"], ∀ group,
    effectiveValue? key entries = some group → IsPinGroup group

end Json

/-! ## Schemas -/

/-- The schema of an application.  The keys are those of the fields of an application; other keys
may be there with any values. -/
structure Application.Accepts (entries : List (String × Json)) : Prop where
  /-- The source directories are there. -/
  sourceDirectories : Once "source-directories" Json.IsTexts entries
  /-- The compiler version is there. -/
  elmVersion : Once "elm-version" Json.IsVersion entries
  /-- The dependencies are there. -/
  dependencies : Once "dependencies" Json.IsPins entries
  /-- The test dependencies may be there. -/
  testDependencies : AtMostOnce "test-dependencies" Json.IsPins entries

/-- The schema of a package.  Of the name it is asked that it is not empty, and not that it is of
the form `author/project`. -/
structure Package.Accepts (entries : List (String × Json)) : Prop where
  /-- The name is there, and not empty. -/
  name : Once "name" (Json.IsTextThat (· ≠ "")) entries
  /-- The version is there. -/
  version : Once "version" Json.IsVersion entries
  /-- The description may be there. -/
  summary : AtMostOnce "summary" Json.IsOptionalText entries
  /-- The licence may be there. -/
  license : AtMostOnce "license" Json.IsOptionalText entries
  /-- The accepted compiler versions are there. -/
  elmVersion : Once "elm-version" Json.IsConstraint entries
  /-- The exposed modules may be there. -/
  exposedModules : AtMostOnce "exposed-modules" Json.IsModuleNames entries
  /-- The dependencies may be there. -/
  dependencies : AtMostOnce "dependencies" Json.IsRanges entries
  /-- The test dependencies may be there. -/
  testDependencies : AtMostOnce "test-dependencies" Json.IsRanges entries

/-- The schema of a manifest in the older layout. -/
structure LegacyManifest.Accepts (entries : List (String × Json)) : Prop where
  /-- The accepted compiler versions are there. -/
  elmVersion : Once "elm-version" Json.IsConstraint entries
  /-- The source directories may be there. -/
  sourceDirectories : AtMostOnce "source-directories" Json.IsTexts entries
  /-- The exposed modules may be there. -/
  exposedModules : AtMostOnce "exposed-modules" Json.IsModuleNames entries
  /-- The dependencies may be there. -/
  dependencies : AtMostOnce "dependencies" Json.IsRanges entries

/-- The schema of the manifest at a path: of the older layout if its file name says so, and else of
the kind that the effective `type` names. -/
def Manifest.Accepts (path : Path) (entries : List (String × Json)) : Prop :=
  if Manifest.isLegacyPath path then LegacyManifest.Accepts entries
  else effectiveValue? "type" entries = some (.string "application") ∧
      Application.Accepts entries ∨
    effectiveValue? "type" entries = some (.string "package") ∧ Package.Accepts entries

/-! ## Values in shape are those that are read -/

namespace NameMap

variable {α β γ ε ε' : Type}

private theorem lookup_of_forall₂ {f : String → α → Except ε β} {entries : List (String × α)}
    {results : List (String × β)}
    (h : List.Forall₂ (fun a b => a.1 = b.1 ∧ f a.1 a.2 = .ok b.2) entries results)
    {name : String} {b : β} :
    results.lookup name = some b ↔ ∃ a, entries.lookup name = some a ∧ f name a = .ok b := by
  induction h with
  | nil => simp
  | @cons entry result entries results hentry _ ih =>
    obtain ⟨key, value⟩ := entry
    obtain ⟨key', read⟩ := result
    obtain ⟨rfl, hread⟩ := hentry
    by_cases hname : name = key
    · subst hname
      simp only [List.lookup_cons_self, Option.some.injEq, exists_eq_left']
      exact ⟨fun he => he ▸ hread, fun he => Except.ok.inj (hread.symm.trans he)⟩
    · simp only [List.lookup_cons, beq_false_of_ne hname]
      exact ih

/-- Under each name, a map that has been read has what the other one has there, read. -/
theorem find?_of_traverse {m : NameMap α} {f : String → α → Except ε β} {n : NameMap β}
    (h : m.traverse f = .ok n) {name : String} {b : β} :
    n.find? name = some b ↔ ∃ a, m.find? name = some a ∧ f name a = .ok b :=
  lookup_of_forall₂ (traverse_eq_ok_iff.mp h)

/-- A map is read twice over exactly if every value in it is. -/
theorem exists_traverse_traverse_iff {m : NameMap α} {f : String → α → Except ε β}
    {g : String → β → Except ε' γ} :
    (∃ n, m.traverse f = .ok n ∧ ∃ r, n.traverse g = .ok r) ↔
      ∀ name a, m.find? name = some a → ∃ b, f name a = .ok b ∧ ∃ c, g name b = .ok c := by
  constructor
  · rintro ⟨n, hn, hr⟩ name a ha
    obtain ⟨b, hb⟩ := exists_traverse_eq_ok_iff.mp ⟨n, hn⟩ name a ha
    exact ⟨b, hb, exists_traverse_eq_ok_iff.mp hr name b ((find?_of_traverse hn).mpr ⟨a, ha, hb⟩)⟩
  · intro h
    obtain ⟨n, hn⟩ := exists_traverse_eq_ok_iff.mpr fun name a ha =>
      (h name a ha).imp fun _ hb => hb.1
    refine ⟨n, hn, exists_traverse_eq_ok_iff.mpr fun name b hb => ?_⟩
    obtain ⟨a, ha, hread⟩ := (find?_of_traverse hn).mp hb
    obtain ⟨b', hread', hc⟩ := h name a ha
    obtain rfl := Except.ok.inj (hread.symm.trans hread')
    exact hc

end NameMap

namespace Json

theorem exists_asText_iff {value : Json} : (∃ text, value.asText = .ok text) ↔ IsText value := by
  simp [asText_eq_ok_iff, IsText, IsTextThat]

theorem exists_asTexts_iff {value : Json} :
    (∃ texts, value.asTexts = .ok texts) ↔ IsTexts value := by
  unfold IsTexts
  cases value with
  | array items => simp [asTexts, List.exists_mapM_eq_ok_iff, exists_asText_iff]
  | _ => simp [asTexts]

theorem exists_asOptionalText_iff {value : Json} :
    (∃ text, value.asOptionalText = .ok text) ↔ IsOptionalText value := by
  simp [asOptionalText_eq_ok_iff, IsOptionalText, IsText, IsTextThat, Option.exists]

theorem exists_asModuleNames_iff {value : Json} :
    (∃ names, value.asModuleNames = .ok names) ↔ IsModuleNames value := by
  unfold IsModuleNames
  cases value with
  | array items =>
    simp [asModuleNames, IsTexts, List.exists_mapM_eq_ok_iff, exists_asText_iff]
  | object entries =>
    have hgroups : (∃ names, asModuleNames (.object entries) = .ok names) ↔
        ∃ groups, entries.mapM (fun entry => entry.2.asTexts) = .ok groups := by
      simp [asModuleNames]
    rw [hgroups, List.exists_mapM_eq_ok_iff]
    simp [exists_asTexts_iff, IsTexts]
  | _ => simp [asModuleNames, IsTexts]

/-- Entries hold texts if each of them does. -/
theorem exists_textEntries_iff {entries : List (String × Json)} :
    (∃ texts, entries = textEntries texts) ↔ ∀ entry ∈ entries, IsText entry.2 := by
  simp only [← entriesAsTexts_eq_ok_iff, entriesAsTexts, List.exists_mapM_eq_ok_iff,
    ← exists_asText_iff]
  apply forall₂_congr
  rintro ⟨key, value⟩ _
  simp

theorem effectiveValue?_textEntries (name : String) (texts : List (String × String)) :
    effectiveValue? name (textEntries texts) = (effectiveValue? name texts).map .string := by
  simp [effectiveValue?, valuesUnder, textEntries, List.filter_map, Function.comp_def,
    List.getLast?_map]

/-- A map of constraints is read exactly from an object of ranges. -/
theorem exists_readConstraints_iff {field : String} {value : Json} :
    (∃ texts, value.asTextMap = .ok texts ∧ ∃ ranges, readConstraints field texts = .ok ranges) ↔
      IsRanges value := by
  simp only [asTextMap_eq_ok_iff, readTexts, NameMap.exists_traverse_eq_ok_iff,
    readText_eq_ok_iff]
  constructor
  · rintro ⟨_, ⟨texts, rfl, rfl⟩, hread⟩
    refine ⟨_, rfl, exists_textEntries_iff.mp ⟨texts, rfl⟩, fun name range hrange => ?_⟩
    rw [effectiveValue?_textEntries, Option.map_eq_some_iff] at hrange
    obtain ⟨text, htext, rfl⟩ := hrange
    rw [← NameMap.find?_ofList_eq_effectiveValue?] at htext
    exact ⟨text, rfl, hread name text htext⟩
  · rintro ⟨entries, rfl, htexts, hranges⟩
    obtain ⟨texts, rfl⟩ := exists_textEntries_iff.mpr htexts
    refine ⟨_, ⟨texts, rfl, rfl⟩, fun name text htext => ?_⟩
    rw [NameMap.find?_ofList_eq_effectiveValue?] at htext
    obtain ⟨text', htext', hread⟩ := hranges name (.string text) (by
      rw [effectiveValue?_textEntries, htext, Option.map_some])
    rwa [Json.string.inj htext']

/-- A map of versions is read exactly from a group of pins. -/
theorem exists_readVersions_iff {field : String} {value : Json} :
    (∃ texts, value.asEffectiveTextMap = .ok texts ∧
      ∃ versions, readVersions field texts = .ok versions) ↔ IsPinGroup value := by
  cases value with
  | object entries =>
    simp only [asEffectiveTextMap, readTexts, NameMap.exists_traverse_traverse_iff,
      readText_eq_ok_iff, asText_eq_ok_iff]
    simp [IsPinGroup, IsVersion, IsTextThat, find?_effective]
  | _ => simp [asEffectiveTextMap, IsPinGroup]

end Json

/-- A group of dependencies is read exactly if it is missing or a group of pins. -/
theorem ExactDependencyTexts.exists_group_iff {field key : String}
    {entries : List (String × Json)} :
    (∃ texts, group (Json.effective entries) key = .ok texts ∧
      ∃ versions, ElmManifest.readVersions field texts = .ok versions) ↔
      ∀ value, effectiveValue? key entries = some value → Json.IsPinGroup value := by
  unfold group
  rw [Json.find?_effective]
  cases effectiveValue? key entries with
  | none => exact iff_of_true ⟨.empty, rfl, .empty, rfl⟩ (by simp)
  | some value =>
    simp only [Except.mapError_eq_ok_iff, Json.exists_readVersions_iff, Option.some.injEq,
      forall_eq']

theorem ExactDependencyTexts.exists_readVersions_iff {field : String} {value : Json} :
    (∃ texts, ofJson value = .ok texts ∧ ∃ pins, texts.readVersions field = .ok pins) ↔
      Json.IsPins value := by
  cases value with
  | object entries =>
    have hpins : Json.IsPins (.object entries) ↔
        (∀ group, effectiveValue? "direct" entries = some group → Json.IsPinGroup group) ∧
          ∀ group, effectiveValue? "indirect" entries = some group → Json.IsPinGroup group := by
      simp [Json.IsPins]
    have hgroup : ∀ {key : String}, (∃ texts, group (Json.effective entries) key = .ok texts ∧
        ∃ versions, ElmManifest.readVersions (entryName field key) texts = .ok versions) ↔
        ∀ value, effectiveValue? key entries = some value → Json.IsPinGroup value :=
      exists_group_iff
    rw [hpins, ← hgroup, ← hgroup]
    unfold ofJson readVersions
    simp only [Json.asEntries, Except.bind_eq_ok_iff, Except.pure_eq_ok_iff]
    constructor
    · rintro ⟨_, ⟨_, ⟨⟩, direct, hdirect, indirect, hindirect, rfl⟩, _, versions, hversions,
        versions', hversions', -⟩
      exact ⟨⟨direct, hdirect, versions, hversions⟩, indirect, hindirect, versions', hversions'⟩
    · rintro ⟨⟨direct, hdirect, versions, hversions⟩, indirect, hindirect, versions', hversions'⟩
      exact ⟨⟨direct, indirect⟩, ⟨_, rfl, direct, hdirect, indirect, hindirect, rfl⟩, _, versions,
        hversions, versions', hversions', rfl⟩
  | _ => simp [ofJson, Json.asEntries, Json.IsPins]

/-! ## Objects that are read are those that are accepted -/

section Fields

variable {key : String} {entries : List (String × Json)}

theorem exists_holds_texts_iff :
    (∃ texts, (Field.ofShape key Json.asTexts).Holds entries texts) ↔
      Once key Json.IsTexts entries :=
  Field.exists_holds_iff_once fun _ => by simp [Field.ofShape, Json.exists_asTexts_iff]

/-- A text that is read further is there once, and its parser takes it. -/
theorem exists_holds_readText_iff {ε α : Type} {parse : String → Except ε α}
    {fault : String → ε → SchemaFault} {field : String} :
    (∃ text, (Field.ofShape key Json.asText).Holds entries text ∧
      ∃ a, readText parse fault field text = .ok a) ↔
      Once key (Json.IsTextThat fun text => ∃ a, parse text = .ok a) entries :=
  Field.exists_holds_iff fun _ => by
    simp [Field.ofShape, Json.asText_eq_ok_iff, readText_eq_ok_iff, Json.IsTextThat]

theorem exists_mayHold_moduleNames_iff :
    (∃ names, (Field.ofShape key Json.asModuleNames).MayHold entries names) ↔
      AtMostOnce key Json.IsModuleNames entries :=
  Field.exists_mayHold_iff_atMostOnce fun _ => by
    simp [Field.ofShape, Json.exists_asModuleNames_iff]

theorem exists_mayHold_ranges_iff {field : String} :
    (∃ texts, (Field.ofShape key Json.asTextMap).MayHold entries texts ∧
      ∃ ranges, readConstraints field (texts.getD .empty) = .ok ranges) ↔
      AtMostOnce key Json.IsRanges entries :=
  Field.exists_mayHold_iff ⟨.empty, rfl⟩ fun _ => by
    simp [Field.ofShape, Json.exists_readConstraints_iff]

theorem exists_mayHold_texts_iff :
    (∃ texts, (Field.ofShape key Json.asTexts).MayHold entries texts) ↔
      AtMostOnce key Json.IsTexts entries :=
  Field.exists_mayHold_iff_atMostOnce fun _ => by simp [Field.ofShape, Json.exists_asTexts_iff]

theorem exists_mayHold_optionalText_iff :
    (∃ text, (Field.ofShape key Json.asOptionalText).MayHold entries text) ↔
      AtMostOnce key Json.IsOptionalText entries :=
  Field.exists_mayHold_iff_atMostOnce fun _ => by
    simp [Field.ofShape, Json.exists_asOptionalText_iff]

end Fields

/-- An application is read exactly from an object that is accepted. -/
theorem Application.exists_ofEntries_iff {entries : List (String × Json)} :
    (∃ a, ofEntries entries = .ok a) ↔ Accepts entries := by
  have hdependencies : (∃ texts, dependenciesField.Holds entries texts ∧
      ∃ pins, texts.readVersions "dependencies" = .ok pins) ↔
      Once "dependencies" Json.IsPins entries :=
    Field.exists_holds_iff fun _ => ExactDependencyTexts.exists_readVersions_iff
  have htests : (∃ texts, testDependenciesField.MayHold entries texts ∧
      ∃ pins, (texts.getD .empty).readVersions "test-dependencies" = .ok pins) ↔
      AtMostOnce "test-dependencies" Json.IsPins entries :=
    Field.exists_mayHold_iff ⟨.empty, rfl⟩ fun _ => ExactDependencyTexts.exists_readVersions_iff
  constructor
  · rintro ⟨a, h⟩
    obtain ⟨elmVersion, dependencies, tests, hdirs, helm, hdeps, htest, hversion, hpins, htestPins,
      -⟩ := ofEntries_eq_ok_iff.mp h
    exact ⟨exists_holds_texts_iff.mp ⟨_, hdirs⟩,
      exists_holds_readText_iff.mp ⟨_, helm, _, hversion⟩, hdependencies.mp ⟨_, hdeps, _, hpins⟩,
      htests.mp ⟨_, htest, _, htestPins⟩⟩
  · rintro ⟨hdirs, helm, hdeps, htest⟩
    obtain ⟨directories, hdirs⟩ := exists_holds_texts_iff.mpr hdirs
    obtain ⟨_, helm, version, hversion⟩ := exists_holds_readText_iff.mpr helm
    obtain ⟨_, hdeps, pins, hpins⟩ := hdependencies.mpr hdeps
    obtain ⟨_, htest, testPins, htestPins⟩ := htests.mpr htest
    exact ⟨⟨version, directories, pins, testPins, none⟩, ofEntries_eq_ok_iff.mpr
      ⟨_, _, _, hdirs, helm, hdeps, htest, hversion, hpins, htestPins, rfl⟩⟩

/-- A package is read exactly from an object that is accepted. -/
theorem Package.exists_ofEntries_iff {entries : List (String × Json)} :
    (∃ p, ofEntries entries = .ok p) ↔ Accepts entries := by
  have hname : (∃ name, nameField.Holds entries name ∧ name ≠ "") ↔
      Once "name" (Json.IsTextThat (· ≠ "")) entries :=
    Field.exists_holds_iff fun _ => by
      simp [nameField, Field.ofShape, Json.asText_eq_ok_iff, Json.IsTextThat]
  constructor
  · rintro ⟨p, h⟩
    obtain ⟨version, summary, license, elmVersion, modules, dependencies, tests, hn, hv, hsummary,
      hlicense, helm, hmodules, hdeps, htests, hne, hversion, hrange, hranges, htestRanges, -⟩ :=
      ofEntries_eq_ok_iff.mp h
    exact ⟨hname.mp ⟨_, hn, hne⟩, exists_holds_readText_iff.mp ⟨_, hv, _, hversion⟩,
      exists_mayHold_optionalText_iff.mp ⟨_, hsummary⟩,
      exists_mayHold_optionalText_iff.mp ⟨_, hlicense⟩,
      exists_holds_readText_iff.mp ⟨_, helm, _, hrange⟩,
      exists_mayHold_moduleNames_iff.mp ⟨_, hmodules⟩,
      exists_mayHold_ranges_iff.mp ⟨_, hdeps, _, hranges⟩,
      exists_mayHold_ranges_iff.mp ⟨_, htests, _, htestRanges⟩⟩
  · rintro ⟨hn, hv, hsummary, hlicense, helm, hmodules, hdeps, htests⟩
    obtain ⟨name, hn, hne⟩ := hname.mpr hn
    obtain ⟨_, hv, version, hversion⟩ := exists_holds_readText_iff.mpr hv
    obtain ⟨summary, hsummary⟩ := exists_mayHold_optionalText_iff.mpr hsummary
    obtain ⟨license, hlicense⟩ := exists_mayHold_optionalText_iff.mpr hlicense
    obtain ⟨_, helm, range, hrange⟩ := exists_holds_readText_iff.mpr helm
    obtain ⟨modules, hmodules⟩ := exists_mayHold_moduleNames_iff.mpr hmodules
    obtain ⟨_, hdeps, ranges, hranges⟩ := exists_mayHold_ranges_iff.mpr hdeps
    obtain ⟨_, htests, testRanges, htestRanges⟩ := exists_mayHold_ranges_iff.mpr htests
    exact ⟨⟨name, version, summary.join, license.join, range, modules.getD [], ranges, testRanges⟩,
      ofEntries_eq_ok_iff.mpr ⟨_, _, _, _, _, _, _, hn, hv, hsummary, hlicense, helm, hmodules,
        hdeps, htests, hne, hversion, hrange, hranges, htestRanges, rfl, rfl, rfl⟩⟩

/-- A legacy manifest is read exactly from an object that is accepted. -/
theorem LegacyManifest.exists_ofEntries_iff {entries : List (String × Json)} :
    (∃ m, ofEntries entries = .ok m) ↔ Accepts entries := by
  constructor
  · rintro ⟨m, h⟩
    obtain ⟨elmVersion, directories, modules, dependencies, helm, hdirs, hmodules, hdeps, hrange,
      hranges, -⟩ := ofEntries_eq_ok_iff.mp h
    exact ⟨exists_holds_readText_iff.mp ⟨_, helm, _, hrange⟩,
      exists_mayHold_texts_iff.mp ⟨_, hdirs⟩, exists_mayHold_moduleNames_iff.mp ⟨_, hmodules⟩,
      exists_mayHold_ranges_iff.mp ⟨_, hdeps, _, hranges⟩⟩
  · rintro ⟨helm, hdirs, hmodules, hdeps⟩
    obtain ⟨_, helm, range, hrange⟩ := exists_holds_readText_iff.mpr helm
    obtain ⟨directories, hdirs⟩ := exists_mayHold_texts_iff.mpr hdirs
    obtain ⟨modules, hmodules⟩ := exists_mayHold_moduleNames_iff.mpr hmodules
    obtain ⟨_, hdeps, ranges, hranges⟩ := exists_mayHold_ranges_iff.mpr hdeps
    exact ⟨⟨range, directories.getD defaultSourceDirectories, modules.getD [], ranges, .empty⟩,
      ofEntries_eq_ok_iff.mpr
        ⟨_, _, _, _, helm, hdirs, hmodules, hdeps, hrange, hranges, rfl, rfl, rfl⟩⟩

/-- **A manifest is decoded exactly if its object is accepted**, for bytes that are a JSON object.
What is asked of a key is asked of all its entries or of the last one, as `decode_manifest` does in
each place. -/
theorem Manifest.exists_decode_eq_ok_iff {path : Path} {bytes : ByteArray}
    {entries : List (String × Json)} (h : Json.ofBytes bytes = .ok (.object entries)) :
    (∃ m, decode path bytes = .ok m) ↔ Accepts path entries := by
  simp only [decode_eq_ok_iff h, Accepts, ← LegacyManifest.exists_ofEntries_iff,
    ← Application.exists_ofEntries_iff, ← Package.exists_ofEntries_iff]
  by_cases hlegacy : isLegacyPath path = true
  · simp [hlegacy]
  · simp only [if_neg hlegacy, ofEntries_eq_ok_iff]
    constructor
    · rintro ⟨m, ⟨htype, a, ha, -⟩ | ⟨htype, p, hp, -⟩⟩
      · exact .inl ⟨htype, a, ha⟩
      · exact .inr ⟨htype, p, hp⟩
    · rintro (⟨htype, a, ha⟩ | ⟨htype, p, hp⟩)
      · exact ⟨_, .inl ⟨htype, a, ha, rfl⟩⟩
      · exact ⟨_, .inr ⟨htype, p, hp, rfl⟩⟩

/-- An application that replaces a group of dependencies and a pin by later entries. -/
def replacingText : String :=
  "\x7b\"type\":\"application\",\"source-directories\":[],\"elm-version\":\"0.19.1\"," ++
  "\"dependencies\":\x7b\"direct\":1,\"direct\":\x7b\"a/b\":2,\"a/b\":\"1.0.0\"\x7d\x7d\x7d"

/-- An object in which a value is replaced by a later one under the same key is accepted, since what
is replaced does not count. -/
theorem exists_decode_eq_ok_iff_replacing : ∃ entries,
    Json.ofBytes replacingText.toUTF8 = .ok (.object entries) ∧
      (∃ m, Manifest.decode ⟨"elm.json"⟩ replacingText.toUTF8 = .ok m) ∧
      Manifest.Accepts ⟨"elm.json"⟩ entries := by
  have hdecode : ∃ m, Manifest.decode ⟨"elm.json"⟩ replacingText.toUTF8 = .ok m :=
    Except.exists_eq_ok_of_isSome (by decide +kernel)
  obtain ⟨m, hm⟩ := hdecode
  obtain ⟨entries, hentries⟩ := Manifest.exists_entries_of_decode hm
  exact ⟨entries, hentries, ⟨m, hm⟩, (Manifest.exists_decode_eq_ok_iff hentries).mp ⟨m, hm⟩⟩

end ElmManifest
