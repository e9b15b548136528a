import ElmManifest.Proofs.Manifest.Accepted
import ElmManifest.Proofs.Manifest.TypedPass
import Mathlib.Data.List.Perm.Basic

/-!
# Objects that say the same

One manifest can be written in many ways.  This file says of two objects that they are read as the
same manifest: under every key that the manifest knows they have values that are alike.  What they
have under other keys, and in which order the keys come, is left open.

Values that are alike are equal, but for two fields.  The entries of a map of dependencies may come
in another order, and the exposed modules may be listed in groups or all at once.

## Main Definitions

* `Json.Exposes` — a value that lists modules, all at once or group by group.
* `Json.Shuffled` — an object with its entries in another order.
* `Json.Alike` — values that make no difference to a manifest.
* `Agree` — objects with values that are alike.
* `Manifest.knownKeys` — the keys that a manifest of each kind knows.

## Main Statements

* `NameMap.ofList_eq_of_perm` — the order of entries under distinct names makes no difference.
* `Manifest.isReadFrom_of_agree` — objects that agree are read as the same manifest.
-/

namespace ElmManifest

/-! ## Entries in another order -/

namespace NameMap

variable {α : Type}

theorem nodup_toList (m : NameMap α) : m.toList.Nodup := by
  apply List.Pairwise.imp _ m.ascending
  rintro entry _ hlt rfl
  exact Std.lt_irrefl hlt

/-- Maps in which the same is found are the same. -/
theorem ext_find? {m n : NameMap α} (h : ∀ name, m.find? name = n.find? name) : m = n := by
  refine ext (List.Perm.eq_of_pairwise ?_ m.ascending n.ascending ?_)
  · intro a b _ _ hab hba
    exact absurd hba (Std.not_gt_of_lt hab)
  · rw [List.perm_ext_iff_of_nodup m.nodup_toList n.nodup_toList]
    rintro ⟨name, value⟩
    rw [← find?_eq_some_iff, ← find?_eq_some_iff, h]

end NameMap

section Entries

variable {α : Type} {entries entries' : List (String × α)}

theorem length_valuesUnder_le_one (hkeys : (entries.map Prod.fst).Nodup) (key : String) :
    (valuesUnder key entries).length ≤ 1 := by
  have hcount : (valuesUnder key entries).length = (entries.map Prod.fst).count key := by
    rw [valuesUnder, List.length_map, List.count, List.countP_map, List.countP_eq_length_filter]
    rfl
  rw [hcount]
  exact List.nodup_iff_count_le_one.mp hkeys key

/-- The order of entries under distinct keys makes no difference to what is listed under a key. -/
theorem valuesUnder_eq_of_perm (hperm : entries.Perm entries')
    (hkeys : (entries.map Prod.fst).Nodup) (key : String) :
    valuesUnder key entries = valuesUnder key entries' := by
  have hvalues : (valuesUnder key entries).Perm (valuesUnder key entries') :=
    (hperm.filter _).map _
  have hone := length_valuesUnder_le_one hkeys key
  generalize valuesUnder key entries = values at hvalues hone ⊢
  match values, hone with
  | [], _ => exact hvalues.nil_eq
  | [value], _ => exact List.singleton_perm.mp hvalues

/-- The order of entries with distinct keys makes no difference to their map. -/
theorem NameMap.ofList_eq_of_perm (hperm : entries.Perm entries')
    (hkeys : (entries.map Prod.fst).Nodup) : NameMap.ofList entries = NameMap.ofList entries' := by
  apply NameMap.ext_find?
  intro name
  rw [NameMap.find?_ofList_eq_effectiveValue?, NameMap.find?_ofList_eq_effectiveValue?,
    effectiveValue?, effectiveValue?, valuesUnder_eq_of_perm hperm hkeys]

theorem valuesUnder_append (key : String) (front back : List (String × α)) :
    valuesUnder key (front ++ back) = valuesUnder key front ++ valuesUnder key back := by
  simp [valuesUnder]

/-- Another value in one place is another effective value under its key, or makes no difference. -/
theorem effectiveValue?_replace (name key : String) (before after : List (String × α))
    (value value' : α) :
    effectiveValue? name (before ++ (key, value) :: after) =
        effectiveValue? name (before ++ (key, value') :: after) ∨
      effectiveValue? name (before ++ (key, value) :: after) = some value ∧
        effectiveValue? name (before ++ (key, value') :: after) = some value' := by
  unfold effectiveValue?
  rw [valuesUnder_append, valuesUnder_append]
  by_cases hname : key = name
  · subst hname
    rw [valuesUnder_cons_self, valuesUnder_cons_self]
    cases hlater : valuesUnder key after with
    | nil => exact .inr (by simp)
    | cons later rest => exact .inl (by simp)
  · rw [valuesUnder_cons_of_ne hname, valuesUnder_cons_of_ne hname]
    exact .inl rfl

end Entries

/-! ## Values that are alike -/

namespace Json

/-- Module names in a list. -/
def flatModules (names : List String) : Json :=
  .array (names.map .string)

/-- Module names in groups, each under the name of a category. -/
def groupedModules (groups : List (String × List String)) : Json :=
  .object (groups.map fun group => (group.1, flatModules group.2))

/-- The value exposes the modules: it lists them all at once, or one group after the other, whatever
the groups are called. -/
inductive Exposes : Json → List String → Prop where
  | flat (names : List String) : Exposes (flatModules names) names
  | grouped (groups : List (String × List String)) :
      Exposes (groupedModules groups) (groups.flatMap Prod.snd)

/-- Module names are read exactly from a value that exposes them. -/
theorem asModuleNames_eq_ok_iff_exposes {value : Json} {names : List String} :
    value.asModuleNames = .ok names ↔ value.Exposes names := by
  constructor
  · intro h
    cases value with
    | array items =>
      rw [mapM_asText_eq_ok_iff.mp h]
      exact .flat names
    | object entries =>
      obtain ⟨lists, hlists, rfl⟩ := Except.functorMap_eq_ok_iff.mp h
      rw [mapM_values] at hlists
      obtain ⟨groups, hgroups, rfl⟩ := Except.map_eq_ok_iff.mp hlists
      rw [entries_eq_of_groups hgroups]
      exact .grouped groups
    | _ => cases h
  · rintro (_ | groups)
    · exact asModuleNames_eq_ok_iff.mpr (.inl rfl)
    · refine asModuleNames_eq_ok_iff.mpr (.inr ⟨_, groups.map Prod.snd, rfl, ?_, rfl⟩)
      rw [List.forall₂_map_left_iff, List.forall₂_map_right_iff, List.forall₂_same]
      exact fun _ _ => rfl

/-- The object has its entries in another order, where their keys are distinct, or an object inside
it has. -/
inductive Shuffled : Json → Json → Prop where
  | entries {entries entries' : List (String × Json)} (hperm : entries.Perm entries')
      (hkeys : (entries.map Prod.fst).Nodup) : Shuffled (.object entries) (.object entries')
  | inside (before after : List (String × Json)) (key : String) {value value' : Json}
      (h : Shuffled value value') :
      Shuffled (.object (before ++ (key, value) :: after))
        (.object (before ++ (key, value') :: after))

/-- A map of texts may come in another order. -/
theorem asTextMap_of_shuffled {value value' : Json} (h : value.Shuffled value')
    {m : NameMap String} (hread : value.asTextMap = .ok m) : value'.asTextMap = .ok m := by
  obtain ⟨texts, hvalue, rfl⟩ := asTextMap_eq_ok_iff.mp hread
  cases h with
  | @entries _ entries' hperm hkeys =>
    cases hvalue
    obtain ⟨texts', rfl⟩ : ∃ texts', entries' = textEntries texts' := by
      rw [exists_textEntries_iff]
      intro entry hentry
      exact exists_textEntries_iff.mp ⟨texts, rfl⟩ entry (hperm.mem_iff.mpr hentry)
    have hinjective : Function.Injective fun entry : String × String =>
        (entry.1, Json.string entry.2) := by
      rintro ⟨_, _⟩ ⟨_, _⟩ heq
      simpa using heq
    have htexts : texts.Perm texts' := (List.map_perm_map_iff hinjective).mp hperm
    refine asTextMap_eq_ok_iff.mpr ⟨texts', rfl, (NameMap.ofList_eq_of_perm htexts ?_).symm⟩
    simpa [textEntries, Function.comp_def] using hkeys
  | @inside before after key inner _ h =>
    -- all values of a map of texts are strings, and in a string there is nothing to put elsewhere
    have htext : IsText inner := exists_textEntries_iff.mp ⟨texts, Json.object.inj hvalue⟩
      (key, inner) (by simp)
    obtain ⟨_, rfl, -⟩ := htext
    cases h

theorem asEffectiveTextMap_of_shuffled {value value' : Json} (h : value.Shuffled value')
    {m : NameMap String} (hread : value.asEffectiveTextMap = .ok m) :
    value'.asEffectiveTextMap = .ok m := by
  obtain ⟨_, hvalue, hentries⟩ := asEffectiveTextMap_eq_ok_iff.mp hread
  refine asEffectiveTextMap_eq_ok_iff.mpr ?_
  cases h with
  | @entries entries entries' hperm hkeys =>
    cases hvalue
    refine ⟨entries', rfl, ?_⟩
    rwa [effective, ← NameMap.ofList_eq_of_perm hperm hkeys]
  | @inside before after key inner inner' h =>
    cases hvalue
    refine ⟨_, rfl, ?_⟩
    suffices heffective : effective (before ++ (key, inner) :: after) =
        effective (before ++ (key, inner') :: after) by
      rwa [← heffective]
    apply NameMap.ext_find?
    intro name
    have hreplace := effectiveValue?_replace name key before after inner inner'
    rw [← NameMap.find?_ofList_eq_effectiveValue?, ← NameMap.find?_ofList_eq_effectiveValue?]
      at hreplace
    obtain heq | ⟨hinner, -⟩ := hreplace
    · exact heq
    · -- an effective value is a string, in which there is nothing to put elsewhere
      have hmem := NameMap.find?_eq_some_iff.mp hinner
      change (name, inner) ∈ (effective _).toList at hmem
      rw [hentries] at hmem
      obtain ⟨_, rfl, -⟩ : IsText inner := exists_textEntries_iff.mp ⟨_, rfl⟩ _ hmem
      cases h

end Json

namespace ExactDependencyTexts

/-- Exact dependencies are read group by group from what counts in an object. -/
theorem ofJson_eq_ok_iff {value : Json} {texts : ExactDependencyTexts} :
    ofJson value = .ok texts ↔ ∃ entries, value = .object entries ∧
      group (Json.effective entries) "direct" = .ok texts.direct ∧
      group (Json.effective entries) "indirect" = .ok texts.indirect := by
  unfold ofJson
  cases value with
  | object entries =>
    obtain ⟨direct, indirect⟩ := texts
    simp [Json.asEntries]
  | _ => simp [Json.asEntries]

/-- Pins may come in another order, the groups as well as the names in them. -/
theorem ofJson_of_shuffled {value value' : Json} (h : value.Shuffled value')
    {texts : ExactDependencyTexts} (hread : ofJson value = .ok texts) :
    ofJson value' = .ok texts := by
  obtain ⟨_, hvalue, hdirect, hindirect⟩ := ofJson_eq_ok_iff.mp hread
  refine ofJson_eq_ok_iff.mpr ?_
  cases h with
  | @entries entries entries' hperm hkeys =>
    cases hvalue
    refine ⟨entries', rfl, ?_⟩
    rw [Json.effective, ← NameMap.ofList_eq_of_perm hperm hkeys]
    exact ⟨hdirect, hindirect⟩
  | @inside before after key inner inner' h =>
    cases hvalue
    have hgroup : ∀ {name : String} {m : NameMap String},
        group (Json.effective (before ++ (key, inner) :: after)) name = .ok m →
          group (Json.effective (before ++ (key, inner') :: after)) name = .ok m := by
      intro name m hm
      unfold group Json.effective at hm ⊢
      rw [NameMap.find?_ofList_eq_effectiveValue?] at hm ⊢
      obtain heq | ⟨hinner, hinner'⟩ := effectiveValue?_replace name key before after inner inner'
      · rwa [← heq]
      · rw [hinner] at hm
        rw [hinner']
        exact Except.mapError_eq_ok_iff.mpr
          (Json.asEffectiveTextMap_of_shuffled h (Except.mapError_eq_ok_iff.mp hm))
    exact ⟨_, rfl, hgroup hdirect, hgroup hindirect⟩

end ExactDependencyTexts

/-! ## Fields that agree -/

/-- The keys of the fields with dependencies. -/
def dependencyKeys : List String := ["dependencies", "test-dependencies"]

/-- Values under a key that make no difference to a manifest. -/
inductive Json.Alike (key : String) : Json → Json → Prop where
  /-- The value is the same. -/
  | same (value : Json) : Alike key value value
  /-- Dependencies come in another order. -/
  | shuffled {value value' : Json} (hkey : key ∈ dependencyKeys) (h : value.Shuffled value') :
      Alike key value value'
  /-- The same modules are exposed. -/
  | exposing {value value' : Json} {names : List String} (hkey : key = "exposed-modules")
      (h : value.Exposes names) (h' : value'.Exposes names) : Alike key value value'

/-- Under each of the keys, the two objects have values that are alike. -/
def Agree (keys : List String) (entries entries' : List (String × Json)) : Prop :=
  ∀ key ∈ keys,
    List.Forall₂ (Json.Alike key) (valuesUnder key entries) (valuesUnder key entries')

namespace Field

variable {α : Type} {f : Field α} {keys : List String} {entries entries' : List (String × Json)}

/-- The field makes the same of values that are alike. -/
def ReadsAlike (f : Field α) : Prop :=
  ∀ value value' a, Json.Alike f.key value value' → f.read value = .ok a → f.read value' = .ok a

/-- What a field may hold in one object it may hold in one that agrees with it. -/
theorem MayHold.of_agree {held : Option α} (h : f.MayHold entries held)
    (hagree : Agree keys entries entries') (hf : f.ReadsAlike) (hkey : f.key ∈ keys) :
    f.MayHold entries' held := by
  have hvalues := hagree f.key hkey
  cases held with
  | none =>
    rw [MayHold] at h ⊢
    rw [h] at hvalues
    exact List.forall₂_nil_left_iff.mp hvalues
  | some a =>
    obtain ⟨value, hvalue, hread⟩ := h
    rw [hvalue] at hvalues
    obtain ⟨value', _, halike, hnone, hvalue'⟩ := List.forall₂_cons_left_iff.mp hvalues
    rw [List.forall₂_nil_left_iff.mp hnone] at hvalue'
    exact ⟨value', hvalue', hf value value' a halike hread⟩

theorem Holds.of_agree {a : α} (h : f.Holds entries a) (hagree : Agree keys entries entries')
    (hf : f.ReadsAlike) (hkey : f.key ∈ keys) : f.Holds entries' a := by
  have hheld : f.MayHold entries (some a) := h
  exact hheld.of_agree hagree hf hkey

/-- Most fields read alike, since only the same value is alike. -/
theorem readsAlike_of_key (hdependencies : f.key ∉ dependencyKeys)
    (hmodules : f.key ≠ "exposed-modules") : f.ReadsAlike := by
  intro value value' a halike hread
  cases halike with
  | same => exact hread
  | shuffled hkey => exact absurd hkey hdependencies
  | exposing hkey => exact absurd hkey hmodules

theorem readsAlike_moduleNames : (ofShape "exposed-modules" Json.asModuleNames).ReadsAlike := by
  intro value value' names halike hread
  cases halike with
  | same => exact hread
  | shuffled hkey => exact absurd hkey (by decide)
  | exposing _ h h' =>
    have hnames := Except.mapError_eq_ok_iff.mp hread
    rw [Json.asModuleNames_eq_ok_iff_exposes.mpr h] at hnames
    cases hnames
    exact Except.mapError_eq_ok_iff.mpr (Json.asModuleNames_eq_ok_iff_exposes.mpr h')

/-- Dependencies read alike if their order makes no difference. -/
theorem readsAlike_of_shuffled (hkey : f.key ∈ dependencyKeys)
    (hread : ∀ {value value' a}, value.Shuffled value' → f.read value = .ok a →
      f.read value' = .ok a) : f.ReadsAlike := by
  intro value value' a halike h
  cases halike with
  | same => exact h
  | shuffled _ hshuffled => exact hread hshuffled h
  | exposing hmodules =>
    rw [hmodules] at hkey
    exact absurd hkey (by decide)

theorem readsAlike_textMap {key : String} (hkey : key ∈ dependencyKeys) :
    (ofShape key Json.asTextMap).ReadsAlike := by
  refine readsAlike_of_shuffled hkey fun hshuffled h => ?_
  exact Except.mapError_eq_ok_iff.mpr
    (Json.asTextMap_of_shuffled hshuffled (Except.mapError_eq_ok_iff.mp h))

theorem readsAlike_pins {key : String} (hkey : key ∈ dependencyKeys) :
    (Field.mk key ExactDependencyTexts.ofJson).ReadsAlike :=
  readsAlike_of_shuffled hkey fun hshuffled => ExactDependencyTexts.ofJson_of_shuffled hshuffled

end Field

/-! ## Manifests of each kind -/

section Kinds

variable {entries entries' : List (String × Json)}

/-- The keys that an application manifest knows: those of its fields, and the one that tells its
kind. -/
def Application.knownKeys : List String :=
  Manifest.typeKey :: fields.map Field.key

/-- The keys that a package manifest knows. -/
def Package.knownKeys : List String :=
  Manifest.typeKey :: fields.map Field.key

/-- The keys that a manifest in the older layout knows.  Its kind is told by its file name. -/
def LegacyManifest.knownKeys : List String :=
  fields.map Field.key

theorem Application.ofEntries_of_agree (hagree : Agree knownKeys entries entries')
    {a : Application} (h : ofEntries entries = .ok a) : ofEntries entries' = .ok a := by
  obtain ⟨elmVersion, dependencies, tests, hdirectories, helm, hdependencies, htests, hread⟩ :=
    ofEntries_eq_ok_iff.mp h
  have hplain : ∀ {α : Type} (f : Field α), f.key ∉ dependencyKeys → f.key ≠ "exposed-modules" →
      f.ReadsAlike := fun _ => Field.readsAlike_of_key
  exact ofEntries_eq_ok_iff.mpr ⟨elmVersion, dependencies, tests,
    hdirectories.of_agree hagree (hplain _ (by decide) (by decide)) (by decide),
    helm.of_agree hagree (hplain _ (by decide) (by decide)) (by decide),
    hdependencies.of_agree hagree (Field.readsAlike_pins (by decide)) (by decide),
    htests.of_agree hagree (Field.readsAlike_pins (by decide)) (by decide), hread⟩

theorem Package.ofEntries_of_agree (hagree : Agree knownKeys entries entries') {p : Package}
    (h : ofEntries entries = .ok p) : ofEntries entries' = .ok p := by
  obtain ⟨version, summary, license, elmVersion, modules, dependencies, tests, hname, hversion,
    hsummary, hlicense, helm, hmodules, hdependencies, htests, hread⟩ := ofEntries_eq_ok_iff.mp h
  have hplain : ∀ {α : Type} (f : Field α), f.key ∉ dependencyKeys → f.key ≠ "exposed-modules" →
      f.ReadsAlike := fun _ => Field.readsAlike_of_key
  exact ofEntries_eq_ok_iff.mpr ⟨version, summary, license, elmVersion, modules, dependencies,
    tests, hname.of_agree hagree (hplain _ (by decide) (by decide)) (by decide),
    hversion.of_agree hagree (hplain _ (by decide) (by decide)) (by decide),
    hsummary.of_agree hagree (hplain _ (by decide) (by decide)) (by decide),
    hlicense.of_agree hagree (hplain _ (by decide) (by decide)) (by decide),
    helm.of_agree hagree (hplain _ (by decide) (by decide)) (by decide),
    hmodules.of_agree hagree Field.readsAlike_moduleNames (by decide),
    hdependencies.of_agree hagree (Field.readsAlike_textMap (by decide)) (by decide),
    htests.of_agree hagree (Field.readsAlike_textMap (by decide)) (by decide), hread⟩

theorem LegacyManifest.ofEntries_of_agree (hagree : Agree knownKeys entries entries')
    {m : LegacyManifest} (h : ofEntries entries = .ok m) : ofEntries entries' = .ok m := by
  obtain ⟨elmVersion, directories, modules, dependencies, helm, hdirectories, hmodules,
    hdependencies, hread⟩ := ofEntries_eq_ok_iff.mp h
  exact ofEntries_eq_ok_iff.mpr ⟨elmVersion, directories, modules, dependencies,
    helm.of_agree hagree (Field.readsAlike_of_key (by decide) (by decide)) (by decide),
    hdirectories.of_agree hagree (Field.readsAlike_of_key (by decide) (by decide)) (by decide),
    hmodules.of_agree hagree Field.readsAlike_moduleNames (by decide),
    hdependencies.of_agree hagree (Field.readsAlike_textMap (by decide)) (by decide), hread⟩

end Kinds

/-! ## Manifests of any kind -/

namespace Manifest

variable {path : Path} {bytes : ByteArray} {entries entries' : List (String × Json)} {m : Manifest}

/-- The keys that a manifest knows. -/
def knownKeys : Manifest → List String
  | .application _ => Application.knownKeys
  | .package _ => Package.knownKeys
  | .legacy _ => LegacyManifest.knownKeys

/-- The object is read as the manifest, if it stands in the file at the path. -/
def IsReadFrom (path : Path) (entries : List (String × Json)) (m : Manifest) : Prop :=
  if isLegacyPath path then ∃ l, LegacyManifest.ofEntries entries = .ok l ∧ m = .legacy l
  else ofEntries entries = .ok m

theorem decode_eq_ok_iff_isReadFrom (h : Json.ofBytes bytes = .ok (.object entries)) :
    decode path bytes = .ok m ↔ IsReadFrom path entries m :=
  decode_eq_ok_iff h

/-- Objects that agree have the same effective `type`. -/
theorem effectiveType_of_agree {keys : List String} (hagree : Agree keys entries entries')
    (hkey : "type" ∈ keys) : effectiveValue? "type" entries = effectiveValue? "type" entries' := by
  have hvalues : List.Forall₂ Eq (valuesUnder "type" entries) (valuesUnder "type" entries') := by
    refine (hagree "type" hkey).imp ?_
    intro value value' halike
    cases halike with
    | same => rfl
    | shuffled hkey => exact absurd hkey (by decide)
    | exposing hkey => exact absurd hkey (by decide)
  rw [List.forall₂_eq_eq_eq] at hvalues
  rw [effectiveValue?, effectiveValue?, hvalues]

/-- **Objects that agree are read as the same manifest.**  Each field makes the same of what is
under its key, and nothing else is looked at. -/
theorem isReadFrom_of_agree (hagree : Agree m.knownKeys entries entries')
    (h : IsReadFrom path entries m) : IsReadFrom path entries' m := by
  unfold IsReadFrom at h ⊢
  split at h
  next hlegacy =>
    obtain ⟨l, hl, rfl⟩ := h
    rw [if_pos hlegacy]
    exact ⟨l, LegacyManifest.ofEntries_of_agree hagree hl, rfl⟩
  next hlegacy =>
    rw [if_neg hlegacy]
    rw [ofEntries_eq_ok_iff] at h ⊢
    obtain ⟨htype, a, ha, rfl⟩ | ⟨htype, p, hp, rfl⟩ := h
    · have hagree : Agree Application.knownKeys entries entries' := hagree
      rw [effectiveType_of_agree hagree (by decide)] at htype
      exact .inl ⟨htype, a, Application.ofEntries_of_agree hagree ha, rfl⟩
    · have hagree : Agree Package.knownKeys entries entries' := hagree
      rw [effectiveType_of_agree hagree (by decide)] at htype
      exact .inr ⟨htype, p, Package.ofEntries_of_agree hagree hp, rfl⟩

/-- A file that is read twice is read alike. -/
theorem decodeTwice_eq {limit : Nat} (h : Json.maxDepth ≤ limit) (path : Path)
    (bytes : ByteArray) : decodeTwice limit path bytes = decode path bytes := by
  rw [decodeTwice, ofBytesTwice_eq (by omega), decode]

end Manifest

end ElmManifest
