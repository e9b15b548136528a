import ElmManifest.Proofs.Json.Writing
import ElmManifest.Proofs.Manifest.Agreement
import ElmManifest.Proofs.Manifest.Offence

/-!
# The first fault of a manifest

Only one fault of a manifest is reported.  Each kind of manifest has its places, which are looked at
one after the other; the text that is reported is the first one at fault.  What is said here is said
of manifests that are in shape, so that nothing but their texts can be at fault.

## Main Definitions

* `Application.InShape`, `Package.InShape`, `LegacyManifest.InShape` — the shape of each kind,
  whatever its texts say.
* `Layout.places`, `Layout.InShape` — where the texts of a manifest stand, and which objects have
  its shape.

## Main Statements

* `Layout.decode_firstOffence` — decoding fails for the first text at fault, and for no other
  reason.
-/

namespace ElmManifest

/-! ## Texts in fields -/

section Fields

variable {root value : Json} {entries : List (String × Json)} {key : String}
  {keys keys' : List String} {m : NameMap String}

theorem valueAt?_of_once (h : valuesUnder key entries = [value]) :
    (Json.object entries).valueAt? [key] = some value := by
  rw [Json.valueAt?_singleton, Json.member?, effectiveValue?, h]
  rfl

theorem valueAt?_of_missing (h : valuesUnder key entries = []) :
    (Json.object entries).valueAt? [key] = none := by
  rw [Json.valueAt?_singleton, Json.member?, effectiveValue?, h]
  rfl

theorem valueAt?_of_holds_text {text : String}
    (h : (Field.ofShape key Json.asText).Holds entries text) :
    (Json.object entries).valueAt? [key] = some (.string text) := by
  obtain ⟨value, hvalue, hread⟩ := h
  obtain rfl := Json.asText_eq_ok_iff.mp (Except.mapError_eq_ok_iff.mp hread)
  exact valueAt?_of_once hvalue

/-- A map at the end of one path stands at the end of a longer one. -/
theorem HoldsTexts.below (hm : HoldsTexts value keys' m) (keys : List String)
    (h : root.valueAt? keys = some value) : HoldsTexts root (keys ++ keys') m := by
  intro name text
  rw [List.append_assoc, Json.valueAt?_append h]
  exact hm name text

/-- Where there is nothing, there are no texts. -/
theorem holdsTexts_empty (h : root.valueAt? keys = none) : HoldsTexts root keys .empty := by
  intro name text
  rw [Json.valueAt?_append_of_eq_none h]
  exact iff_of_false (by simp [NameMap.find?, NameMap.empty]) (by simp)

theorem holdsTexts_of_asTextMap (h : value.asTextMap = .ok m) : HoldsTexts value [] m := by
  obtain ⟨texts, rfl, rfl⟩ := Json.asTextMap_eq_ok_iff.mp h
  intro name text
  rw [List.nil_append, Json.valueAt?_singleton, Json.member?, Json.effectiveValue?_textEntries,
    NameMap.find?_ofList_eq_effectiveValue?]
  simp

theorem holdsTexts_of_asEffectiveTextMap (h : value.asEffectiveTextMap = .ok m) :
    HoldsTexts value [] m := by
  obtain ⟨entries, rfl, hentries⟩ := Json.asEffectiveTextMap_eq_ok_iff.mp h
  intro name text
  rw [List.nil_append, Json.valueAt?_singleton, Json.member?, ← Json.find?_effective,
    NameMap.find?_eq_some_iff, NameMap.find?_eq_some_iff, hentries]
  simp [Json.textEntries]

theorem holdsTexts_of_group (h : ExactDependencyTexts.group (Json.effective entries) key = .ok m) :
    HoldsTexts (.object entries) [key] m := by
  unfold ExactDependencyTexts.group at h
  rw [Json.find?_effective] at h
  cases hvalue : effectiveValue? key entries with
  | none =>
    rw [hvalue] at h
    cases h
    apply holdsTexts_empty
    rw [Json.valueAt?_singleton, Json.member?, hvalue]
  | some value =>
    rw [hvalue] at h
    have htexts := holdsTexts_of_asEffectiveTextMap (Except.mapError_eq_ok_iff.mp h)
    refine htexts.below [key] ?_
    rw [Json.valueAt?_singleton, Json.member?, hvalue]

/-- The texts of a field stand under its key. -/
theorem holdsTexts_of_mayHold {held : Option (NameMap String)}
    (h : (Field.ofShape key Json.asTextMap).MayHold entries held) :
    HoldsTexts (.object entries) [key] (held.getD .empty) := by
  cases held with
  | none => exact holdsTexts_empty (valueAt?_of_missing h)
  | some texts =>
    obtain ⟨value, hvalue, hread⟩ := h
    have htexts := holdsTexts_of_asTextMap (Except.mapError_eq_ok_iff.mp hread)
    exact htexts.below [key] (valueAt?_of_once hvalue)

theorem holdsTexts_pins_of_mayHold {held : Option ExactDependencyTexts}
    (h : (Field.mk key ExactDependencyTexts.ofJson).MayHold entries held) :
    HoldsTexts (.object entries) [key, "direct"] (held.getD .empty).direct ∧
      HoldsTexts (.object entries) [key, "indirect"] (held.getD .empty).indirect := by
  cases held with
  | none =>
    have hmissing := valueAt?_of_missing h
    exact ⟨holdsTexts_empty (Json.valueAt?_append_of_eq_none hmissing _),
      holdsTexts_empty (Json.valueAt?_append_of_eq_none hmissing _)⟩
  | some texts =>
    obtain ⟨value, hvalue, hread⟩ := h
    obtain ⟨groups, rfl, hdirect, hindirect⟩ := ExactDependencyTexts.ofJson_eq_ok_iff.mp hread
    have hvalue := valueAt?_of_once hvalue
    exact ⟨(holdsTexts_of_group hdirect).below [key] hvalue,
      (holdsTexts_of_group hindirect).below [key] hvalue⟩

/-- Reading the versions of pins reports on their groups, the direct ones first. -/
theorem reports_pins {texts : ExactDependencyTexts}
    (hdirect : HoldsTexts root [key, "direct"] texts.direct)
    (hindirect : HoldsTexts root [key, "indirect"] texts.indirect) :
    Reports root [.map [key, "direct"] .version, .map [key, "indirect"] .version]
      (texts.readVersions key) := by
  have hentry : ∀ name, entryName key name = ".".intercalate [key, name] := fun name =>
    (intercalate_concat (List.cons_ne_nil key []) name).symm
  unfold ExactDependencyTexts.readVersions
  rw [hentry, hentry]
  refine (hdirect.reports_readTexts isReadBy_version (List.cons_ne_nil _ _)).bind fun direct => ?_
  exact (hindirect.reports_readTexts isReadBy_version (List.cons_ne_nil _ _)).bind fun indirect =>
    reports_nil _

end Fields

/-! ## Manifests in shape -/

namespace Json

/-- An object of strings. -/
def IsTextMap (value : Json) : Prop :=
  ∃ entries, value = .object entries ∧ ∀ entry ∈ entries, IsText entry.2

/-- An object whose values that count are strings. -/
def IsEffectiveTextMap (value : Json) : Prop :=
  ∃ entries, value = .object entries ∧
    ∀ name text, effectiveValue? name entries = some text → IsText text

/-- An object whose groups that count, as far as they are there, are objects of strings. -/
def IsPinTexts (value : Json) : Prop :=
  ∃ entries, value = .object entries ∧ ∀ key ∈ ["direct", "indirect"], ∀ group,
    effectiveValue? key entries = some group → IsEffectiveTextMap group

theorem exists_asTextMap_iff {value : Json} :
    (∃ m, value.asTextMap = .ok m) ↔ IsTextMap value := by
  simp only [asTextMap_eq_ok_iff, IsTextMap, ← exists_textEntries_iff]
  constructor
  · rintro ⟨_, texts, rfl, rfl⟩
    exact ⟨_, rfl, texts, rfl⟩
  · rintro ⟨_, rfl, texts, rfl⟩
    exact ⟨_, texts, rfl, rfl⟩

theorem exists_asEffectiveTextMap_iff {value : Json} :
    (∃ m, value.asEffectiveTextMap = .ok m) ↔ IsEffectiveTextMap value := by
  cases value with
  | object entries =>
    simp only [asEffectiveTextMap, NameMap.exists_traverse_eq_ok_iff, exists_asText_iff]
    simp [IsEffectiveTextMap, find?_effective]
  | _ => simp [asEffectiveTextMap, IsEffectiveTextMap]

end Json

theorem ExactDependencyTexts.exists_ofJson_iff {value : Json} :
    (∃ texts, ofJson value = .ok texts) ↔ Json.IsPinTexts value := by
  have hgroup : ∀ {key : String} {entries : List (String × Json)},
      (∃ m, group (Json.effective entries) key = .ok m) ↔
        ∀ value, effectiveValue? key entries = some value → Json.IsEffectiveTextMap value := by
    intro key entries
    unfold group
    rw [Json.find?_effective]
    cases effectiveValue? key entries with
    | none => simp
    | some value => simp [Json.exists_asEffectiveTextMap_iff]
  simp only [ofJson_eq_ok_iff, Json.IsPinTexts, List.forall_mem_cons, List.not_mem_nil,
    false_imp_iff, implies_true, and_true, ← hgroup]
  constructor
  · rintro ⟨texts, entries, rfl, hdirect, hindirect⟩
    exact ⟨entries, rfl, ⟨_, hdirect⟩, _, hindirect⟩
  · rintro ⟨entries, rfl, ⟨direct, hdirect⟩, indirect, hindirect⟩
    exact ⟨⟨direct, indirect⟩, entries, rfl, hdirect, hindirect⟩

/-- The shape of an application, whatever its texts say. -/
structure Application.InShape (entries : List (String × Json)) : Prop where
  /-- The source directories are there. -/
  sourceDirectories : Once "source-directories" Json.IsTexts entries
  /-- A text for the compiler version is there. -/
  elmVersion : Once "elm-version" Json.IsText entries
  /-- The dependencies are there. -/
  dependencies : Once "dependencies" Json.IsPinTexts entries
  /-- The test dependencies may be there. -/
  testDependencies : AtMostOnce "test-dependencies" Json.IsPinTexts entries

/-- The shape of a package, whatever its texts say. -/
structure Package.InShape (entries : List (String × Json)) : Prop where
  /-- A text for the name is there. -/
  name : Once "name" Json.IsText entries
  /-- A text for the version is there. -/
  version : Once "version" Json.IsText entries
  /-- The description may be there. -/
  summary : AtMostOnce "summary" Json.IsOptionalText entries
  /-- The licence may be there. -/
  license : AtMostOnce "license" Json.IsOptionalText entries
  /-- A text for the accepted compiler versions is there. -/
  elmVersion : Once "elm-version" Json.IsText entries
  /-- The exposed modules may be there. -/
  exposedModules : AtMostOnce "exposed-modules" Json.IsModuleNames entries
  /-- The dependencies may be there. -/
  dependencies : AtMostOnce "dependencies" Json.IsTextMap entries
  /-- The test dependencies may be there. -/
  testDependencies : AtMostOnce "test-dependencies" Json.IsTextMap entries

/-- The shape of a manifest in the older layout, whatever its texts say. -/
structure LegacyManifest.InShape (entries : List (String × Json)) : Prop where
  /-- A text for the accepted compiler versions is there. -/
  elmVersion : Once "elm-version" Json.IsText entries
  /-- The source directories may be there. -/
  sourceDirectories : AtMostOnce "source-directories" Json.IsTexts entries
  /-- The exposed modules may be there. -/
  exposedModules : AtMostOnce "exposed-modules" Json.IsModuleNames entries
  /-- The dependencies may be there. -/
  dependencies : AtMostOnce "dependencies" Json.IsTextMap entries

/-- The kinds of manifest. -/
inductive Layout where
  /-- An application. -/
  | application
  /-- A package. -/
  | package
  /-- A manifest in the older layout. -/
  | legacy

namespace Layout

/-- The places whose texts are read, in order.  This is the order of the parsers in `from_dto`, and
not the order of the text. -/
def places : Layout → List Place
  | .application => [.text ["elm-version"] .version,
      .map ["dependencies", "direct"] .version, .map ["dependencies", "indirect"] .version,
      .map ["test-dependencies", "direct"] .version,
      .map ["test-dependencies", "indirect"] .version]
  | .package => [.text ["name"] .name, .text ["version"] .version,
      .text ["elm-version"] .constraint, .map ["dependencies"] .constraint,
      .map ["test-dependencies"] .constraint]
  | .legacy => [.text ["elm-version"] .constraint, .map ["dependencies"] .constraint]

/-- The object at the path is of the kind, and it has its shape. -/
def InShape (path : Path) (entries : List (String × Json)) : Layout → Prop
  | .application => Manifest.isLegacyPath path = false ∧
      effectiveValue? "type" entries = some (.string "application") ∧ Application.InShape entries
  | .package => Manifest.isLegacyPath path = false ∧
      effectiveValue? "type" entries = some (.string "package") ∧ Package.InShape entries
  | .legacy => Manifest.isLegacyPath path = true ∧ LegacyManifest.InShape entries

end Layout

section Kinds

variable {entries : List (String × Json)} {key : String}

theorem exists_holds_text (h : Once key Json.IsText entries) :
    ∃ text, (Field.ofShape key Json.asText).Holds entries text :=
  (Field.exists_holds_iff_once fun _ => by
    simp [Field.ofShape, Json.exists_asText_iff]).mpr h

theorem exists_mayHold_textMap (h : AtMostOnce key Json.IsTextMap entries) :
    ∃ held, (Field.ofShape key Json.asTextMap).MayHold entries held :=
  (Field.exists_mayHold_iff_atMostOnce fun _ => by
    simp [Field.ofShape, Json.exists_asTextMap_iff]).mpr h

/-- The places of an application are looked at in their order. -/
theorem Application.reports_ofEntries (h : InShape entries) :
    Reports (.object entries) Layout.application.places (ofEntries entries) := by
  obtain ⟨hdirectories, helm, hdependencies, htests⟩ := h
  obtain ⟨directories, hdirectories⟩ := exists_holds_texts_iff.mpr hdirectories
  obtain ⟨elmVersion, helm⟩ := exists_holds_text helm
  obtain ⟨dependencies, hdependencies⟩ :=
    (Field.exists_holds_iff_once (f := dependenciesField) fun _ =>
      ExactDependencyTexts.exists_ofJson_iff).mpr hdependencies
  obtain ⟨tests, htests⟩ :=
    (Field.exists_mayHold_iff_atMostOnce (f := testDependenciesField) fun _ =>
      ExactDependencyTexts.exists_ofJson_iff).mpr htests
  rw [ofEntries_of_holds hdirectories helm hdependencies htests]
  have hheld : dependenciesField.MayHold entries (some dependencies) := hdependencies
  obtain ⟨hdirect, hindirect⟩ := holdsTexts_pins_of_mayHold hheld
  obtain ⟨htestDirect, htestIndirect⟩ := holdsTexts_pins_of_mayHold htests
  refine ((isReadBy_version.judges ["elm-version"] elmVersion).reports
    (valueAt?_of_holds_text helm)).bind fun _ => ?_
  refine (reports_pins hdirect hindirect).bind fun _ => ?_
  exact (reports_pins htestDirect htestIndirect).bind fun _ => reports_nil _

/-- The places of a package are looked at in their order. -/
theorem Package.reports_ofEntries (h : InShape entries) :
    Reports (.object entries) Layout.package.places (ofEntries entries) := by
  obtain ⟨hname, hversion, hsummary, hlicense, helm, hmodules, hdependencies, htests⟩ := h
  obtain ⟨name, hname⟩ := exists_holds_text hname
  obtain ⟨version, hversion⟩ := exists_holds_text hversion
  obtain ⟨summary, hsummary⟩ := exists_mayHold_optionalText_iff.mpr hsummary
  obtain ⟨license, hlicense⟩ := exists_mayHold_optionalText_iff.mpr hlicense
  obtain ⟨elmVersion, helm⟩ := exists_holds_text helm
  obtain ⟨modules, hmodules⟩ := exists_mayHold_moduleNames_iff.mpr hmodules
  obtain ⟨dependencies, hdependencies⟩ := exists_mayHold_textMap hdependencies
  obtain ⟨tests, htests⟩ := exists_mayHold_textMap htests
  rw [ofEntries_of_holds hname hversion hsummary hlicense helm hmodules hdependencies htests]
  -- The name has no parser, but the test for an empty one judges it like a parser would.
  have hjudged : Judges .name ["name"] name
      (if name = "" then .error .emptyName else .ok () : Except SchemaFault Unit) := by
    by_cases hempty : name = ""
    · rw [if_pos hempty]
      exact .fails (by rw [TextKind.complaint?, if_pos hempty]) rfl
    · rw [if_neg hempty]
      exact .passes (by rw [TextKind.complaint?, if_neg hempty])
  have hsteps : ∀ {α : Type} (rest : Except SchemaFault α),
      (if name = "" then throw .emptyName else rest) =
        (if name = "" then .error .emptyName else .ok ()) >>= fun _ => rest := by
    intro α rest
    by_cases hempty : name = ""
    · rw [if_pos hempty, if_pos hempty]
      rfl
    · rw [if_neg hempty, if_neg hempty]
      rfl
  simp only [Except.throw_bind]
  rw [hsteps]
  refine (hjudged.reports (valueAt?_of_holds_text hname)).bind fun _ => ?_
  refine ((isReadBy_version.judges ["version"] version).reports
    (valueAt?_of_holds_text hversion)).bind fun _ => ?_
  refine ((isReadBy_constraint.judges ["elm-version"] elmVersion).reports
    (valueAt?_of_holds_text helm)).bind fun _ => ?_
  refine ((holdsTexts_of_mayHold hdependencies).reports_readTexts isReadBy_constraint
    (List.cons_ne_nil _ _)).bind fun _ => ?_
  exact ((holdsTexts_of_mayHold htests).reports_readTexts isReadBy_constraint
    (List.cons_ne_nil _ _)).bind fun _ => reports_nil _

/-- The places of a legacy manifest are looked at in their order. -/
theorem LegacyManifest.reports_ofEntries (h : InShape entries) :
    Reports (.object entries) Layout.legacy.places (ofEntries entries) := by
  obtain ⟨helm, hdirectories, hmodules, hdependencies⟩ := h
  obtain ⟨elmVersion, helm⟩ := exists_holds_text helm
  obtain ⟨directories, hdirectories⟩ := exists_mayHold_texts_iff.mpr hdirectories
  obtain ⟨modules, hmodules⟩ := exists_mayHold_moduleNames_iff.mpr hmodules
  obtain ⟨dependencies, hdependencies⟩ := exists_mayHold_textMap hdependencies
  rw [ofEntries_of_holds helm hdirectories hmodules hdependencies]
  refine ((isReadBy_constraint.judges ["elm-version"] elmVersion).reports
    (valueAt?_of_holds_text helm)).bind fun _ => ?_
  exact ((holdsTexts_of_mayHold hdependencies).reports_readTexts isReadBy_constraint
    (List.cons_ne_nil _ _)).bind fun _ => reports_nil _

end Kinds

/-! ## Files -/

namespace Layout

variable {path : Path} {bytes : ByteArray} {entries : List (String × Json)} {layout : Layout}

/-- A manifest in shape is decoded by a step that reports on its places. -/
theorem exists_reports_decode (hread : Json.ofBytes bytes = .ok (.object entries))
    (hshape : layout.InShape path entries) : ∃ x : Except SchemaFault Manifest,
      Reports (.object entries) layout.places x ∧
        Manifest.decode path bytes = x.mapError (.schemaMismatch path) := by
  have hmap : ∀ {α : Type} {x : Except SchemaFault α} (kind : α → Manifest),
      Reports (.object entries) layout.places x →
        Reports (.object entries) layout.places (x.map kind) := by
    intro α x kind hx
    cases hx with
    | clean hclean => exact .clean hclean
    | first h hreport => exact .first h hreport
  -- whichever kind it is, its fault is a fault of the schema of this file
  have hfault : ∀ x : Except SchemaFault Manifest,
      (x.mapError DecodeFault.schema).mapError (·.at path) =
        x.mapError (.schemaMismatch path) := by
    intro x
    cases x <;> rfl
  rw [Manifest.decode_of_ofBytes hread]
  cases layout with
  | application =>
    obtain ⟨hpath, hkind, hshape⟩ := hshape
    refine ⟨_, hmap .application (Application.reports_ofEntries hshape), ?_⟩
    rw [← hfault, hpath, Manifest.ofEntries, Json.find?_effective, Manifest.typeKey, hkind]
    rfl
  | package =>
    obtain ⟨hpath, hkind, hshape⟩ := hshape
    refine ⟨_, hmap .package (Package.reports_ofEntries hshape), ?_⟩
    rw [← hfault, hpath, Manifest.ofEntries, Json.find?_effective, Manifest.typeKey, hkind]
    rfl
  | legacy =>
    obtain ⟨hpath, hshape⟩ := hshape
    refine ⟨_, hmap .legacy (LegacyManifest.reports_ofEntries hshape), ?_⟩
    rw [← hfault, hpath]
    rfl

/-- **Decoding fails for the first text at fault.**  For a manifest in shape, the error says where
that text stands and what is wrong with it; there is a first text at fault if there is any; and if
there is none, the manifest is decoded.  As the names of a map are gone through in the order of
their bytes, the report does not depend on the order of the text. -/
theorem decode_firstOffence (hread : Json.ofBytes bytes = .ok (.object entries))
    (hshape : layout.InShape path entries) :
    (∀ keys complaint, FirstOffence (.object entries) layout.places keys complaint →
      ∃ fault, Manifest.decode path bytes = .error (.schemaMismatch path fault) ∧
        fault.message = "field `" ++ ".".intercalate keys ++ "`" ++ complaint) ∧
    ((∃ place ∈ layout.places, ∃ keys complaint, place.Offence (.object entries) keys complaint) →
      ∃ keys complaint, FirstOffence (.object entries) layout.places keys complaint) ∧
    ((∀ place ∈ layout.places, place.IsClean (.object entries)) →
      ∃ m, Manifest.decode path bytes = .ok m) := by
  obtain ⟨x, hx, hdecode⟩ := exists_reports_decode hread hshape
  rw [hdecode]
  cases hx with
  | @clean m hclean =>
    refine ⟨fun keys complaint hfirst => ?_, ?_, fun _ => ⟨m, rfl⟩⟩
    · obtain ⟨place, hplace, hoffence⟩ := hfirst.exists_offence
      exact absurd hoffence (hclean place hplace keys complaint)
    · rintro ⟨place, hplace, keys, complaint, hoffence⟩
      exact absurd hoffence (hclean place hplace keys complaint)
  | @first fault keys complaint hfirst hreport =>
    refine ⟨fun keys' complaint' hfirst' => ?_, fun _ => ⟨keys, complaint, hfirst⟩, ?_⟩
    · obtain ⟨rfl, rfl⟩ := hfirst.unique hfirst'
      exact ⟨fault, rfl, hreport⟩
    · intro hclean
      obtain ⟨place, hplace, hoffence⟩ := hfirst.exists_offence
      exact absurd hoffence (hclean place hplace keys complaint)

end Layout

/-- The entries of a manifest in which two dependencies are at fault, one of them because a later
value replaces a better one. -/
def faultyEntries : List (String × Json) := [
  ("dependencies", .object [("c/d", .string "1.0.0"), ("a/b", .string "1.0.0 <= v < 2.0.0"),
    ("a/b", .string "2.0.0 <= v < 1.0.0")]),
  ("elm-version", .string "0.18.0 <= v < 0.19.0")]

/-- Their text. -/
def faultyText : String :=
  String.ofList (Json.objectText [
    ("dependencies", Json.objectText [("c/d", Json.stringText "1.0.0"),
      ("a/b", Json.stringText "1.0.0 <= v < 2.0.0"),
      ("a/b", Json.stringText "2.0.0 <= v < 1.0.0")]),
    ("elm-version", Json.stringText "0.18.0 <= v < 0.19.0")])

theorem ofBytes_faultyText :
    Json.ofBytes faultyText.toUTF8 = .ok (.object faultyEntries) := by
  have hdependencies : Json.Spells (125 + 1)
      (Json.objectText [("c/d", Json.stringText "1.0.0"),
        ("a/b", Json.stringText "1.0.0 <= v < 2.0.0"),
        ("a/b", Json.stringText "2.0.0 <= v < 1.0.0")])
      (.object [("c/d", .string "1.0.0"), ("a/b", .string "1.0.0 <= v < 2.0.0"),
        ("a/b", .string "2.0.0 <= v < 1.0.0")]) :=
    Json.spells_object (.cons ⟨rfl, Json.spells_string ..⟩ (.cons ⟨rfl, Json.spells_string ..⟩
      (.cons ⟨rfl, Json.spells_string ..⟩ .nil)))
  exact Json.ofBytes_objectText
    (.cons ⟨rfl, hdependencies⟩ (.cons ⟨rfl, Json.spells_string ..⟩ .nil))

theorem inShape_faultyEntries : Layout.legacy.InShape ⟨"elm-package.json"⟩ faultyEntries := by
  refine ⟨by decide +kernel, ⟨_, rfl, _, rfl, trivial⟩, .inl rfl, .inl rfl, .inr ⟨_, rfl, ?_⟩⟩
  exact ⟨_, rfl, Json.exists_textEntries_iff.mp ⟨[("c/d", "1.0.0"), ("a/b", "1.0.0 <= v < 2.0.0"),
    ("a/b", "2.0.0 <= v < 1.0.0")], rfl⟩⟩

/-- The smaller name comes first, with its last value. -/
theorem firstOffence_faultyEntries :
    FirstOffence (.object faultyEntries) Layout.legacy.places ["dependencies", "a/b"]
      ": invalid constraint '2.0.0 <= v < 1.0.0': lower bound is greater than upper bound" := by
  have hnone : TextKind.constraint.complaint? "0.18.0 <= v < 0.19.0" = none := by decide +kernel
  have hfault : Offends (.object faultyEntries) .constraint ["dependencies", "a/b"]
      ": invalid constraint '2.0.0 <= v < 1.0.0': lower bound is greater than upper bound" :=
    ⟨"2.0.0 <= v < 1.0.0", rfl, by decide +kernel⟩
  refine .later ?_ (@FirstOffence.entry _ _ ["dependencies"] "a/b" _ hfault ?_ [])
  · rintro _ complaint (⟨text, htext, hcomplaint⟩ | _)
    cases htext
    rw [hnone] at hcomplaint
    cases hcomplaint
  · rintro other complaint ⟨text, htext, -⟩
    have hvalue : (Json.object faultyEntries).valueAt? ["dependencies"] =
        some (.object [("c/d", .string "1.0.0"), ("a/b", .string "1.0.0 <= v < 2.0.0"),
          ("a/b", .string "2.0.0 <= v < 1.0.0")]) := valueAt?_of_once rfl
    rw [Json.valueAt?_append hvalue, Json.valueAt?_singleton] at htext
    have hmem := mem_of_effectiveValue?_eq_some htext
    simp only [List.mem_cons, Prod.mk.injEq, List.not_mem_nil, or_false] at hmem
    rw [utf8Bytes_lt_iff]
    obtain ⟨rfl, -⟩ | ⟨rfl, -⟩ | ⟨rfl, -⟩ := hmem <;> decide

/-- Of the two dependencies at fault the one with the lesser name is reported, although the other
one comes first in the text. -/
theorem decode_firstOffence_faultyText : ∃ fault,
    Manifest.decode ⟨"elm-package.json"⟩ faultyText.toUTF8 =
        .error (.schemaMismatch ⟨"elm-package.json"⟩ fault) ∧
      fault.message = "field `dependencies.a/b`: invalid constraint '2.0.0 <= v < 1.0.0': " ++
        "lower bound is greater than upper bound" := by
  obtain ⟨fault, hdecode, hmessage⟩ :=
    (Layout.decode_firstOffence ofBytes_faultyText inShape_faultyEntries).1 _ _
      firstOffence_faultyEntries
  refine ⟨fault, hdecode, ?_⟩
  rw [hmessage]
  decide +kernel

end ElmManifest
