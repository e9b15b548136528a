import ElmManifest.Manifest.Writer
import ElmManifest.Proofs.Constraint.Reading
import ElmManifest.Proofs.Json.Writing
import ElmManifest.Proofs.Manifest.Fields
import ElmManifest.Proofs.Resolution.Tags

/-!
# Decoding what is written

A manifest is decoded from its text, and nothing of it is lost: names and texts with any characters
in them, the tags of versions, the order of maps, the order of modules.  The text spells an object
(`Package.entries` and its siblings), and the fields of that object hold what the manifest declares.

## Main Definitions

* `Application.entries`, `Package.entries`, `LegacyManifest.entries` — what the text of a manifest
  spells.
* `Constraint.IsOrdered` — a constraint that can be read back.
* `Manifest.WritableAt` — a manifest that is all in its text, at a path of its kind.

## Main Statements

* `Manifest.decode_text` — a manifest is decoded from its text.
-/

namespace ElmManifest

/-! ## Spelling the parts of a manifest -/

namespace Json

theorem spells_texts (depth : Nat) (texts : List String) :
    Spells (depth + 1) (textsText texts) (.array (texts.map .string)) := by
  apply spells_array
  rw [List.forall₂_map_left_iff, List.forall₂_map_right_iff, List.forall₂_same]
  exact fun text _ => spells_string depth text

theorem spells_map {α : Type} (depth : Nat) (write : α → String) (m : NameMap α) :
    Spells (depth + 1) (mapText write m) (.object (textEntries (m.map write).toList)) := by
  apply spells_object
  unfold textEntries
  rw [List.forall₂_map_left_iff, List.forall₂_map_right_iff, List.forall₂_same]
  exact fun entry _ => ⟨rfl, spells_string depth entry.2⟩

theorem spells_optional (depth : Nat) (text : Option String) :
    Spells depth (optionalText text) (text.elim .null .string) := by
  cases text with
  | none => exact spells_null depth
  | some text => exact spells_string depth text

end Json

/-! ## Reading the parts of a manifest -/

/-- A field reads what the reader of its shape reads. -/
theorem Field.read_ofShape {α : Type} {key : String} {read : Json → Except Json.Mismatch α}
    {value : Json} {a : α} (h : read value = .ok a) : (ofShape key read).read value = .ok a :=
  Except.mapError_eq_ok_iff.mpr h

namespace Json

theorem asOptionalText_elim (text : Option String) :
    asOptionalText (text.elim .null .string) = .ok text :=
  asOptionalText_eq_ok_iff.mpr rfl

theorem asTexts_map (texts : List String) : asTexts (.array (texts.map .string)) = .ok texts :=
  asTexts_eq_ok_iff.mpr rfl

theorem asModuleNames_map (names : List String) :
    asModuleNames (.array (names.map .string)) = .ok names :=
  asModuleNames_eq_ok_iff.mpr (.inl rfl)

theorem asTextMap_textEntries (m : NameMap String) :
    asTextMap (.object (textEntries m.toList)) = .ok m :=
  asTextMap_eq_ok_iff.mpr ⟨m.toList, rfl, m.ofList_toList⟩

theorem asEffectiveTextMap_textEntries (m : NameMap String) :
    asEffectiveTextMap (.object (textEntries m.toList)) = .ok m := by
  refine asEffectiveTextMap_eq_ok_iff.mpr ⟨_, rfl, ?_⟩
  apply NameMap.toList_ofList
  exact m.ascending.map _ fun _ _ h => h

end Json

/-- The lower end does not lie above the upper one. -/
def Constraint.IsOrdered (c : Constraint) : Prop :=
  c.lower.toRelease ≤ c.upper.toRelease

/-- A map is read back if its values are. -/
theorem NameMap.traverse_map {α β ε : Type} {m : NameMap α} {write : α → β}
    {read : String → β → Except ε α}
    (h : ∀ entry ∈ m.toList, read entry.1 (write entry.2) = .ok entry.2) :
    (m.map write).traverse read = .ok m := by
  rw [traverse_eq_ok_iff, NameMap.map, List.forall₂_map_left_iff, List.forall₂_same]
  exact fun entry hentry => ⟨rfl, h entry hentry⟩

/-- A map is read back from the texts of its values, if each text is read as its value. -/
theorem readTexts_map {ε α : Type} {parse : String → Except ε α}
    {fault : String → ε → SchemaFault} {m : NameMap α} {write : α → String}
    (h : ∀ entry ∈ m.toList, parse (write entry.2) = .ok entry.2) (field : String) :
    readTexts parse fault field (m.map write) = .ok m :=
  NameMap.traverse_map fun entry hentry => readText_eq_ok_iff.mpr (h entry hentry)

theorem parse_text_of_ordered {m : NameMap Constraint}
    (h : ∀ entry ∈ m.toList, entry.2.IsOrdered) :
    ∀ entry ∈ m.toList, Constraint.parse entry.2.text = .ok entry.2 :=
  fun entry hentry => Constraint.parse_text (h entry hentry)

/-! ## Packages -/

namespace Package

/-- The entries that the text of a package spells. -/
def entries (p : Package) : List (String × Json) := [
  ("type", .string "package"),
  ("name", .string p.name),
  ("version", .string p.version.text),
  ("summary", p.summary.elim .null .string),
  ("license", p.license.elim .null .string),
  ("elm-version", .string p.elmVersion.text),
  ("exposed-modules", .array (p.exposedModules.map .string)),
  ("dependencies", .object (Json.textEntries (p.dependencies.map Constraint.text).toList)),
  ("test-dependencies", .object (Json.textEntries (p.testDependencies.map Constraint.text).toList))]

theorem spells_text (p : Package) : Json.Spells Json.maxDepth p.text (.object p.entries) := by
  show Json.Spells (126 + 1) _ _
  apply Json.spells_object
  unfold entries
  simp only [List.forall₂_cons, List.Forall₂.nil, true_and, and_true]
  exact ⟨Json.spells_string .., Json.spells_string .., Json.spells_string ..,
    Json.spells_optional .., Json.spells_optional .., Json.spells_string .., Json.spells_texts ..,
    Json.spells_map .., Json.spells_map ..⟩

/-- The package can be read back from its text.  Ranges have to be in order because a reader refuses
others, and versions are always read back. -/
structure IsWritable (p : Package) : Prop where
  /-- It has a name. -/
  name : p.name ≠ ""
  /-- The range of compiler versions is in order. -/
  elmVersion : p.elmVersion.IsOrdered
  /-- The ranges of the dependencies are in order. -/
  dependencies : ∀ entry ∈ p.dependencies.toList, entry.2.IsOrdered
  /-- The ranges of the test dependencies are in order. -/
  testDependencies : ∀ entry ∈ p.testDependencies.toList, entry.2.IsOrdered

/-- The entries of a package are read as the package. -/
theorem ofEntries_entries {p : Package} (h : p.IsWritable) : ofEntries p.entries = .ok p := by
  refine ofEntries_eq_ok_iff.mpr ⟨p.version.text, some p.summary, some p.license,
    p.elmVersion.text, some p.exposedModules, some (p.dependencies.map Constraint.text),
    some (p.testDependencies.map Constraint.text), ⟨_, rfl, rfl⟩, ⟨_, rfl, rfl⟩, ⟨_, rfl, ?_⟩,
    ⟨_, rfl, ?_⟩, ⟨_, rfl, rfl⟩, ⟨_, rfl, ?_⟩, ⟨_, rfl, ?_⟩, ⟨_, rfl, ?_⟩, h.name,
    readText_eq_ok_iff.mpr (Version.parse_eq_ok_iff.mpr rfl),
    readText_eq_ok_iff.mpr (Constraint.parse_text h.elmVersion),
    readTexts_map (parse_text_of_ordered h.dependencies) _,
    readTexts_map (parse_text_of_ordered h.testDependencies) _,
    rfl, rfl, rfl⟩
  · exact Field.read_ofShape (Json.asOptionalText_elim p.summary)
  · exact Field.read_ofShape (Json.asOptionalText_elim p.license)
  · exact Field.read_ofShape (Json.asModuleNames_map p.exposedModules)
  · exact Field.read_ofShape (Json.asTextMap_textEntries _)
  · exact Field.read_ofShape (Json.asTextMap_textEntries _)

end Package

/-! ## Applications -/

/-- The value that the text of exact dependencies spells. -/
def ExactDependencies.toJson (d : ExactDependencies) : Json := .object [
  ("direct", .object (Json.textEntries (d.direct.map Version.text).toList)),
  ("indirect", .object (Json.textEntries (d.indirect.map Version.text).toList))]

/-- The versions of exact dependencies as texts. -/
def ExactDependencies.texts (d : ExactDependencies) : ExactDependencyTexts :=
  ⟨d.direct.map Version.text, d.indirect.map Version.text⟩

theorem ExactDependencies.spells_text (depth : Nat) (d : ExactDependencies) :
    Json.Spells (depth + 1 + 1) d.text d.toJson := by
  apply Json.spells_object
  simp only [List.forall₂_cons, List.Forall₂.nil, true_and, and_true]
  exact ⟨Json.spells_map .., Json.spells_map ..⟩

theorem ExactDependencies.ofJson_toJson (d : ExactDependencies) :
    ExactDependencyTexts.ofJson d.toJson = .ok d.texts := by
  have hgroup : ∀ {key : String} {m : NameMap String} {entries : List (String × Json)},
      effectiveValue? key entries = some (.object (Json.textEntries m.toList)) →
        ExactDependencyTexts.group (Json.effective entries) key = .ok m := by
    intro key m entries h
    rw [ExactDependencyTexts.group, Json.find?_effective, h]
    exact Except.mapError_eq_ok_iff.mpr (Json.asEffectiveTextMap_textEntries m)
  simp only [ExactDependencyTexts.ofJson, toJson, Json.asEntries, Except.bind_eq_ok_iff,
    Except.pure_eq_ok_iff]
  exact ⟨_, rfl, _, hgroup rfl, _, hgroup rfl, rfl⟩

theorem ExactDependencies.readVersions_texts (field : String) (d : ExactDependencies) :
    d.texts.readVersions field = .ok d := by
  have hread : ∀ (field : String) (m : NameMap Version),
      readVersions field (m.map Version.text) = .ok m :=
    fun field m => readTexts_map (fun _ _ => Version.parse_eq_ok_iff.mpr rfl) field
  simp [ExactDependencyTexts.readVersions, texts, hread]

namespace Application

/-- The entries that the text of an application spells. -/
def entries (a : Application) : List (String × Json) := [
  ("type", .string "application"),
  ("source-directories", .array (a.sourceDirectories.map .string)),
  ("elm-version", .string a.elmVersion.text),
  ("dependencies", a.dependencies.toJson),
  ("test-dependencies", a.testDependencies.toJson)]

theorem spells_text (a : Application) : Json.Spells Json.maxDepth a.text (.object a.entries) := by
  show Json.Spells (124 + 1 + 1 + 1) _ _
  apply Json.spells_object
  unfold entries
  simp only [List.forall₂_cons, List.Forall₂.nil, true_and, and_true]
  exact ⟨Json.spells_string .., Json.spells_texts .., Json.spells_string ..,
    ExactDependencies.spells_text .., ExactDependencies.spells_text ..⟩

/-- The entries of an application are read as the application, but for its test directory. -/
theorem ofEntries_entries {a : Application} (h : a.testDirectory = none) :
    ofEntries a.entries = .ok a :=
  ofEntries_eq_ok_iff.mpr ⟨a.elmVersion.text, a.dependencies.texts, some a.testDependencies.texts,
    ⟨_, rfl, Field.read_ofShape (Json.asTexts_map a.sourceDirectories)⟩, ⟨_, rfl, rfl⟩,
    ⟨_, rfl, a.dependencies.ofJson_toJson⟩, ⟨_, rfl, a.testDependencies.ofJson_toJson⟩,
    readText_eq_ok_iff.mpr (Version.parse_eq_ok_iff.mpr rfl), a.dependencies.readVersions_texts _,
    a.testDependencies.readVersions_texts _, h⟩

end Application

/-! ## Legacy manifests -/

namespace LegacyManifest

/-- The entries that the text of a legacy manifest spells. -/
def entries (m : LegacyManifest) : List (String × Json) := [
  ("elm-version", .string m.elmVersion.text),
  ("source-directories", .array (m.sourceDirectories.map .string)),
  ("exposed-modules", .array (m.exposedModules.map .string)),
  ("dependencies", .object (Json.textEntries (m.dependencies.map Constraint.text).toList))]

theorem spells_text (m : LegacyManifest) :
    Json.Spells Json.maxDepth m.text (.object m.entries) := by
  show Json.Spells (125 + 1 + 1) _ _
  apply Json.spells_object
  unfold entries
  simp only [List.forall₂_cons, List.Forall₂.nil, true_and, and_true]
  exact ⟨Json.spells_string .., Json.spells_texts .., Json.spells_texts .., Json.spells_map ..⟩

/-- The legacy manifest can be read back from its text. -/
structure IsWritable (m : LegacyManifest) : Prop where
  /-- The range of compiler versions is in order. -/
  elmVersion : m.elmVersion.IsOrdered
  /-- The ranges of the dependencies are in order. -/
  dependencies : ∀ entry ∈ m.dependencies.toList, entry.2.IsOrdered
  /-- It has no exact versions, which are kept in a file of their own. -/
  exactDependencies : m.exactDependencies = .empty

/-- The entries of a legacy manifest are read as the manifest. -/
theorem ofEntries_entries {m : LegacyManifest} (h : m.IsWritable) :
    ofEntries m.entries = .ok m :=
  ofEntries_eq_ok_iff.mpr ⟨m.elmVersion.text, some m.sourceDirectories, some m.exposedModules,
    some (m.dependencies.map Constraint.text), ⟨_, rfl, rfl⟩,
    ⟨_, rfl, Field.read_ofShape (Json.asTexts_map m.sourceDirectories)⟩,
    ⟨_, rfl, Field.read_ofShape (Json.asModuleNames_map m.exposedModules)⟩,
    ⟨_, rfl, Field.read_ofShape (Json.asTextMap_textEntries _)⟩,
    readText_eq_ok_iff.mpr (Constraint.parse_text h.elmVersion),
    readTexts_map (parse_text_of_ordered h.dependencies) _, rfl, rfl, h.exactDependencies⟩

end LegacyManifest

/-! ## Manifests -/

namespace Manifest

/-- The manifest is all in its text, and the path is one for its kind. -/
def WritableAt (path : Path) : Manifest → Prop
  | .application declared => isLegacyPath path = false ∧ declared.testDirectory = none
  | .package declared => isLegacyPath path = false ∧ declared.IsWritable
  | .legacy declared => isLegacyPath path = true ∧ declared.IsWritable

/-- **A manifest is decoded from its text.**  Tags are read back with everything else, so the
manifest is the same and not only equal to it. -/
theorem decode_text {path : Path} {m : Manifest} (h : m.WritableAt path) :
    decode path m.text.toUTF8 = .ok m := by
  cases m with
  | application declared =>
    obtain ⟨hpath, hdirectory⟩ := h
    rw [text, decode_eq_ok_iff (Json.ofBytes_of_spells declared.spells_text), hpath]
    exact ofEntries_eq_ok_iff.mpr
      (.inl ⟨rfl, declared, Application.ofEntries_entries hdirectory, rfl⟩)
  | package declared =>
    obtain ⟨hpath, hwritable⟩ := h
    rw [text, decode_eq_ok_iff (Json.ofBytes_of_spells declared.spells_text), hpath]
    exact ofEntries_eq_ok_iff.mpr
      (.inr ⟨rfl, declared, Package.ofEntries_entries hwritable, rfl⟩)
  | legacy declared =>
    obtain ⟨hpath, hwritable⟩ := h
    rw [text, decode_eq_ok_iff (Json.ofBytes_of_spells declared.spells_text), hpath]
    exact ⟨declared, LegacyManifest.ofEntries_entries hwritable, rfl⟩

end Manifest

/-! ## Texts that need care -/

/-- A version with a tag of each kind. -/
def taggedVersion : Version :=
  { betaVersion with build := [⟨"7", by decide, List.all_eq_true.mp (by decide)⟩] }

/-- A range of one version, tags included. -/
def taggedRange : Constraint := ⟨taggedVersion, true, taggedVersion, true⟩

/-- A package with quotes, a line break and a control character in its texts. -/
def quotedPackage : Package where
  name := "a/\"b\""
  version := taggedVersion
  summary := some "one\ntwo\x00"
  license := none
  elmVersion := taggedRange
  exposedModules := ["Λ", "\\"]
  dependencies := .ofList [("b/\t", taggedRange)]
  testDependencies := .empty

/-- An application with that version and that name in it. -/
def quotedApplication : Application where
  elmVersion := taggedVersion
  sourceDirectories := ["\""]
  dependencies := ⟨.ofList [("a/\"b\"", taggedVersion)], .empty⟩
  testDependencies := ⟨.empty, .ofList [("b/\t", taggedVersion)]⟩
  testDirectory := none

/-- A legacy manifest with that range in it. -/
def quotedLegacyManifest : LegacyManifest where
  elmVersion := taggedRange
  sourceDirectories := []
  exposedModules := ["Λ"]
  dependencies := .ofList [("a/\"b\"", taggedRange)]
  exactDependencies := .empty

/-- Manifests of all three kinds with texts that need escapes, tags and a range of one version are
decoded from their texts. -/
theorem decode_text_quoted :
    let package := Manifest.package quotedPackage
    let application := Manifest.application quotedApplication
    let legacy := Manifest.legacy quotedLegacyManifest
    (package.WritableAt ⟨"elm.json"⟩ ∧
      Manifest.decode ⟨"elm.json"⟩ package.text.toUTF8 = .ok package) ∧
    (application.WritableAt ⟨"elm.json"⟩ ∧
      Manifest.decode ⟨"elm.json"⟩ application.text.toUTF8 = .ok application) ∧
    (legacy.WritableAt ⟨"elm-package.json"⟩ ∧
      Manifest.decode ⟨"elm-package.json"⟩ legacy.text.toUTF8 = .ok legacy) := by
  intro package application legacy
  have hordered : taggedRange.IsOrdered := by
    unfold Constraint.IsOrdered
    decide
  have hpackage : package.WritableAt ⟨"elm.json"⟩ := by
    refine ⟨by decide +kernel, ?_, hordered, ?_, ?_⟩
    · decide
    · rintro entry hentry
      cases List.mem_singleton.mp hentry
      exact hordered
    · exact fun entry hentry => absurd hentry List.not_mem_nil
  have happlication : application.WritableAt ⟨"elm.json"⟩ := ⟨by decide +kernel, rfl⟩
  have hlegacy : legacy.WritableAt ⟨"elm-package.json"⟩ := by
    refine ⟨by decide +kernel, hordered, ?_, rfl⟩
    rintro entry hentry
    cases List.mem_singleton.mp hentry
    exact hordered
  exact ⟨⟨hpackage, Manifest.decode_text hpackage⟩,
    ⟨happlication, Manifest.decode_text happlication⟩, hlegacy, Manifest.decode_text hlegacy⟩

end ElmManifest
