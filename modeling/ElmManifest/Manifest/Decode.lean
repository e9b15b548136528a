import ElmManifest.Manifest.Schema

/-!
# Decoding manifests

From the bytes of a file to what they declare.

## Main Definitions

* `Application.ofEntries`, `Package.ofEntries`, `LegacyManifest.ofEntries` — an object as a manifest
  of each kind.
* `Manifest.decode` — the bytes of a manifest file.
* `Sidecar.decode`, `ExactDependencies.decode` — the bytes of the files beside a manifest.

## Design Notes

A manifest is read in three steps, and no step starts before the one before it has succeeded: the
bytes must be JSON, the fields must have their shapes, and the texts in them must be versions and
constraints.  Within the last step the texts are read in the order in which each `ofEntries` names
them, entries of a map in order of name.  The file name alone marks a manifest in the older layout;
otherwise the last field `type` decides.
-/

namespace ElmManifest

/-! ## Texts in fields -/

section Texts

variable {ε α : Type}

/-- Reads the text in a field.  What its parser says of a text that it refuses is told together with
the field.  Versions and constraints are both read so, each with its own parser and its own
fault. -/
def readText (parse : String → Except ε α) (fault : String → ε → SchemaFault)
    (field text : String) : Except SchemaFault α :=
  (parse text).mapError (fault field)

/-- An entry of a map, as messages name it. -/
def entryName (field name : String) : String :=
  field ++ "." ++ name

/-- Reads the texts in a map, in order of name, each of them as a field of its own.  The first that
is refused is reported and the others are not looked at. -/
def readTexts (parse : String → Except ε α) (fault : String → ε → SchemaFault) (field : String)
    (texts : NameMap String) : Except SchemaFault (NameMap α) :=
  texts.traverse fun name text => readText parse fault (entryName field name) text

end Texts

/-- Reads the version in a field: `parse_version`. -/
abbrev readVersion : String → String → Except SchemaFault Version :=
  readText Version.parse .badVersion

/-- Reads the constraint in a field: `parse_constraint`. -/
abbrev readConstraint : String → String → Except SchemaFault Constraint :=
  readText Constraint.parse .badConstraint

/-- Reads the versions in a map: `parse_versions`. -/
abbrev readVersions : String → NameMap String → Except SchemaFault (NameMap Version) :=
  readTexts Version.parse .badVersion

/-- Reads the constraints in a map: `parse_constraints`. -/
abbrev readConstraints : String → NameMap String → Except SchemaFault (NameMap Constraint) :=
  readTexts Constraint.parse .badConstraint

/-! ## Applications -/

/-- Exact dependencies whose versions are still texts, since all the shapes of a manifest are
settled before any version in it is read. -/
structure ExactDependencyTexts where
  /-- The direct dependencies. -/
  direct : NameMap String
  /-- The indirect dependencies. -/
  indirect : NameMap String

namespace ExactDependencyTexts

/-- No dependencies. -/
def empty : ExactDependencyTexts := ⟨.empty, .empty⟩

/-- The group of dependencies under a key, or none: both groups may be missing. -/
def group (entries : NameMap Json) (key : String) : Except SchemaFault (NameMap String) :=
  match entries.find? key with
  | none => .ok .empty
  | some value => value.asEffectiveTextMap.mapError .wrongShape

/-- Reads the two groups from an object; only the entries that count are looked at.  An array is
refused, as `object` sees to: it could be taken for the groups in their order. -/
def ofJson (value : Json) : Except SchemaFault ExactDependencyTexts := do
  let entries := Json.effective (← value.asEntries)
  let direct ← group entries "direct"
  let indirect ← group entries "indirect"
  return ⟨direct, indirect⟩

/-- Reads the versions: the direct ones, then the indirect ones. -/
def readVersions (field : String) (texts : ExactDependencyTexts) :
    Except SchemaFault ExactDependencies := do
  let direct ← ElmManifest.readVersions (entryName field "direct") texts.direct
  let indirect ← ElmManifest.readVersions (entryName field "indirect") texts.indirect
  return ⟨direct, indirect⟩

end ExactDependencyTexts

namespace Application

/-- The field with the source directories. -/
def sourceDirectoriesField : Field (List String) := .ofShape "source-directories" Json.asTexts

/-- The field with the compiler version. -/
def elmVersionField : Field String := .ofShape "elm-version" Json.asText

/-- The field with the runtime dependencies. -/
def dependenciesField : Field ExactDependencyTexts := ⟨"dependencies", ExactDependencyTexts.ofJson⟩

/-- The field with the test dependencies. -/
def testDependenciesField : Field ExactDependencyTexts :=
  ⟨"test-dependencies", ExactDependencyTexts.ofJson⟩

/-- The fields of an application manifest, as far as a scan needs to know them. -/
def fields : List (Field Unit) :=
  [sourceDirectoriesField.check, elmVersionField.check, dependenciesField.check,
    testDependenciesField.check]

/-- Reads the entries of an application manifest.  The fields come first, in the order of the text
and then the required ones that are missing; the versions in them are read afterwards, as `from_dto`
does, the compiler version before the dependencies. -/
def ofEntries (entries : List (String × Json)) : Except SchemaFault Application := do
  Field.scan fields [] entries
  let sourceDirectories ← sourceDirectoriesField.require entries
  let elmVersion ← elmVersionField.require entries
  let dependencies ← dependenciesField.require entries
  let testDependencies ← testDependenciesField.find entries
  let elmVersion ← readVersion "elm-version" elmVersion
  let dependencies ← dependencies.readVersions "dependencies"
  let testDependencies ← (testDependencies.getD .empty).readVersions "test-dependencies"
  return { elmVersion, sourceDirectories, dependencies, testDependencies, testDirectory := none }

end Application

/-! ## Packages -/

namespace Package

/-- The field with the name. -/
def nameField : Field String := .ofShape "name" Json.asText

/-- The field with the version. -/
def versionField : Field String := .ofShape "version" Json.asText

/-- The field with the description. -/
def summaryField : Field (Option String) := .ofShape "summary" Json.asOptionalText

/-- The field with the licence. -/
def licenseField : Field (Option String) := .ofShape "license" Json.asOptionalText

/-- The field with the accepted compiler versions. -/
def elmVersionField : Field String := .ofShape "elm-version" Json.asText

/-- The field with the exposed modules. -/
def exposedModulesField : Field (List String) := .ofShape "exposed-modules" Json.asModuleNames

/-- The field with the runtime dependencies. -/
def dependenciesField : Field (NameMap String) := .ofShape "dependencies" Json.asTextMap

/-- The field with the test dependencies. -/
def testDependenciesField : Field (NameMap String) := .ofShape "test-dependencies" Json.asTextMap

/-- The fields of a package manifest, as far as a scan needs to know them. -/
def fields : List (Field Unit) :=
  [nameField.check, versionField.check, summaryField.check, licenseField.check,
    elmVersionField.check, exposedModulesField.check, dependenciesField.check,
    testDependenciesField.check]

/-- Reads the entries of a package manifest: the fields first, then whether there is a name, then
the versions and constraints in the order of `from_dto`. -/
def ofEntries (entries : List (String × Json)) : Except SchemaFault Package := do
  Field.scan fields [] entries
  let name ← nameField.require entries
  let version ← versionField.require entries
  let summary ← summaryField.find entries
  let license ← licenseField.find entries
  let elmVersion ← elmVersionField.require entries
  let exposedModules ← exposedModulesField.find entries
  let dependencies ← dependenciesField.find entries
  let testDependencies ← testDependenciesField.find entries
  if name = "" then throw .emptyName
  let version ← readVersion "version" version
  let elmVersion ← readConstraint "elm-version" elmVersion
  let dependencies ← readConstraints "dependencies" (dependencies.getD .empty)
  let testDependencies ← readConstraints "test-dependencies" (testDependencies.getD .empty)
  return {
    name, version, summary := summary.join, license := license.join, elmVersion,
    exposedModules := exposedModules.getD [], dependencies, testDependencies }

end Package

/-! ## Legacy manifests -/

namespace LegacyManifest

/-- The field with the accepted compiler versions. -/
def elmVersionField : Field String := .ofShape "elm-version" Json.asText

/-- The field with the source directories. -/
def sourceDirectoriesField : Field (List String) := .ofShape "source-directories" Json.asTexts

/-- The field with the exposed modules. -/
def exposedModulesField : Field (List String) := .ofShape "exposed-modules" Json.asModuleNames

/-- The field with the dependencies. -/
def dependenciesField : Field (NameMap String) := .ofShape "dependencies" Json.asTextMap

/-- The source directories of a project that names none: `default_legacy_source_directories`. -/
def defaultSourceDirectories : List String := ["."]

/-- The fields of a manifest in the older layout, as far as a scan needs to know them. -/
def fields : List (Field Unit) :=
  [elmVersionField.check, sourceDirectoriesField.check, exposedModulesField.check,
    dependenciesField.check]

/-- Reads the entries of a manifest in the older layout.  The exact versions are none yet: they are
in a file of their own. -/
def ofEntries (entries : List (String × Json)) : Except SchemaFault LegacyManifest := do
  Field.scan fields [] entries
  let elmVersion ← elmVersionField.require entries
  let sourceDirectories ← sourceDirectoriesField.find entries
  let exposedModules ← exposedModulesField.find entries
  let dependencies ← dependenciesField.find entries
  let elmVersion ← readConstraint "elm-version" elmVersion
  let dependencies ← readConstraints "dependencies" (dependencies.getD .empty)
  return {
    elmVersion, sourceDirectories := sourceDirectories.getD defaultSourceDirectories,
    exposedModules := exposedModules.getD [], dependencies, exactDependencies := .empty }

end LegacyManifest

/-! ## Files -/

/-- Reads bytes as JSON, whatever value it is: the first half of `read_object`. -/
def readJson (bytes : ByteArray) : Except DecodeFault Json :=
  (Json.ofBytes bytes).mapError .malformed

namespace Manifest

/-- The key of the field that names the kind of manifest. -/
def typeKey : String := "type"

/-- Whether a file holds a manifest in the older layout, by its name: `is_legacy_manifest`. -/
def isLegacyPath (path : Path) : Bool :=
  path.fileName? == some legacyManifestName

/-- Reads the entries of a manifest, by the kind they declare.  Under a repeated `type` the last
value counts, as in any map that is read from an object. -/
def ofEntries (entries : List (String × Json)) : Except DecodeFault Manifest :=
  match (Json.effective entries).find? typeKey with
  | none => .error (.schema (.missingField typeKey))
  | some (.string kind) =>
    if kind = "application" then
      ((Application.ofEntries entries).map .application).mapError .schema
    else if kind = "package" then ((Package.ofEntries entries).map .package).mapError .schema
    else .error (.unknownType kind)
  | some value => .error (.schema (.typeNotText value.kind))

/-- Reads the bytes of a manifest, which is in the older layout or not.  The older layout has no
kinds, so no field `type` is looked for in it. -/
def ofBytes (legacy : Bool) (bytes : ByteArray) : Except DecodeFault Manifest := do
  let value ← readJson bytes
  let entries ← value.asEntries.mapError .schema
  if legacy then ((LegacyManifest.ofEntries entries).map .legacy).mapError .schema
  else ofEntries entries

/-- Reads the bytes of the manifest at a path: `decode_manifest`.  The path has two uses here: its
name tells the layout, and every error holds it. -/
def decode (path : Path) (bytes : ByteArray) : Except LoadError Manifest :=
  (ofBytes (isLegacyPath path) bytes).mapError (·.at path)

end Manifest

namespace Sidecar

/-- The field with the test directory. -/
def testDirectoryField : Field (Option String) := .ofShape "test-directory" Json.asOptionalText

/-- Reads the entries of a sidecar.  Other settings are skipped, so that a sidecar may hold what
this program knows nothing of. -/
def ofEntries (entries : List (String × Json)) : Except SchemaFault Sidecar := do
  Field.scan [testDirectoryField.check] [] entries
  let testDirectory ← testDirectoryField.find entries
  return ⟨testDirectory.join⟩

/-- Reads the bytes of a sidecar. -/
def ofBytes (bytes : ByteArray) : Except DecodeFault Sidecar := do
  let value ← readJson bytes
  (value.asEntries >>= ofEntries).mapError .schema

/-- Reads the bytes of the sidecar at a path: `decode`, by way of `decode_object`. -/
def decode (path : Path) (bytes : ByteArray) : Except LoadError Sidecar :=
  (ofBytes bytes).mapError (·.at path)

end Sidecar

namespace ExactDependencies

/-- Reads the entries of a file of exact versions.  There are no declared fields: every key is the
name of a package. -/
def ofEntries (entries : List (String × Json)) : Except SchemaFault (NameMap Version) := do
  let texts ← (Json.object entries).asTextMap.mapError .wrongShape
  readVersions "exact dependencies" texts

/-- Reads the bytes of a file of exact versions. -/
def ofBytes (bytes : ByteArray) : Except DecodeFault (NameMap Version) := do
  let value ← readJson bytes
  (value.asEntries >>= ofEntries).mapError .schema

/-- Reads the bytes of the file of exact versions at a path: `decode_exact_dependencies`. -/
def decode (path : Path) (bytes : ByteArray) : Except LoadError (NameMap Version) :=
  (ofBytes bytes).mapError (·.at path)

end ExactDependencies

end ElmManifest
