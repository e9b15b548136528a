import ElmManifest.Constraint
import ElmManifest.NameMap

/-!
# Manifests

What a manifest declares, with every version and constraint read and no dependency looked up yet.

## Main Definitions

* `Application` — a program; its dependencies are pinned to exact versions.
* `Package` — a library; its dependencies are ranges.
* `LegacyManifest` — the older layout, in which exact versions live in a file of their own.
* `LegacyManifest.toApplication` — the application that a legacy manifest stands for.
* `Sidecar` — settings that `elm.json` has no room for.
* `Manifest` — any of the three kinds.

## Design Notes

Dependencies are kept in the order of their names, which is the order in which they are resolved.
For an application, the direct ones come first.  Declarations are compared with the tags of versions
left out.
-/

namespace ElmManifest

/-! ## File names -/

/-- The file name of a manifest. -/
def manifestName : String := "elm.json"

/-- The file name of a manifest in the older layout. -/
def legacyManifestName : String := "elm-package.json"

/-- Where the older layout keeps exact versions, seen from the project's directory:
`LEGACY_EXACT_DEPENDENCIES`. -/
def exactDependenciesName : String := "elm-stuff/exact-dependencies.json"

/-- The file name of a sidecar. -/
def sidecarName : String := "elm.project.json"

/-! ## Applications -/

/-- Dependencies pinned to exact versions, in the two groups of an application manifest. -/
structure ExactDependencies where
  /-- The ones that the application itself uses. -/
  direct : NameMap Version
  /-- The ones that only its dependencies use. -/
  indirect : NameMap Version
  deriving DecidableEq

namespace ExactDependencies

/-- No dependencies. -/
def empty : ExactDependencies := ⟨.empty, .empty⟩

/-- The direct dependencies, then the indirect ones, each group in order of name: `iter`.  This is
the order in which they are loaded. -/
def toList (d : ExactDependencies) : List (String × Version) :=
  d.direct.toList ++ d.indirect.toList

/-- The number of dependencies; one that is both direct and indirect counts twice. -/
def size (d : ExactDependencies) : Nat :=
  d.direct.size + d.indirect.size

/-- Whether there are none. -/
def isEmpty (d : ExactDependencies) : Bool :=
  d.size == 0

/-- The names with the releases they are pinned to: all of them that equality looks at. -/
def pins (d : ExactDependencies) : NameMap Release × NameMap Release :=
  (d.direct.map Version.toRelease, d.indirect.map Version.toRelease)

end ExactDependencies

/-- What an application manifest declares.  The test directory is not in the manifest but in the
sidecar, and is none until that has been read. -/
structure Application where
  /-- The compiler version. -/
  elmVersion : Version
  /-- The source directories, seen from the project's directory. -/
  sourceDirectories : List String
  /-- The runtime dependencies. -/
  dependencies : ExactDependencies
  /-- The test dependencies. -/
  testDependencies : ExactDependencies
  /-- The test directory, if it is not the default one. -/
  testDirectory : Option String
  deriving DecidableEq

/-- Two applications that declare the same, the tags of versions aside: the `==` of applications. -/
def Application.SameDeclaration (a b : Application) : Prop :=
  a.elmVersion.SameRelease b.elmVersion ∧ a.sourceDirectories = b.sourceDirectories ∧
    a.dependencies.pins = b.dependencies.pins ∧
    a.testDependencies.pins = b.testDependencies.pins ∧ a.testDirectory = b.testDirectory

instance (a b : Application) : Decidable (a.SameDeclaration b) :=
  inferInstanceAs (Decidable (_ ∧ _ ∧ _ ∧ _ ∧ _))

/-! ## Packages -/

/-- What a package manifest declares. -/
structure Package where
  /-- The name, `author/project`. -/
  name : String
  /-- The published version. -/
  version : Version
  /-- A one-line description. -/
  summary : Option String
  /-- The licence. -/
  license : Option String
  /-- The compiler versions that the package accepts. -/
  elmVersion : Constraint
  /-- The exposed modules, in the order in which they are declared. -/
  exposedModules : List String
  /-- The runtime dependencies. -/
  dependencies : NameMap Constraint
  /-- The test dependencies. -/
  testDependencies : NameMap Constraint
  deriving DecidableEq

/-- Two packages that declare the same, the tags of versions aside: the `==` of packages. -/
def Package.SameDeclaration (a b : Package) : Prop :=
  a.name = b.name ∧ a.version.SameRelease b.version ∧ a.summary = b.summary ∧
    a.license = b.license ∧ a.elmVersion.SameInterval b.elmVersion ∧
    a.exposedModules = b.exposedModules ∧
    a.dependencies.map Constraint.interval = b.dependencies.map Constraint.interval ∧
    a.testDependencies.map Constraint.interval = b.testDependencies.map Constraint.interval

instance (a b : Package) : Decidable (a.SameDeclaration b) :=
  inferInstanceAs (Decidable (_ ∧ _ ∧ _ ∧ _ ∧ _ ∧ _ ∧ _ ∧ _))

/-! ## Legacy manifests -/

/-- What a manifest in the older layout declares, and the exact versions beside it. -/
structure LegacyManifest where
  /-- The compiler versions that the project accepts. -/
  elmVersion : Constraint
  /-- The source directories, seen from the project's directory. -/
  sourceDirectories : List String
  /-- The exposed modules, in the order in which they are declared. -/
  exposedModules : List String
  /-- The dependencies as declared. -/
  dependencies : NameMap Constraint
  /-- The exact versions of all dependencies, when the project has been built. -/
  exactDependencies : NameMap Version
  deriving DecidableEq

/-- The application that a legacy manifest stands for: `into_application`.  Its compiler is the
lower end of the accepted range, be it included or not, and an exact version is a direct dependency
if the manifest declares its name. -/
def LegacyManifest.toApplication (m : LegacyManifest) : Application where
  elmVersion := m.elmVersion.lower
  sourceDirectories := m.sourceDirectories
  dependencies :=
    ⟨m.exactDependencies.filter fun name _ => m.dependencies.contains name,
      m.exactDependencies.filter fun name _ => !m.dependencies.contains name⟩
  testDependencies := .empty
  testDirectory := none

/-! ## Any manifest -/

/-- Settings beside a manifest, of which the test directory is the only one. -/
structure Sidecar where
  /-- The test directory, if it is not the default one. -/
  testDirectory : Option String
  deriving DecidableEq

/-- What a manifest of any kind declares, before anything is loaded for it: `RawManifest`. -/
inductive Manifest where
  /-- An application. -/
  | application (declared : Application)
  /-- A package. -/
  | package (declared : Package)
  /-- A project in the older layout. -/
  | legacy (declared : LegacyManifest)
  deriving DecidableEq

end ElmManifest
