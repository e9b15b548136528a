import ElmManifest.Manifest.Basic
import ElmManifest.Path

/-!
# Projects

A project is a manifest with all of its dependencies resolved, each of them a project again.

## Main Definitions

* `Declaration` — what a project is: an application or a package.
* `Project` — a declaration, where it was read, and the resolved dependencies.
* `Project.acceptsCompiler` — whether a compiler version can build the project.
* `Project.sourceDirectories`, `Project.testDirectory` — where its code is.
* `Project.allDependencies` — its runtime and test dependencies, each package once.
* `Project.same` — projects that agree in everything but the spelling of paths and the tags of
  versions.

## Design Notes

A project is a tree; a package that several others depend on is in it several times.  Directories
are spelled by joining what the manifest says to the directory of the manifest and folding dots
away.
-/

namespace ElmManifest

/-- What a project declares, by kind: the `ManifestKind` of a resolved manifest.  There is no kind
for the older layout, whose manifests have become applications. -/
inductive Declaration where
  /-- An application. -/
  | application (declared : Application)
  /-- A package. -/
  | package (declared : Package)
  deriving DecidableEq

/-- Two declarations of one kind that declare the same, the tags of versions aside. -/
def Declaration.same : Declaration → Declaration → Bool
  | .application a, .application b => decide (a.SameDeclaration b)
  | .package a, .package b => decide (a.SameDeclaration b)
  | _, _ => false

/-- A manifest with its dependencies resolved.  The dependencies are projects again, so a whole tree
is one value. -/
structure Project where
  /-- Where the manifest was read. -/
  manifestPath : Path
  /-- What the manifest declares. -/
  declaration : Declaration
  /-- The resolved runtime dependencies, in the order of their declarations. -/
  dependencies : List Project
  /-- The resolved test dependencies, in the order of their declarations. -/
  testDependencies : List Project

namespace Project

/-! ## Names -/

/-- The name of the package that every other one depends on: `CORE_PACKAGE`. -/
def coreName : String := "elm/core"

/-- The directory of the manifest: `project_dir`.  A path that has no parent stands in the empty
path, which names the working directory. -/
def directory (p : Project) : Path :=
  p.manifestPath.parent?.getD ⟨""⟩

/-- The name of the directory of the manifest; the path of the manifest when the directory has no
name: `presentable_name`. -/
def presentableName (p : Project) : String :=
  p.directory.fileName?.getD p.manifestPath.text

/-- The package that the project is, if it is one: `as_package`. -/
def package? (p : Project) : Option Package :=
  match p.declaration with
  | .package declared => some declared
  | .application _ => none

/-- Whether the project is an application. -/
def isApplication (p : Project) : Bool := p.package?.isNone

/-- Whether the project is a package. -/
def isPackage (p : Project) : Bool := p.package?.isSome

/-- The name of a package. -/
def packageName? (p : Project) : Option String := p.package?.map Package.name

/-- The version of a package. -/
def packageVersion? (p : Project) : Option Version := p.package?.map Package.version

/-- The modules that a package exposes; an application exposes none. -/
def exposedModules (p : Project) : List String :=
  p.package?.elim [] Package.exposedModules

/-- Whether the project is the core package. -/
def isCore (p : Project) : Bool := p.packageName? == some coreName

/-! ## Compilers -/

/-- The compiler requirement as the manifest writes it: a version for an application, a range for a
package. -/
def elmVersionText (p : Project) : String :=
  match p.declaration with
  | .application declared => declared.elmVersion.text
  | .package declared => declared.elmVersion.text

/-- Whether a compiler version can build the project: the very version for an application, any
version of the accepted range for a package: `is_compatible_with`.  Both look at the release alone,
so a pre-release compiler counts as its release. -/
def acceptsCompiler (p : Project) (compiler : Version) : Bool :=
  match p.declaration with
  | .application declared => decide (declared.elmVersion.SameRelease compiler)
  | .package declared => declared.elmVersion.contains compiler

/-! ## Directories -/

/-- The test directory when none is declared. -/
def defaultTestDirectory : String := "tests"

/-- The only source directory of a package, which a package does not declare. -/
def packageSourceDirectory : String := "src"

/-- The source directories as declared, seen from the directory of the manifest. -/
def declaredSourceDirectories (p : Project) : List String :=
  match p.declaration with
  | .application declared => declared.sourceDirectories
  | .package _ => [packageSourceDirectory]

/-- The test directory that an application declares.  It comes from the sidecar, as no manifest has
a field for it. -/
def customTestDirectory? (p : Project) : Option String :=
  match p.declaration with
  | .application declared => declared.testDirectory
  | .package _ => none

/-- The test directory as declared, or the default one. -/
def declaredTestDirectory (p : Project) : String :=
  p.customTestDirectory?.getD defaultTestDirectory

/-- A declared directory, seen from where the project is seen: `resolve_dir`.  It is joined to the
directory of the manifest and its dots are folded by their spelling, so it is absolute only if one
of the two is. -/
def resolveDirectory (p : Project) (declared : String) : Path :=
  (p.directory / declared).normalize

/-- The source directories, in the order of their declaration: `source_directories`. -/
def sourceDirectories (p : Project) : List Path :=
  p.declaredSourceDirectories.map p.resolveDirectory

/-- The test directory: `test_directory`. -/
def testDirectory (p : Project) : Path :=
  p.resolveDirectory p.declaredTestDirectory

/-- The source directories and the test directory: `all_source_directories`.  A directory that is
both is listed twice. -/
def allDirectories (p : Project) : List Path :=
  p.sourceDirectories ++ [p.testDirectory]

/-! ## Dependencies -/

/-- What tells packages apart: their names and releases.  Applications have none of these, so they
are all alike. -/
def identity (p : Project) : Option (String × Release) :=
  p.package?.map fun declared => (declared.name, declared.version.toRelease)

/-- The projects whose identity is not among those seen before. -/
def dropRepeated (seen : List (Option (String × Release))) : List Project → List Project
  | [] => []
  | p :: rest =>
    if p.identity ∈ seen then dropRepeated seen rest
    else p :: dropRepeated (p.identity :: seen) rest

/-- The runtime dependencies, then the test dependencies, each package where it comes first:
`all_resolved_dependencies`. -/
def allDependencies (p : Project) : List Project :=
  dropRepeated [] (p.dependencies ++ p.testDependencies)

/-! ## Comparing -/

mutual

/-- Whether two projects agree in everything but the spelling of paths and the tags of versions.
This is the equality of paths and versions in the program, taken through the whole tree. -/
def same : Project → Project → Bool
  | ⟨path, declaration, dependencies, tests⟩, ⟨path', declaration', dependencies', tests'⟩ =>
    decide (path.SamePlace path') && declaration.same declaration' &&
      sameAll dependencies dependencies' && sameAll tests tests'

/-- Whether two lists of projects agree one by one. -/
def sameAll : List Project → List Project → Bool
  | [], [] => true
  | p :: ps, q :: qs => same p q && sameAll ps qs
  | _, _ => false

end

end Project

end ElmManifest
