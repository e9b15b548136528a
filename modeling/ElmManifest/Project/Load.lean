import ElmManifest.Resolution

/-!
# Loading and locating projects

## Main Definitions

* `loadProject` — the project at the path of its manifest, with the files beside the manifest taken
  into account.
* `findManifest?` — the manifest that a file or directory belongs to.

## Design Notes

The sidecar of an application and the exact versions of a legacy project are treated in opposite
ways: a sidecar that cannot be read is ignored with a warning, while exact versions that cannot be
read stop the project from being loaded.
-/

namespace ElmManifest

/-- The settings in a sidecar; if there is a file that is none, a warning: `read_sidecar`.  No file
is not worth a warning, and neither case stops the project from being loaded. -/
def readSidecar (files : FileTree) (path : Path) : Option Sidecar × List Warning :=
  if files.isFile path then
    match (files.read path).mapError (·.at path) >>= Sidecar.decode path with
    | .ok sidecar => (some sidecar, [])
    | .error error => (none, [.ignoredSidecar path error])
  else (none, [])

/-- The exact versions of a legacy project, none if there is no file for them.  Unlike a sidecar, a
file that cannot be read is a failure. -/
def readExactDependencies (files : FileTree) (path : Path) :
    Except LoadError (NameMap Version) :=
  if files.isFile path then
    (files.read path).mapError (·.at path) >>= ExactDependencies.decode path
  else .ok .empty

/-- A manifest completed by the files beside it, and the warnings about them: the part of
`load_manifest` between decoding and resolving.  What an application says of its test directory is
overwritten even when there is no sidecar. -/
def completeManifest (files : FileTree) (path : Path) (manifest : Manifest) :
    Except LoadError (Manifest × List Warning) :=
  let directory := path.parent?.getD ⟨""⟩
  match manifest with
  | .application declared =>
    let (sidecar, warnings) := readSidecar files (directory / sidecarName)
    .ok (.application { declared with testDirectory := sidecar.bind Sidecar.testDirectory },
      warnings)
  | .package declared => .ok (.package declared, [])
  | .legacy declared => do
    let exact ← readExactDependencies files (directory / exactDependenciesName)
    return (.legacy { declared with exactDependencies := exact }, [])

/-- Loads the project whose manifest is at a path: `load_manifest`.  The test dependencies are
always resolved here. -/
def loadProject (files : FileTree) (repository : Repository) (path : Path) : Outcome :=
  let sources : Sources := ⟨repository, files.read⟩
  match sources.readManifest path >>= completeManifest files path with
  | .error error => .failed error
  | .ok (manifest, warnings) =>
    let outcome := resolve sources false path manifest
    { outcome with warnings := warnings ++ outcome.warnings }

/-- The manifest in a directory; the newer layout comes first, so an older manifest beside it is
never seen. -/
def manifestIn? (files : FileTree) (directory : Path) : Option Path :=
  [directory / manifestName, directory / legacyManifestName].find? files.isFile

/-- The manifest that a file or directory belongs to: `find_manifest`.  A file is its own manifest,
whatever it is called, and a directory belongs to the manifest in it or in the nearest directory
above it that has one. -/
def findManifest? (files : FileTree) (start : Path) : Option Path :=
  if files.isFile start then some start else start.ancestors.findSome? (manifestIn? files)

end ElmManifest
