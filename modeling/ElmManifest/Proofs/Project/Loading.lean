import ElmManifest.Project.Load
import ElmManifest.Proofs.Resolution.Termination
import ElmManifest.Proofs.Resolution.Tree

/-!
# Loading a project

Loading a project is reading its manifest, completing it by the files beside it, and resolving what
comes of that.  Nothing but the last of these can go on for ever, and over a cache it does not.
What is resolved depends on the files only through the manifests that the repository finds.

## Main Definitions

* `loadProject?` — the outcome of loading a project, none if the run does not end.
* `Project.withTestDirectory`, `Outcome.withTestDirectory` — an application with another test
  directory, and a run that ends with it.

## Main Statements

* `loadProject?_cache_eq_some` — over a cache, loading a project ends.
* `resolve?_congr` — runs over one repository are the same if they read what it finds alike.
* `resolve?_withTestDirectory` — the test directory of an application makes no difference to its
  run.
* `loadProject?_of_no_demands` — an application without dependencies is loaded as it is declared.
-/

namespace ElmManifest

/-! ## Loading that ends -/

/-- Loads the project whose manifest is at a path; none if the run does not end.  Where it does end,
it is `loadProject`. -/
def loadProject? (files : FileTree) (repository : Repository) (path : Path) : Option Outcome :=
  let sources : Sources := ⟨repository, files.read⟩
  match sources.readManifest path >>= completeManifest files path with
  | .error error => some (.failed error)
  | .ok (manifest, warnings) =>
    (resolve? sources false path manifest).map fun outcome =>
      { outcome with warnings := warnings ++ outcome.warnings }

section

variable {files : FileTree} {repository : Repository} {path : Path}

/-- A manifest that cannot be read or completed is the end of it. -/
theorem loadProject?_of_error {error : LoadError}
    (h : (Sources.mk repository files.read).readManifest path >>= completeManifest files path =
      .error error) : loadProject? files repository path = some (.failed error) := by
  simp only [loadProject?, h]

/-- A completed manifest is resolved, and the warnings about the files beside it come first. -/
theorem loadProject?_of_ok {manifest : Manifest} {warnings : List Warning}
    (h : (Sources.mk repository files.read).readManifest path >>= completeManifest files path =
      .ok (manifest, warnings)) : loadProject? files repository path =
        (resolve? ⟨repository, files.read⟩ false path manifest).map fun outcome =>
          { outcome with warnings := warnings ++ outcome.warnings } := by
  simp only [loadProject?, h]

/-- Loading that ends comes to the outcome of loading. -/
theorem loadProject_of_loadProject? {outcome : Outcome}
    (h : loadProject? files repository path = some outcome) :
    loadProject files repository path = outcome := by
  cases hcomplete : (Sources.mk repository files.read).readManifest path >>=
      completeManifest files path with
  | error error =>
    rw [loadProject?_of_error hcomplete] at h
    cases h
    simp only [loadProject, hcomplete]
  | ok completed =>
    rw [loadProject?_of_ok hcomplete] at h
    obtain ⟨resolved, hresolved, rfl⟩ := Option.map_eq_some_iff.mp h
    simp only [loadProject, hcomplete, resolve, hresolved, Option.getD_some]

end

/-- **Over a cache, loading a project ends.**  A snapshot has finitely many files, so there are
finitely many packages in it. -/
theorem loadProject?_cache_eq_some (config : Config) (files : FileTree) (path : Path) :
    loadProject? files (Cache.mk config files).repository path =
      some (loadProject files (Cache.mk config files).repository path) := by
  obtain ⟨outcome, h⟩ : ∃ outcome,
      loadProject? files (Cache.mk config files).repository path = some outcome := by
    cases hcomplete : (Sources.mk (Cache.mk config files).repository files.read).readManifest path
        >>= completeManifest files path with
    | error error => exact ⟨_, loadProject?_of_error hcomplete⟩
    | ok completed =>
      rw [loadProject?_of_ok hcomplete, resolve?_cache_eq_some]
      exact ⟨_, rfl⟩
  rw [loadProject_of_loadProject? h, h]

/-! ## Runs that read alike -/

namespace Sources

variable {a b : Sources}

/-- Packages are loaded for demands alike if the same versions are selected. -/
theorem loadEach_congr (hselect : b.select = a.select)
    (load : String → Version → Requirement → Session →
      Option (Except LoadError Project × Session)) (demands : List Demand) (s : Session) :
    b.loadEach load demands s = a.loadEach load demands s := by
  induction demands generalizing s with
  | nil => rfl
  | cons demand rest ih =>
    obtain ⟨name, requirement⟩ := demand
    simp only [Sources.loadEach, hselect, ih]

/-- A package is loaded alike if the same versions are selected and the same manifests fetched. -/
theorem loadWithin_congr (hselect : b.select = a.select) (hfetch : b.fetch = a.fetch)
    (depth : ℕ) : b.loadWithin depth = a.loadWithin depth := by
  induction depth with
  | zero =>
    funext name version requirement s
    simp only [Sources.loadWithin, hfetch]
  | succ depth ih =>
    funext name version requirement s
    simp only [Sources.loadWithin, hfetch, ih, loadEach_congr hselect]

end Sources

/-- **Runs over one repository are the same** if they read what it finds alike. -/
theorem resolve?_congr {a b : Sources} (hrepository : b.repository = a.repository)
    (hread : ∀ name version path, a.repository.find name version = some path →
      b.read path = a.read path) (ignoreTests : Bool) (path : Path) (manifest : Manifest) :
    resolve? b ignoreTests path manifest = resolve? a ignoreTests path manifest := by
  have hselect : b.select = a.select := by
    funext name requirement
    simp only [Sources.select, hrepository]
  have hfetch : b.fetch = a.fetch := by
    funext name version requirement
    cases hfind : a.repository.find name version with
    | none => simp only [Sources.fetch, hrepository, hfind]
    | some found =>
      simp only [Sources.fetch, hrepository, hfind,
        Sources.readPackage_congr (hread name version found hfind)]
  have hall : b.loadAll = a.loadAll := by
    funext demands s
    simp only [Sources.loadAll, Sources.loadWithin_congr hselect hfetch,
      Sources.loadEach_congr hselect]
  simp only [resolve?, Sources.loadManifest, hall]

/-! ## Test directories -/

/-- An application with another test directory; packages have none. -/
def Declaration.withTestDirectory (directory : Option String) : Declaration → Declaration
  | .application declared => .application { declared with testDirectory := directory }
  | .package declared => .package declared

/-- The project with another test directory. -/
def Project.withTestDirectory (directory : Option String) (p : Project) : Project :=
  { p with declaration := p.declaration.withTestDirectory directory }

/-- The same run with another test directory in the project that it ends with.  Questions, warnings
and errors stay as they are. -/
def Outcome.withTestDirectory (directory : Option String) (outcome : Outcome) : Outcome :=
  { outcome with result := outcome.result.map (Project.withTestDirectory directory) }

/-- **The test directory of an application makes no difference to its run**: it is in the project
that the run ends with, and nowhere else. -/
theorem resolve?_withTestDirectory (sources : Sources) (ignoreTests : Bool) (path : Path)
    (declared : Application) (directory : Option String) :
    resolve? sources ignoreTests path (.application { declared with testDirectory := directory }) =
      (resolve? sources ignoreTests path (.application declared)).map
        (Outcome.withTestDirectory directory) := by
  unfold resolve? Sources.loadManifest
  simp only [Manifest.demands, Manifest.testDemands, Option.bind_eq_bind]
  cases hruntime : sources.loadAll (pinDemands declared.dependencies) .empty with
  | none => rfl
  | some r =>
    obtain ⟨error | dependencies, s⟩ := r
    · rfl
    · dsimp only [Option.bind_some]
      cases htests : sources.loadAll
          (if ignoreTests then [] else pinDemands declared.testDependencies) s with
      | none => rfl
      | some r =>
        obtain ⟨error | tests, s⟩ := r <;> rfl

/-! ## An application without dependencies -/

/-- **An application without dependencies is loaded as it is declared** if there is no sidecar
beside it. -/
theorem loadProject?_of_no_demands {files : FileTree} {repository : Repository} {path : Path}
    {declared : Application}
    (hread : (Sources.mk repository files.read).readManifest path = .ok (.application declared))
    (hdirectory : declared.testDirectory = none)
    (hsidecar : files.isFile (path.parent?.getD ⟨""⟩ / sidecarName) = false)
    (hdemands : pinDemands declared.dependencies = [])
    (htestDemands : pinDemands declared.testDependencies = []) :
    loadProject? files repository path =
      some ⟨.ok ⟨path, .application declared, [], []⟩, [], []⟩ := by
  have hsame : { declared with testDirectory := none } = declared := by
    rw [← hdirectory]
  have hcompleted : (Sources.mk repository files.read).readManifest path >>=
      completeManifest files path = .ok (.application declared, []) := by
    rw [hread, Except.ok_bind, completeManifest, readSidecar, hsidecar]
    exact congrArg (fun application => Except.ok (Manifest.application application, [])) hsame
  have hruntime : (Sources.mk repository files.read).loadAll
      (Manifest.application declared).demands .empty = some (.ok [], .empty) := by
    rw [Manifest.demands, hdemands]
    exact Sources.loadAll_nil _ .empty
  have htests : (Sources.mk repository files.read).loadAll
      (Manifest.application declared).testDemands .empty = some (.ok [], .empty) := by
    rw [Manifest.testDemands, htestDemands]
    exact Sources.loadAll_nil _ .empty
  rw [loadProject?_of_ok hcompleted, resolve?_of_loadAll_ok false _ hruntime htests]
  rfl

/-- The manifest of an application without dependencies. -/
def plainText : String :=
  "\x7b\"type\":\"application\",\"source-directories\":[\"src\"],\"elm-version\":\"0.19.1\"," ++
    "\"dependencies\":\x7b\"direct\":\x7b\x7d,\"indirect\":\x7b\x7d\x7d," ++
    "\"test-dependencies\":\x7b\"direct\":\x7b\x7d,\"indirect\":\x7b\x7d\x7d\x7d"

/-- What it declares. -/
def plainApplication : Application where
  elmVersion := .ofNumbers 0 19 1
  sourceDirectories := ["src"]
  dependencies := .empty
  testDependencies := .empty
  testDirectory := none

/-- The application with what it depends on, which is nothing. -/
def plainProject : Project := ⟨⟨"app/elm.json"⟩, .application plainApplication, [], []⟩

/-- The application in a directory of its own. -/
def plainFiles : FileTree := ⟨[(["elm.json", "app"], .file plainText.toUTF8)], []⟩

theorem readManifest_plainFiles (repository : Repository) :
    (Sources.mk repository plainFiles.read).readManifest ⟨"app/elm.json"⟩ =
      .ok (.application plainApplication) := by
  have hread : (Sources.mk (.ofTable [] .empty) plainFiles.read).readManifest ⟨"app/elm.json"⟩ =
      .ok (.application plainApplication) := eq_ok_of_toOption (by decide +kernel)
  exact hread

/-- There is nothing to resolve and nothing beside the manifest. -/
theorem loadProject?_plainFiles (repository : Repository) :
    loadProject? plainFiles repository ⟨"app/elm.json"⟩ = some ⟨.ok plainProject, [], []⟩ :=
  loadProject?_of_no_demands (readManifest_plainFiles repository) rfl rfl rfl rfl

end ElmManifest
