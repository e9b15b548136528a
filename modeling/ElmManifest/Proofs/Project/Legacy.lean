import ElmManifest.Proofs.FileTree.Agreement
import ElmManifest.Proofs.Manifest.Fields
import ElmManifest.Proofs.Project.Loading
import ElmManifest.Proofs.Resolution.Sharing
import Mathlib.Data.List.Perm.Basic

/-!
# Loading a project in the older layout

The exact versions of such a project stand in a file of their own, which has been written by the
compiler.  Nothing is looked up for them: they are split by what the manifest declares, and that is
the application.  A file of exact versions that cannot be read stops the project from being loaded,
and without a file there are no exact versions.

## Main Definitions

* `exactDependenciesPath` — where the exact versions of a manifest are.
* `ExactDependencies.SplitBy` — exact versions split by declared names, with none lost.

## Main Statements

* `LegacyManifest.splitBy_toApplication` — the application has all of the exact versions.
* `loadProject_legacy` — what a project in the older layout loads as.
-/

namespace ElmManifest

/-! ## Splitting exact versions -/

/-- The entries of a map with a property are found like the others. -/
theorem NameMap.find?_filter_eq_some_iff {α : Type} {m : NameMap α} {p : String → α → Bool}
    {name : String} {value : α} :
    (m.filter p).find? name = some value ↔ m.find? name = some value ∧ p name value = true := by
  rw [find?_eq_some_iff, find?_eq_some_iff]
  exact List.mem_filter

/-- The exact versions are the direct and the indirect ones: none is lost, none is there twice, and
a version is a direct one exactly if its name is declared. -/
structure ExactDependencies.SplitBy (d : ExactDependencies) (pins : NameMap Version)
    (declared : List String) : Prop where
  /-- No name is on both sides. -/
  disjoint : ∀ name ∈ d.direct.names, name ∉ d.indirect.names
  /-- Every entry is on one side, once. -/
  perm : d.toList.Perm pins.toList
  /-- Every name has the version that it had. -/
  find?_iff : ∀ name version, pins.find? name = some version ↔
    d.direct.find? name = some version ∨ d.indirect.find? name = some version
  /-- The direct names are the declared ones. -/
  mem_direct_iff : ∀ name, name ∈ d.direct.names ↔ name ∈ pins.names ∧ name ∈ declared
  /-- The indirect names are the others. -/
  mem_indirect_iff : ∀ name, name ∈ d.indirect.names ↔ name ∈ pins.names ∧ name ∉ declared

/-- **The application of a legacy manifest has all of its exact versions**, split by the names that
the manifest declares.  It is one partition of the map, by a property of the names. -/
theorem LegacyManifest.splitBy_toApplication (m : LegacyManifest) :
    m.toApplication.dependencies.SplitBy m.exactDependencies m.dependencies.names := by
  have hdeclared : ∀ name, m.dependencies.contains name = true ↔ name ∈ m.dependencies.names := by
    intro name
    rw [NameMap.mem_names_iff, NameMap.contains, Option.isSome_iff_exists]
  have hdirect : ∀ name version, m.toApplication.dependencies.direct.find? name = some version ↔
      m.exactDependencies.find? name = some version ∧ name ∈ m.dependencies.names := by
    intro name version
    rw [← hdeclared]
    exact NameMap.find?_filter_eq_some_iff
  have hindirect : ∀ name version,
      m.toApplication.dependencies.indirect.find? name = some version ↔
        m.exactDependencies.find? name = some version ∧ name ∉ m.dependencies.names := by
    intro name version
    rw [← hdeclared, Bool.not_eq_true, ← Bool.not_eq_true']
    exact NameMap.find?_filter_eq_some_iff
  refine ⟨?_, List.filter_append_perm _ _, ?_, ?_, ?_⟩
  · intro name hname hname'
    obtain ⟨_, hversion⟩ := NameMap.mem_names_iff.mp hname
    obtain ⟨_, hversion'⟩ := NameMap.mem_names_iff.mp hname'
    exact ((hindirect _ _).mp hversion').2 ((hdirect _ _).mp hversion).2
  · intro name version
    rw [hdirect, hindirect, ← and_or_left, and_iff_left (Classical.em _)]
  · intro name
    simp only [NameMap.mem_names_iff, hdirect, exists_and_right]
  · intro name
    simp only [NameMap.mem_names_iff, hindirect, exists_and_right]

/-! ## Loading -/

/-- Where the exact versions of the manifest at a path are. -/
def exactDependenciesPath (p : Path) : Path :=
  p.parent?.getD ⟨""⟩ / exactDependenciesName

namespace FileTree

variable {files : FileTree} {path : Path}

/-- Without a file there are no exact versions. -/
theorem readExactDependencies_of_not_isFile (h : files.isFile path = false) :
    readExactDependencies files path = .ok .empty := by
  rw [readExactDependencies, h]
  rfl

/-- If there is a file, it has to be one of exact versions. -/
theorem readExactDependencies_of_read {bytes : ByteArray} (h : files.read path = .ok bytes) :
    readExactDependencies files path = ExactDependencies.decode path bytes := by
  rw [readExactDependencies, if_pos (isFile_iff.mpr ⟨bytes, h⟩), h]
  rfl

end FileTree

section Loading

variable {files : FileTree} {repository : Repository} {path : Path} {bytes : ByteArray}
  {declared : LegacyManifest}

/-- A file that is named like a manifest in the older layout is decoded as one. -/
theorem Manifest.exists_legacy_of_decode {m : Manifest}
    (hname : path.fileName? = some legacyManifestName) (h : decode path bytes = .ok m) :
    ∃ declared, m = .legacy declared := by
  obtain ⟨entries, hentries⟩ := exists_entries_of_decode h
  have hlegacy : isLegacyPath path = true := by
    rw [isLegacyPath, hname]
    exact beq_self_eq_true _
  rw [decode_eq_ok_iff hentries, if_pos hlegacy] at h
  obtain ⟨declared, -, rfl⟩ := h
  exact ⟨declared, rfl⟩

/-- The manifest is completed by the exact versions. -/
theorem completeManifest_legacy (hread : files.read path = .ok bytes)
    (hdecode : Manifest.decode path bytes = .ok (.legacy declared)) :
    (Sources.mk repository files.read).readManifest path >>= completeManifest files path =
      (readExactDependencies files (exactDependenciesPath path)).map fun exact =>
        (.legacy { declared with exactDependencies := exact }, []) := by
  have hmanifest : (Sources.mk repository files.read).readManifest path =
      .ok (.legacy declared) := by
    show ((files.read path).mapError (·.at path) >>= Manifest.decode path) = _
    rw [hread]
    exact hdecode
  rw [hmanifest, Except.ok_bind, completeManifest]
  show (readExactDependencies files (exactDependenciesPath path) >>= _) = _
  cases readExactDependencies files (exactDependenciesPath path) <;> rfl

/-- Exact versions that cannot be read stop the project from being loaded. -/
theorem loadProject?_legacy_of_error {error : LoadError} (hread : files.read path = .ok bytes)
    (hdecode : Manifest.decode path bytes = .ok (.legacy declared))
    (hexact : readExactDependencies files (exactDependenciesPath path) = .error error) :
    loadProject? files repository path = some (.failed error) := by
  apply loadProject?_of_error
  rw [completeManifest_legacy hread hdecode, hexact]
  rfl

/-- With exact versions there is nothing to look up. -/
theorem loadProject?_legacy_of_ok {pins : NameMap Version} (hread : files.read path = .ok bytes)
    (hdecode : Manifest.decode path bytes = .ok (.legacy declared))
    (hexact : readExactDependencies files (exactDependenciesPath path) = .ok pins) :
    loadProject? files repository path = some ⟨.ok ⟨path, .application
      { declared with exactDependencies := pins }.toApplication, [], []⟩, [], []⟩ := by
  have hcompleted : (Sources.mk repository files.read).readManifest path >>=
      completeManifest files path =
        .ok (.legacy { declared with exactDependencies := pins }, []) := by
    rw [completeManifest_legacy hread hdecode, hexact]
    rfl
  have hruntime : (Sources.mk repository files.read).loadAll
      (Manifest.legacy { declared with exactDependencies := pins }).demands .empty =
        some (.ok [], .empty) := Sources.loadAll_nil _ .empty
  have htests : (Sources.mk repository files.read).loadAll
      (Manifest.legacy { declared with exactDependencies := pins }).testDemands .empty =
        some (.ok [], .empty) := Sources.loadAll_nil _ .empty
  rw [loadProject?_of_ok hcompleted, resolve?_of_loadAll_ok false _ hruntime htests]
  rfl

/-- **What a project in the older layout loads as**: nothing is asked of the repository, and the
project is an application without resolved dependencies, which has exactly the versions in the file
of exact versions, split by what the manifest declares.  If there is no such file it has none, and
the project cannot be loaded exactly if the file cannot be decoded, for the same reason.
`resolve_manifest` has nothing to do for this layout, as its packages are not in the cache. -/
theorem loadProject_legacy {manifest : Manifest}
    (hname : path.fileName? = some legacyManifestName) (hread : files.read path = .ok bytes)
    (hdecode : Manifest.decode path bytes = .ok manifest) :
    let outcome := loadProject files repository path
    let exactPath := exactDependenciesPath path
    ∃ declared, manifest = .legacy declared ∧
      loadProject? files repository path = some outcome ∧
      outcome.calls = [] ∧ outcome.warnings = [] ∧
      (files.isFile exactPath = false → ∃ application,
        outcome.result = .ok ⟨path, .application application, [], []⟩ ∧
          application.dependencies.direct = .empty ∧
          application.dependencies.indirect = .empty) ∧
      ∀ exactBytes, files.read exactPath = .ok exactBytes →
        (∀ error, outcome.result = .error error ↔
          ExactDependencies.decode exactPath exactBytes = .error error) ∧
        ∀ pins, ExactDependencies.decode exactPath exactBytes = .ok pins → ∃ application,
          outcome.result = .ok ⟨path, .application application, [], []⟩ ∧
            application.dependencies.SplitBy pins declared.dependencies.names := by
  intro outcome exactPath
  obtain ⟨declared, rfl⟩ := Manifest.exists_legacy_of_decode hname hdecode
  have houtcome : ∀ {other}, loadProject? files repository path = some other → outcome = other :=
    loadProject_of_loadProject?
  refine ⟨declared, rfl, ?_⟩
  -- Nothing is resolved, so the file of exact versions is all that can still fail.
  cases hexact : readExactDependencies files exactPath with
  | error error =>
    have hload : loadProject? files repository path = some (.failed error) :=
      loadProject?_legacy_of_error hread hdecode hexact
    rw [houtcome hload]
    refine ⟨hload, rfl, rfl, fun hfile => ?_, fun exactBytes hbytes => ?_⟩
    · rw [FileTree.readExactDependencies_of_not_isFile hfile] at hexact
      cases hexact
    · rw [FileTree.readExactDependencies_of_read hbytes] at hexact
      rw [hexact]
      refine ⟨fun found => ?_, fun pins hpins => by cases hpins⟩
      simp [Outcome.failed]
  | ok pins =>
    have hload : loadProject? files repository path = some ⟨.ok ⟨path, .application
        { declared with exactDependencies := pins }.toApplication, [], []⟩, [], []⟩ :=
      loadProject?_legacy_of_ok hread hdecode hexact
    rw [houtcome hload]
    refine ⟨hload, rfl, rfl, fun hfile => ?_, fun exactBytes hbytes => ?_⟩
    · rw [FileTree.readExactDependencies_of_not_isFile hfile] at hexact
      cases hexact
      exact ⟨_, rfl, rfl, rfl⟩
    · rw [FileTree.readExactDependencies_of_read hbytes] at hexact
      rw [hexact]
      refine ⟨fun found => by simp, fun found hfound => ?_⟩
      cases hfound
      exact ⟨_, rfl, LegacyManifest.splitBy_toApplication
        { declared with exactDependencies := pins }⟩

end Loading

/-! ## A project with exact versions -/

/-- A manifest in the older layout that declares one dependency. -/
def pinnedText : String :=
  "\x7b\"elm-version\":\"0.18.0 <= v < 0.19.0\"," ++
    "\"dependencies\":\x7b\"a/b\":\"1.0.0 <= v < 2.0.0\"\x7d\x7d"

/-- The exact versions of that dependency and of another one. -/
def pinsText : String :=
  "\x7b\"c/d\":\"2.0.0-beta+1\",\"a/b\":\"1.0.0\"\x7d"

/-- What the manifest declares. -/
def pinnedManifest : LegacyManifest where
  elmVersion := ⟨.ofNumbers 0 18 0, true, .ofNumbers 0 19 0, false⟩
  sourceDirectories := ["."]
  exposedModules := []
  dependencies := .ofList [("a/b", ⟨.ofNumbers 1 0 0, true, .ofNumbers 2 0 0, false⟩)]
  exactDependencies := .empty

/-- The project in a directory of its own. -/
def pinnedFiles : FileTree where
  entries := [(["elm-package.json", "app"], .file pinnedText.toUTF8),
    (["exact-dependencies.json", "elm-stuff", "app"], .file pinsText.toUTF8)]
  here := []

/-- Of the two exact versions beside the manifest the one of the declared dependency is direct, and
the other one is indirect. -/
theorem loadProject_legacy_pinnedFiles :
    let outcome := loadProject pinnedFiles (.ofTable [] .empty) ⟨"app/elm-package.json"⟩
    outcome.calls = [] ∧ ∃ application,
      outcome.result = .ok ⟨⟨"app/elm-package.json"⟩, .application application, [], []⟩ ∧
        "a/b" ∈ application.dependencies.direct.names ∧
        "c/d" ∈ application.dependencies.indirect.names := by
  have hmanifest : (Sources.mk (.ofTable [] .empty) pinnedFiles.read).readManifest
      ⟨"app/elm-package.json"⟩ = .ok (.legacy pinnedManifest) :=
    eq_ok_of_toOption (by decide +kernel)
  obtain ⟨bytes, hread, hdecode⟩ := Sources.exists_read_of_readManifest hmanifest
  obtain ⟨exactBytes, hexact⟩ : ∃ exactBytes,
      pinnedFiles.read (exactDependenciesPath ⟨"app/elm-package.json"⟩) = .ok exactBytes :=
    FileTree.isFile_iff.mp (by decide +kernel)
  have hnames : (readExactDependencies pinnedFiles
      (exactDependenciesPath ⟨"app/elm-package.json"⟩)).toOption.map NameMap.names =
        some ["a/b", "c/d"] := by
    decide +kernel
  rw [FileTree.readExactDependencies_of_read hexact, Option.map_eq_some_iff] at hnames
  obtain ⟨pins, hpins, hnames⟩ := hnames
  obtain ⟨declared, hdeclared, -, hcalls, -, -, hsplit⟩ :=
    @loadProject_legacy _ (.ofTable [] .empty) _ _ _ (by decide +kernel) hread hdecode
  cases hdeclared
  obtain ⟨application, hresult, h⟩ :=
    (hsplit exactBytes hexact).2 pins (eq_ok_of_toOption hpins)
  refine ⟨hcalls, application, hresult, ?_, ?_⟩
  · rw [h.mem_direct_iff, hnames]
    decide
  · rw [h.mem_indirect_iff, hnames]
    decide

end ElmManifest
