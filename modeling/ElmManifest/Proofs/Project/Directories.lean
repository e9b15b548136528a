import ElmManifest.Proofs.FileTree.Agreement
import ElmManifest.Proofs.Project.Loading
import ElmManifest.Proofs.Project.Locating
import ElmManifest.Proofs.Resolution.Sharing

/-!
# Directories of a project

The source directories and the test directory of a project are spelled from the directory of its
manifest, and that is spelled like the path that the project was loaded from.  So they are absolute
if that path is, whatever the manifest and the sidecar say.  From a relative path only those are
absolute that are declared as absolute paths; the others are seen from the working directory, and
they may be empty or lead up.

## Main Definitions

* `Path.IsPlainAbsolute` — a path at the root that is not empty and has no dots.

## Main Statements

* `Path.isPlainAbsolute_normalize_of_isRooted` — a normalized path at the root is one.
* `Project.isRooted_resolveDirectory` — where a declared directory starts.
* `directories_of_loadProject` — which directories of a loaded project are absolute.
* `relative_directories` — a project whose directories are not, one of them empty.
-/

namespace ElmManifest

/-! ## Absolute paths without dots -/

namespace Path

/-- A path that starts at the root and goes along names.  This is what absolute and normalized
means. -/
structure IsPlainAbsolute (p : Path) : Prop where
  /-- It starts at the root. -/
  rooted : p.isRooted = true
  /-- It is spelled with something. -/
  nonempty : p.text ≠ ""
  /-- It has no dot. -/
  noDot : .here ∉ p.components
  /-- It has no two dots. -/
  noDots : .up ∉ p.components

/-- A path at the root is not empty. -/
theorem text_ne_empty_of_isRooted {p : Path} (h : p.isRooted = true) : p.text ≠ "" := by
  intro hempty
  rw [isRooted, hempty] at h
  cases h

/-- A normalized path has no dots if it starts at the root. -/
theorem isPlainAbsolute_normalize_of_isRooted {p : Path} (h : p.normalize.isRooted = true) :
    p.normalize.IsPlainAbsolute := by
  obtain ⟨rise, names, hrise, hcomponents⟩ := exists_components_normalize p
  rw [isRooted_normalize] at h
  rw [hrise h, List.replicate_zero, List.nil_append, if_pos h] at hcomponents
  refine ⟨(isRooted_normalize p).trans h, ?_, ?_, ?_⟩
  · exact text_ne_empty_of_isRooted ((isRooted_normalize p).trans h)
  · simp [hcomponents]
  · simp [hcomponents]

/-- Wherever it starts, it has no dot, and two dots only in front. -/
theorem leads_normalize (p : Path) : .here ∉ p.normalize.components ∧
    ∃ rise rest, p.normalize.components = List.replicate rise .up ++ rest ∧ .up ∉ rest := by
  obtain ⟨rise, names, hrise, hcomponents⟩ := exists_components_normalize p
  cases hrooted : p.isRooted with
  | true =>
    rw [hrise hrooted, if_pos hrooted] at hcomponents
    exact ⟨by simp [hcomponents], 0, .root :: names.map .name, by simp [hcomponents], by simp⟩
  | false =>
    rw [hrooted] at hcomponents
    exact ⟨by simp [hcomponents], rise, names.map .name, by simp [hcomponents], by simp⟩

end Path

/-! ## Where directories start -/

/-- A declared directory starts at the root exactly if it is declared so or the directory of the
manifest does. -/
theorem Project.isRooted_resolveDirectory (p : Project) (declared : String) :
    (p.resolveDirectory declared).isRooted =
      (p.directory.isRooted || Path.isRooted ⟨declared⟩) := by
  rw [resolveDirectory, Path.isRooted_normalize]
  change (p.directory.join ⟨declared⟩).isRooted = _
  by_cases h : Path.isRooted ⟨declared⟩ = true
  · rw [Path.join, if_pos h, h, Bool.or_true]
  · rw [Bool.not_eq_true] at h
    rw [Path.isRooted_join _ h, h, Bool.or_false]

/-- The directory of a manifest starts where its path does, if a path lies above. -/
theorem Project.isRooted_directory {p : Project} (h : p.manifestPath.components ≠ [.root]) :
    p.directory.isRooted = p.manifestPath.isRooted := by
  rw [directory]
  cases hparent : p.manifestPath.parent? with
  | some q => exact (Path.components_of_parent? hparent).2
  | none =>
    rw [Path.parent?_eq_none_iff] at hparent
    split at hparent
    next hrooted => exact absurd hparent h
    next hrooted => rw [Bool.eq_false_iff.mpr hrooted]; rfl

section

variable {files : FileTree} {repository : Repository} {path : Path} {project : Project}

/-- The root is no file where it is a directory. -/
theorem FileTree.components_ne_root_of_read {bytes : ByteArray}
    (hroot : files.isDirectoryAt [] = true) (hread : files.read path = .ok bytes) :
    path.components ≠ [.root] := by
  intro hcomponents
  obtain ⟨place, hlocate, -⟩ := read_eq_ok_iff.mp hread
  have hplace : place = [] := by
    rw [eq_placeFrom_of_locate hlocate, Path.placeFrom, hcomponents]
    rfl
  have hfile := isFile_iff.mpr ⟨bytes, hread⟩
  rw [isFile_of_isDirectoryAt hlocate (hplace ▸ hroot)] at hfile
  cases hfile

/-- What is loaded was resolved from the manifest at the path, completed by the files beside it. -/
theorem exists_resolve?_of_loadProject
    (h : (loadProject files repository path).result = .ok project) :
    ∃ manifest completed warnings outcome,
      (Sources.mk repository files.read).readManifest path = .ok manifest ∧
      completeManifest files path manifest = .ok (completed, warnings) ∧
      resolve? ⟨repository, files.read⟩ false path completed = some outcome ∧
      outcome.result = .ok project := by
  unfold loadProject at h
  dsimp only at h
  split at h
  next => cases h
  next completed warnings hcompleted =>
    obtain ⟨manifest, hmanifest, hcomplete⟩ := Except.bind_eq_ok_iff.mp hcompleted
    unfold resolve at h
    cases hresolved : resolve? ⟨repository, files.read⟩ false path completed with
    | none =>
      -- A run that does not end has no project.
      rw [hresolved] at h
      cases h
    | some outcome =>
      rw [hresolved] at h
      exact ⟨manifest, completed, warnings, outcome, hmanifest, hcomplete, hresolved, h⟩

/-- What is loaded keeps the path that it was loaded from, which is that of a file. -/
theorem exists_read_of_loadProject
    (h : (loadProject files repository path).result = .ok project) :
    project.manifestPath = path ∧ ∃ bytes, files.read path = .ok bytes := by
  obtain ⟨manifest, completed, warnings, outcome, hmanifest, -, hresolved, hresult⟩ :=
    exists_resolve?_of_loadProject h
  obtain ⟨dependencies, tests, -, -, -, -, -, -, -, rfl, -, -⟩ :=
    exists_session_of_resolve? hresolved hresult
  obtain ⟨bytes, hread, -⟩ := Sources.exists_read_of_readManifest hmanifest
  exact ⟨rfl, bytes, hread⟩

/-- **Which directories of a loaded project are absolute**: those that are declared so, and all of
them if the project was loaded from an absolute path.  An absolute directory is not empty and has no
dots, and a relative one has two dots only in front.  `resolve_dir` joins to the directory of the
manifest and never asks for the working directory. -/
theorem directories_of_loadProject (hroot : files.isDirectoryAt [] = true)
    (hproject : (loadProject files repository path).result = .ok project) :
    (∀ declared, (project.resolveDirectory declared).IsPlainAbsolute ↔
      path.isRooted = true ∨ Path.isRooted ⟨declared⟩ = true) ∧
    (path.isRooted = true →
      (∀ directory ∈ project.sourceDirectories, directory.IsPlainAbsolute) ∧
      project.testDirectory.IsPlainAbsolute ∧
      ∀ directory ∈ project.allDirectories, directory.IsPlainAbsolute) ∧
    ∀ directory ∈ project.allDirectories, .here ∉ directory.components ∧
      ∃ rise rest, directory.components = List.replicate rise .up ++ rest ∧ .up ∉ rest := by
  obtain ⟨rfl, bytes, hread⟩ := exists_read_of_loadProject hproject
  -- The manifest has been read, so its path does not end in the root and its directory starts where
  -- it does.
  have hstart := Project.isRooted_directory (FileTree.components_ne_root_of_read hroot hread)
  have habsolute : ∀ declared, (project.resolveDirectory declared).IsPlainAbsolute ↔
      project.manifestPath.isRooted = true ∨ Path.isRooted ⟨declared⟩ = true := by
    intro declared
    rw [← hstart, ← Bool.or_eq_true, ← project.isRooted_resolveDirectory]
    exact ⟨fun h => h.rooted, Path.isPlainAbsolute_normalize_of_isRooted⟩
  have hdirectory : ∀ directory ∈ project.allDirectories,
      ∃ declared, directory = project.resolveDirectory declared := by
    intro directory hmem
    rcases List.mem_append.mp hmem with hmem | hmem
    · obtain ⟨declared, -, rfl⟩ := List.mem_map.mp hmem
      exact ⟨declared, rfl⟩
    · exact ⟨_, List.mem_singleton.mp hmem⟩
  refine ⟨habsolute, fun hrooted => ?_, fun directory hmem => ?_⟩
  · have hall : ∀ directory ∈ project.allDirectories, directory.IsPlainAbsolute := by
      intro directory hmem
      obtain ⟨declared, rfl⟩ := hdirectory directory hmem
      exact (habsolute declared).mpr (.inl hrooted)
    exact ⟨fun directory hmem => hall directory (List.mem_append_left _ hmem),
      hall _ (List.mem_append_right _ (List.mem_singleton_self _)), hall⟩
  · obtain ⟨declared, rfl⟩ := hdirectory directory hmem
    exact Path.leads_normalize _

end

/-! ## One manifest, loaded from two paths -/

/-- The manifest of an application with a source directory that is its own one and another that is
beside it. -/
def besideText : String :=
  "\x7b\"type\":\"application\",\"source-directories\":[\".\",\"../shared\"]," ++
    "\"elm-version\":\"0.19.1\"," ++
    "\"dependencies\":\x7b\"direct\":\x7b\x7d,\"indirect\":\x7b\x7d\x7d," ++
    "\"test-dependencies\":\x7b\"direct\":\x7b\x7d,\"indirect\":\x7b\x7d\x7d\x7d"

/-- What it declares. -/
def besideApplication : Application :=
  { plainApplication with sourceDirectories := [".", "../shared"] }

/-- What it is loaded as. -/
def besideProject (path : Path) : Project := ⟨path, .application besideApplication, [], []⟩

/-- The application in the working directory. -/
def besideFiles : FileTree := ⟨[(["elm.json", "app"], .file besideText.toUTF8)], ["app"]⟩

theorem ofBytes_besideText :
    Manifest.ofBytes false besideText.toUTF8 = .ok (.application besideApplication) :=
  eq_ok_of_toOption (by decide +kernel)

/-- There is nothing to resolve and nothing beside the manifest. -/
theorem loadProject_besideFiles {path : Path} (hname : Manifest.isLegacyPath path = false)
    (hbytes : besideFiles.read path = .ok besideText.toUTF8)
    (hsidecar : besideFiles.isFile (path.parent?.getD ⟨""⟩ / sidecarName) = false) :
    (loadProject besideFiles (.ofTable [] .empty) path).result = .ok (besideProject path) := by
  have hread : (Sources.mk (.ofTable [] .empty) besideFiles.read).readManifest path =
      .ok (.application besideApplication) := by
    have hdecode : Manifest.decode path besideText.toUTF8 = .ok (.application besideApplication) :=
      Except.mapError_eq_ok_iff.mpr (hname ▸ ofBytes_besideText)
    exact Except.bind_eq_ok_iff.mpr ⟨_, Except.mapError_eq_ok_iff.mpr hbytes, hdecode⟩
  rw [loadProject_of_loadProject? (loadProject?_of_no_demands hread rfl hsidecar rfl rfl)]
  rfl

/-- When the application is loaded from the absolute path of its manifest, all of its directories
are absolute and have no dots. -/
theorem directories_of_loadProject_besideFiles :
    besideFiles.isDirectoryAt [] = true ∧
      (loadProject besideFiles (.ofTable [] .empty) ⟨"/app/elm.json"⟩).result =
        .ok (besideProject ⟨"/app/elm.json"⟩) ∧
      (besideProject ⟨"/app/elm.json"⟩).allDirectories = [⟨"/app"⟩, ⟨"/shared"⟩, ⟨"/app/tests"⟩] ∧
      ∀ directory ∈ (besideProject ⟨"/app/elm.json"⟩).allDirectories,
        directory.IsPlainAbsolute := by
  have hbytes : besideFiles.read ⟨"/app/elm.json"⟩ = .ok besideText.toUTF8 :=
    FileTree.read_eq_ok_iff.mpr ⟨["elm.json", "app"], rfl, rfl⟩
  have hproject := loadProject_besideFiles (by decide) hbytes rfl
  exact ⟨rfl, hproject, by decide +kernel,
    ((directories_of_loadProject rfl hproject).2.1 (by decide)).2.2⟩

/-- **From the relative path of the manifest no directory is absolute**, the own one is empty, and
the one beside it leads up.  It is the path that most commands are given, as the default is a single
dot. -/
theorem relative_directories :
    (loadProject besideFiles (.ofTable [] .empty) ⟨"elm.json"⟩).result =
        .ok (besideProject ⟨"elm.json"⟩) ∧
      (besideProject ⟨"elm.json"⟩).sourceDirectories = [⟨""⟩, ⟨"../shared"⟩] ∧
      (besideProject ⟨"elm.json"⟩).testDirectory = ⟨"tests"⟩ ∧
      ¬ Path.IsPlainAbsolute ⟨""⟩ ∧ ¬ Path.IsPlainAbsolute ⟨"../shared"⟩ ∧
      ¬ Path.IsPlainAbsolute ⟨"tests"⟩ := by
  have hbytes : besideFiles.read ⟨"elm.json"⟩ = .ok besideText.toUTF8 :=
    FileTree.read_eq_ok_iff.mpr ⟨["elm.json", "app"], rfl, rfl⟩
  have hproject := loadProject_besideFiles (by decide) hbytes rfl
  refine ⟨hproject, by decide +kernel, by decide +kernel, ?_, ?_, ?_⟩ <;>
    exact fun h => absurd h.rooted (by decide)

end ElmManifest
