import ElmManifest.Proofs.FileTree.Agreement
import ElmManifest.Proofs.Project.Loading
import ElmManifest.Proofs.Resolution.Sharing

/-!
# Sidecars

The sidecar of an application names its test directory, and that is all that it can do.  Whatever is
in it, and whether it is there or not, the application asks for the same packages, fails with the
same error or ends with the same project, the test directory aside; a sidecar that cannot be read is
warned of and then ignored.  No other project has a sidecar.

The two runs that are compared differ in the file beside the manifest.  The manifest, the packages
in the cache and the exact versions of a legacy project are all called otherwise, so they read the
same (`FileTree.AgreeOff`).

## Main Definitions

* `sidecarPath` — where the sidecar of a manifest is.
* `FileTree.SidecarSays` — the test directory by a sidecar, and what there is to warn of.

## Main Statements

* `FileTree.target_of_segments` — a path that ends in a name is for a place of this name.
* `loadProject_of_agreeOff` — what a project loads as, whatever is in the file beside its manifest.
-/

namespace ElmManifest

/-! ## What a sidecar says -/

/-- Where the sidecar of the manifest at a path is. -/
def sidecarPath (p : Path) : Path :=
  p.parent?.getD ⟨""⟩ / sidecarName

/-- The test directory by the sidecar at a path, and what there is to warn of: a file that is a
sidecar says what it declares, and everything else says nothing.  A sidecar without the field is a
sidecar. -/
inductive FileTree.SidecarSays (files : FileTree) (path : Path) :
    Option String → List Warning → Prop where
  /-- There is no file. -/
  | absent (hfile : files.isFile path = false) : SidecarSays files path none []
  /-- The file is a sidecar. -/
  | declared {bytes : ByteArray} {sidecar : Sidecar} (hread : files.read path = .ok bytes)
      (hdecode : Sidecar.decode path bytes = .ok sidecar) :
      SidecarSays files path sidecar.testDirectory []
  /-- The file is no sidecar. -/
  | ignored {bytes : ByteArray} {error : LoadError} (hread : files.read path = .ok bytes)
      (hdecode : Sidecar.decode path bytes = .error error) :
      SidecarSays files path none [.ignoredSidecar path error]

namespace FileTree

variable {files : FileTree} {path : Path}

theorem exists_sidecarSays (files : FileTree) (path : Path) :
    ∃ directory warnings, files.SidecarSays path directory warnings := by
  cases hread : files.read path with
  | error fault => exact ⟨none, [], .absent (by simp [isFile, hread])⟩
  | ok bytes =>
    cases hdecode : Sidecar.decode path bytes with
    | error error => exact ⟨_, _, .ignored hread hdecode⟩
    | ok sidecar => exact ⟨_, _, .declared hread hdecode⟩

/-- What a sidecar says is what is read as the sidecar. -/
theorem SidecarSays.exists_readSidecar {directory : Option String} {warnings : List Warning}
    (h : files.SidecarSays path directory warnings) :
    ∃ sidecar, readSidecar files path = (sidecar, warnings) ∧
      sidecar.bind Sidecar.testDirectory = directory := by
  cases h with
  | absent hfile => exact ⟨none, by simp [readSidecar, hfile], rfl⟩
  | @declared bytes sidecar hread hdecode =>
    refine ⟨some sidecar, ?_, rfl⟩
    simp [readSidecar, isFile, hread, Except.mapError, bind, Except.bind, hdecode]
  | ignored hread hdecode =>
    refine ⟨none, ?_, rfl⟩
    simp [readSidecar, isFile, hread, Except.mapError, bind, Except.bind, hdecode]

theorem SidecarSays.unique {directory directory' : Option String}
    {warnings warnings' : List Warning} (h : files.SidecarSays path directory warnings)
    (h' : files.SidecarSays path directory' warnings') :
    directory = directory' ∧ warnings = warnings' := by
  obtain ⟨sidecar, hread, rfl⟩ := h.exists_readSidecar
  obtain ⟨sidecar', hread', rfl⟩ := h'.exists_readSidecar
  cases hread.symm.trans hread'
  exact ⟨rfl, rfl⟩

/-- An application is completed by what its sidecar says. -/
theorem SidecarSays.completeManifest {p : Path} {directory : Option String}
    {warnings : List Warning} (h : files.SidecarSays (sidecarPath p) directory warnings)
    (declared : Application) : completeManifest files p (.application declared) =
      .ok (.application { declared with testDirectory := directory }, warnings) := by
  obtain ⟨sidecar, hread, rfl⟩ := h.exists_readSidecar
  rw [sidecarPath] at hread
  simp only [ElmManifest.completeManifest, hread]

/-! ## Trees with different sidecars -/

/-- A path that ends in a name is for a place of this name. -/
theorem target_of_segments {front : List String} {name : String}
    (h : path.segments = front ++ [name]) (hname : Path.isName name = true) :
    ∃ top, files.target path = name :: top := by
  refine ⟨follow (files.start path) front, ?_⟩
  simp only [Path.isName, Bool.and_eq_true, Bool.not_eq_true', bne_iff_ne] at hname
  simp [target, follow, h, hname]

/-- The path of the exact versions ends in their name. -/
theorem fileName?_exactDependencies (dir : Path) :
    (dir / exactDependenciesName).fileName? = some "exact-dependencies.json" := by
  obtain ⟨front, hfront, -⟩ := dir.segments_join (q := ⟨exactDependenciesName⟩) (by decide)
  have hsegments : (dir / exactDependenciesName).segments =
      (front ++ ["elm-stuff"]) ++ ["exact-dependencies.json"] := by
    rw [List.append_assoc]
    exact hfront
  exact Path.fileName?_of_segments hsegments (by decide)

namespace AgreeOff

variable {t u : FileTree} {top : Location}

/-- A manifest is read alike if it is called otherwise. -/
theorem readManifest_eq (h : t.AgreeOff u (sidecarName :: top)) {p : Path} {manifest : Manifest}
    (hname : p.fileName? ≠ some sidecarName) {a b : Repository}
    (hmanifest : (Sources.mk a t.read).readManifest p = .ok manifest) :
    (Sources.mk b u.read).readManifest p = .ok manifest := by
  obtain ⟨bytes, hread, hdecode⟩ := Sources.exists_read_of_readManifest hmanifest
  have hread' : u.read p = .ok bytes := (h.read_eq_ok_iff hname).mpr hread
  simp [Sources.readManifest, hread', hdecode, Except.mapError, bind, Except.bind]

/-- A manifest is resolved alike: the packages in the cache are called otherwise. -/
theorem resolve?_eq (h : t.AgreeOff u (sidecarName :: top)) (config : Config) (ignoreTests : Bool)
    (path : Path) (manifest : Manifest) :
    resolve? ⟨(Cache.mk config u).repository, u.read⟩ ignoreTests path manifest =
      resolve? ⟨(Cache.mk config t).repository, t.read⟩ ignoreTests path manifest := by
  apply resolve?_congr
  · exact h.repository_eq (by decide) (by decide) config
  intro name version found hfind
  obtain ⟨author, project, -, rfl, hfile⟩ := Cache.exists_of_find hfind
  obtain ⟨bytes, hread⟩ := isFile_iff.mp hfile
  have hread' := (h.read_eq_ok_iff (by rw [Cache.fileName?_manifest]; decide)).mpr hread
  exact hread'.trans hread.symm

/-- A manifest that is not that of an application is completed alike: the exact versions of a legacy
project are called otherwise. -/
theorem completeManifest_eq (h : t.AgreeOff u (sidecarName :: top)) (p : Path)
    {manifest : Manifest} (hkind : ∀ declared, manifest ≠ .application declared) :
    ElmManifest.completeManifest u p manifest = ElmManifest.completeManifest t p manifest := by
  cases manifest with
  | application declared => exact absurd rfl (hkind declared)
  | package declared => rfl
  | legacy declared =>
    have hlast : (p.parent?.getD ⟨""⟩ / exactDependenciesName).fileName? ≠ some sidecarName := by
      rw [fileName?_exactDependencies]
      decide
    have hfile := h.isFile_eq hlast
    have hexact : readExactDependencies u (p.parent?.getD ⟨""⟩ / exactDependenciesName) =
        readExactDependencies t (p.parent?.getD ⟨""⟩ / exactDependenciesName) := by
      unfold readExactDependencies
      rw [hfile]
      split
      next hthere =>
        obtain ⟨bytes, hread⟩ := isFile_iff.mp hthere
        rw [hread, (h.read_eq_ok_iff hlast).mpr hread]
      next => rfl
    simp only [ElmManifest.completeManifest, hexact]

/-- **A project that is no application is loaded alike.** -/
theorem loadProject?_eq (h : t.AgreeOff u (sidecarName :: top)) (config : Config) {p : Path}
    {manifest : Manifest} (hname : p.fileName? ≠ some sidecarName)
    (hkind : ∀ declared, manifest ≠ .application declared)
    (hmanifest : (Sources.mk (Cache.mk config t).repository t.read).readManifest p =
      .ok manifest) :
    loadProject? u (Cache.mk config u).repository p =
      loadProject? t (Cache.mk config t).repository p := by
  have hcompleted : (Sources.mk (Cache.mk config u).repository u.read).readManifest p >>=
      ElmManifest.completeManifest u p =
        (Sources.mk (Cache.mk config t).repository t.read).readManifest p >>=
          ElmManifest.completeManifest t p := by
    rw [hmanifest, h.readManifest_eq hname hmanifest]
    exact h.completeManifest_eq p hkind
  cases hcomplete : (Sources.mk (Cache.mk config t).repository t.read).readManifest p >>=
      ElmManifest.completeManifest t p with
  | error error =>
    rw [loadProject?_of_error hcomplete, loadProject?_of_error (hcompleted.trans hcomplete)]
  | ok completed =>
    rw [loadProject?_of_ok hcomplete, loadProject?_of_ok (hcompleted.trans hcomplete),
      h.resolve?_eq]

end AgreeOff

end FileTree

/-! ## Loading beside a sidecar -/

/-- **The sidecar can change the test directory of an application and nothing else.**  In all trees
that agree but for the file beside the manifest, an application is resolved by one and the same run,
`alone`.  What the sidecar says becomes the test directory of the project that this run ends with,
if it ends with one, and what there is to warn of comes first.  Every other project is loaded as if
there were no such file.  `load_manifest` reads the sidecar before it resolves anything, and nothing
that it resolves depends on it. -/
theorem loadProject_of_agreeOff {t u : FileTree} {config : Config} {p : Path} {manifest : Manifest}
    (hname : p.fileName? ≠ some sidecarName) (hagree : t.AgreeOff u (t.target (sidecarPath p)))
    (hmanifest : (Sources.mk (Cache.mk config t).repository t.read).readManifest p =
      .ok manifest) :
    loadProject? u (Cache.mk config u).repository p =
      some (loadProject u (Cache.mk config u).repository p) ∧
    (∀ declared, manifest = .application declared →
      ∃ alone directory warnings,
        resolve? ⟨(Cache.mk config t).repository, t.read⟩ false p manifest = some alone ∧
        u.SidecarSays (sidecarPath p) directory warnings ∧
        loadProject u (Cache.mk config u).repository p =
          ⟨alone.result.map (Project.withTestDirectory directory), alone.calls,
            warnings ++ alone.warnings⟩) ∧
    ((∀ declared, manifest ≠ .application declared) →
      loadProject u (Cache.mk config u).repository p =
        loadProject t (Cache.mk config t).repository p) := by
  obtain ⟨front, hfront⟩ := Path.segments_join_name (p.parent?.getD ⟨""⟩)
    (show '/' ∉ sidecarName.toList by decide)
  obtain ⟨top, htop⟩ := t.target_of_segments hfront (by decide)
  rw [sidecarPath, htop] at hagree
  refine ⟨loadProject?_cache_eq_some config u p, ?application, ?others⟩
  case application =>
    rintro declared rfl
    obtain ⟨directory, warnings, hsays⟩ := u.exists_sidecarSays (sidecarPath p)
    -- The run is that of the manifest as it is decoded, without any test directory.
    have halone := resolve?_cache_eq_some ⟨config, t⟩ t.read false p (.application declared)
    refine ⟨_, directory, warnings, halone, hsays, loadProject_of_loadProject? ?_⟩
    have hcompleted : (Sources.mk (Cache.mk config u).repository u.read).readManifest p >>=
        completeManifest u p =
          .ok (.application { declared with testDirectory := directory }, warnings) := by
      rw [hagree.readManifest_eq hname hmanifest]
      exact hsays.completeManifest declared
    rw [loadProject?_of_ok hcompleted, hagree.resolve?_eq, resolve?_withTestDirectory, halone]
    rfl
  case others =>
    intro hkind
    apply loadProject_of_loadProject?
    rw [hagree.loadProject?_eq config hname hkind hmanifest]
    exact loadProject?_cache_eq_some config t p

/-! ## An application with one sidecar or another -/

/-- The application with the text of a sidecar beside it. -/
def plainFilesWith (sidecar : String) : FileTree :=
  { plainFiles with
    entries := (["elm.project.json", "app"], .file sidecar.toUTF8) :: plainFiles.entries }

/-- A sidecar that names a test directory. -/
def specText : String := "\x7b\"test-directory\":\"spec\"\x7d"

/-- A text that is no sidecar. -/
def brokenText : String := "["

/-- The application is all that the trees have in common. -/
theorem agreeOff_plainFiles (sidecar : String) :
    plainFiles.AgreeOff (plainFilesWith sidecar) ["elm.project.json", "app"] :=
  FileTree.agreeOff_of_new (by decide) (by decide) sidecar.toUTF8

theorem readManifest_plainFilesWith (sidecar : String) (repository : Repository) :
    (Sources.mk repository (plainFilesWith sidecar).read).readManifest ⟨"app/elm.json"⟩ =
      .ok (.application plainApplication) :=
  (agreeOff_plainFiles sidecar).readManifest_eq (by decide) (readManifest_plainFiles repository)

/-- The text is what is read as the sidecar. -/
theorem read_plainFilesWith (sidecar : String) :
    (plainFilesWith sidecar).read (sidecarPath ⟨"app/elm.json"⟩) = .ok sidecar.toUTF8 := by
  have hpath : sidecarPath ⟨"app/elm.json"⟩ = ⟨"app/elm.project.json"⟩ := by decide
  rw [hpath]
  refine FileTree.read_eq_ok_iff.mpr ⟨["elm.project.json", "app"], ?_, rfl⟩
  rfl

/-- One sidecar names the test directory and the other one is warned of; the runs are the same. -/
theorem loadProject_of_agreeOff_plainFiles :
    let config : Config := ⟨⟨"home"⟩, .ofNumbers 0 19 1⟩
    let load (sidecar : String) := loadProject (plainFilesWith sidecar)
      (Cache.mk config (plainFilesWith sidecar)).repository ⟨"app/elm.json"⟩
    ∃ alone error,
      resolve? ⟨(Cache.mk config (plainFilesWith specText)).repository,
        (plainFilesWith specText).read⟩ false ⟨"app/elm.json"⟩ (.application plainApplication) =
          some alone ∧
      load specText = ⟨alone.result.map (Project.withTestDirectory (some "spec")), alone.calls,
        alone.warnings⟩ ∧
      load brokenText = ⟨alone.result.map (Project.withTestDirectory none), alone.calls,
        .ignoredSidecar (sidecarPath ⟨"app/elm.json"⟩) error :: alone.warnings⟩ := by
  intro config load
  have htarget : (plainFilesWith specText).target (sidecarPath ⟨"app/elm.json"⟩) =
      ["elm.project.json", "app"] := by
    decide +kernel
  have hagree : ∀ sidecar, (plainFilesWith specText).AgreeOff (plainFilesWith sidecar)
      ((plainFilesWith specText).target (sidecarPath ⟨"app/elm.json"⟩)) := by
    intro sidecar
    rw [htarget]
    exact (agreeOff_plainFiles specText).symm.trans (agreeOff_plainFiles sidecar)
  have hload : ∀ sidecar, ∃ alone directory warnings,
      resolve? ⟨(Cache.mk config (plainFilesWith specText)).repository,
        (plainFilesWith specText).read⟩ false ⟨"app/elm.json"⟩ (.application plainApplication) =
          some alone ∧
      (plainFilesWith sidecar).SidecarSays (sidecarPath ⟨"app/elm.json"⟩) directory warnings ∧
      load sidecar = ⟨alone.result.map (Project.withTestDirectory directory), alone.calls,
        warnings ++ alone.warnings⟩ :=
    fun sidecar => (loadProject_of_agreeOff (by decide) (hagree sidecar)
      (readManifest_plainFilesWith specText _)).2.1 plainApplication rfl
  have hspec : (plainFilesWith specText).SidecarSays (sidecarPath ⟨"app/elm.json"⟩)
      (some "spec") [] := by
    have hdecode : Sidecar.decode (sidecarPath ⟨"app/elm.json"⟩) specText.toUTF8 =
        .ok ⟨some "spec"⟩ := eq_ok_of_toOption (by decide +kernel)
    exact .declared (read_plainFilesWith specText) hdecode
  obtain ⟨error, hbroken⟩ : ∃ error, (plainFilesWith brokenText).SidecarSays
      (sidecarPath ⟨"app/elm.json"⟩) none
        [.ignoredSidecar (sidecarPath ⟨"app/elm.json"⟩) error] := by
    have hnone : (Sidecar.decode (sidecarPath ⟨"app/elm.json"⟩) brokenText.toUTF8).toOption =
        none := by
      decide +kernel
    cases hdecode : Sidecar.decode (sidecarPath ⟨"app/elm.json"⟩) brokenText.toUTF8 with
    | error error => exact ⟨error, .ignored (read_plainFilesWith brokenText) hdecode⟩
    | ok sidecar =>
      rw [hdecode] at hnone
      cases hnone
  obtain ⟨alone, directory, warnings, halone, hsays, hresult⟩ := hload specText
  obtain ⟨rfl, rfl⟩ := hspec.unique hsays
  obtain ⟨alone', directory, warnings, halone', hsays', hresult'⟩ := hload brokenText
  obtain ⟨rfl, rfl⟩ := hbroken.unique hsays'
  cases halone.symm.trans halone'
  exact ⟨alone, error, halone, hresult, hresult'⟩

end ElmManifest
