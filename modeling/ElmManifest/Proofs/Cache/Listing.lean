import ElmManifest.Proofs.FileTree.Globbing
import ElmManifest.Proofs.Path.Bytes
import ElmManifest.Proofs.Resolution.Failures
import ElmManifest.Proofs.Version.Reading

/-!
# Listed versions

A repository answers two questions about a package, and the cache answers them in two ways.
`available_versions` makes a pattern of the path of the package's directory and leaves the rest to
the listing library, which enters the directory one segment after the other and asks which of its
entries have something called `elm.json` in them.  `find_package_manifest` follows a path as it is
spelled, and what is there has to be a file.

For a path that is a text, both ways come to the same place (`Cache.locate_manifest`): the walk of
the library spells the path with fewer segments that say nothing, and such segments lead nowhere.
So the two answers agree wherever the thing called `elm.json` is a file and its path is not too
long.  A directory called `elm.json` is listed and not found, and then a resolver that has selected
this version fails for want of a manifest.

## Main Definitions

* `Cache.Hollow` — a version whose manifest is a directory, or has a path that is too long.
* `Sources.ListedNotFound` — an error over a version that is listed and not found.

## Main Statements

* `Cache.locate_manifest` — a listing and a look-up meet at the same location.
* `Cache.glob_listingPattern` — the paths that are listed for a package.
* `Cache.versions_eq` — the versions are read off the entries of the directory.
* `Cache.find_home` — a look-up on the disk is a look-up in the files.
* `Cache.found_unless_hollow` — a listed version is found unless it is hollow, and a run over the
  cache that has selected a version and finds no manifest for it has met a hollow one.
* `listed_not_found` — there are hollow versions.
-/

namespace ElmManifest

/-! ## Paths into a cache -/

namespace Cache

/-- The directory of a package is spelled with the two halves of the name at the end. -/
theorem segments_of_packageDir? {config : Config} {name : String} {dir : Path}
    (h : packageDir? config name = some dir) : ∃ front project, dir.segments = front ++ [project] ∧
      front ≠ [] ∧ Path.isName project = true := by
  obtain ⟨⟨author, project⟩, hsplit, rfl⟩ := Option.map_eq_some_iff.mp h
  obtain ⟨hauthor, hproject⟩ := PackageName.isHalf_of_split? hsplit
  obtain ⟨front, hfront⟩ := Path.segments_join_name config.packagesDir
    (PackageName.slash_notMem_of_isHalf hauthor)
  have hname := PackageName.isName_of_isHalf hauthor
  refine ⟨front ++ [author], project, ?_, by simp, PackageName.isName_of_isHalf hproject⟩
  rw [← hfront]
  apply Path.segments_join_name_of_name hfront
  · rintro rfl
    exact absurd hname (by decide)
  · exact PackageName.slash_notMem_of_isHalf hproject

theorem ne_empty_of_isName {segment : String} (h : Path.isName segment = true) : segment ≠ "" := by
  rintro rfl
  exact absurd h (by decide)

/-- Below a directory, the manifest in an entry is two segments away. -/
theorem segments_manifest {dir : Path} {front : List String} {last entry : String}
    (hdir : dir.segments = front ++ [last]) (hlast : Path.isName last = true)
    (hentry : Path.isEntryName entry = true) :
    (dir / entry / manifestName).segments = front ++ [last, entry, manifestName] := by
  obtain ⟨hname, hslash⟩ := Path.isEntryName_iff.mp hentry
  have hjoined := Path.segments_join_name_of_name hdir (ne_empty_of_isName hlast) hslash
  rw [Path.segments_join_name_of_name hjoined (ne_empty_of_isName hname) (by decide), hjoined, hdir]
  simp

theorem isRooted_manifest {dir : Path} {entry : String} (hentry : Path.isEntryName entry = true) :
    (dir / entry / manifestName).isRooted = dir.isRooted :=
  (Path.isRooted_join (dir / entry) (by decide)).trans
    (Path.isRooted_join dir (Path.isRooted_of_notMem (Path.isEntryName_iff.mp hentry).2))

/-- **A listing and a look-up meet at the same location.** -/
theorem locate_manifest {t : FileTree} {config : Config} {name : String} {dir listed : Path}
    {version : Version} {place : Location} (hdir : packageDir? config name = some dir)
    (hlisted : dir.walked? = some listed)
    (h : t.locate (listed / version.text / manifestName) = .ok place) :
    t.locate (dir / version.text / manifestName) =
      if FileTree.maxPathLength < (dir / version.text / manifestName).text.utf8ByteSize then
        .error .nameTooLong
      else .ok place := by
  obtain ⟨front, project, hsegments, hfront, hproject⟩ := segments_of_packageDir? hdir
  obtain ⟨front', hsegments', hmeant, hroot, -⟩ :=
    Path.segments_of_walked? hsegments hfront hproject hlisted
  have hentry := version.isEntryName_text
  have hpath := segments_manifest hsegments hproject hentry
  have hpath' := segments_manifest hsegments' hproject hentry
  have hspelled : (dir / version.text / manifestName).segments =
      (front ++ [project, version.text]) ++ [manifestName] := by
    simpa using hpath
  refine FileTree.locate_of_significant_eq hspelled (by decide) ?_ ?_ h
  · rw [hpath, hpath', Path.significant_append, Path.significant_append, hmeant]
  · rw [isRooted_manifest hentry, isRooted_manifest hentry, hroot]

/-! ## What is listed -/

/-- The directory of a package below a home directory that is a text. -/
theorem packageDir?_ofPath (config : Config) (name : String) :
    (ElmHome.mk (.ofPath config.elmHome) config.compiler).packageDir? name =
      (packageDir? config name).map .ofPath := by
  unfold ElmHome.packageDir? packageDir? ElmHome.packagesDir Config.packagesDir
  cases PackageName.split? name <;> simp [OsPath.ofPath_join]

/-- A manifest is found below it at the path that the text leads to. -/
theorem find_home (cache : Cache) (name : String) (version : Version) :
    cache.home.find cache.files.disk name version =
      (cache.find name version).map .ofPath := by
  unfold ElmHome.find find manifestPath? home
  rw [packageDir?_ofPath]
  cases packageDir? cache.config name with
  | none => rfl
  | some dir =>
    simp only [Option.map_some, ← OsPath.ofPath_join, Option.filter_some, FileTree.disk,
      OsPath.toPath?_ofPath, Option.any_some]
    split <;> rfl

/-- The manifest in an entry of a directory is two steps away. -/
theorem steps_manifest (p : OsPath) {entry : String} (hentry : Path.isEntryName entry = true) :
    (p / entry / manifestName).steps = p.steps ++ [utf8Bytes entry, utf8Bytes manifestName] := by
  rw [OsPath.steps_join (by decide), OsPath.steps_join hentry, List.append_assoc]
  rfl

/-- The manifest of an entry is in the directory of that name, so the name is what the listing reads
as a version. -/
theorem parentName?_manifest (p : OsPath) {entry : String}
    (hentry : Path.isEntryName entry = true) :
    (p / entry / manifestName).parentName? = some entry := by
  refine OsPath.parentName?_of_steps (steps_manifest p hentry) ?_
  rintro rfl
  exact absurd hentry (by decide)

/-- The paths that a file tree lists for the pattern of a package. -/
theorem glob_listingPattern (t : FileTree) {config : Config} {name : String} {dir : Path}
    (hdir : packageDir? config name = some dir) :
    t.disk.glob (ElmHome.listingPattern (.ofPath dir)) = match dir.walked? with
      | none => []
      | some listed =>
        (t.listed listed).map fun entry => OsPath.ofPath listed / entry / manifestName := by
  obtain ⟨front, project, hsegments, hfront, hproject⟩ := segments_of_packageDir? hdir
  have hglob := t.glob_escape hsegments hfront hproject
  simp only [FileTree.disk, ElmHome.listingPattern, OsPath.lossy_ofPath, hglob]
  cases dir.walked? with
  | none => rfl
  | some listed => simp only [List.map_map, Function.comp_def, OsPath.ofPath_join]

/-- **The versions of a package** are what the entries of its directory are read as, if the walk of
the listing comes to it.  What the library returns and how it spells it has no further part in the
set. -/
theorem versions_eq (cache : Cache) (name : String) : cache.versions name =
    match (packageDir? cache.config name).bind Path.walked? with
    | none => .empty
    | some listed => .ofList ((cache.files.listed listed).filterMap fun entry =>
        (Version.parse entry).toOption) := by
  unfold versions ElmHome.versions home
  rw [packageDir?_ofPath]
  cases hdir : packageDir? cache.config name with
  | none => rfl
  | some dir =>
    simp only [Option.map_some, Option.bind_some, glob_listingPattern _ hdir]
    cases dir.walked? with
    | none => rfl
    | some listed =>
      simp only [List.filterMap_map]
      congr 1
      apply List.filterMap_congr
      intro entry hentry
      have hname := (FileTree.mem_childNames.mp (List.mem_filter.mp hentry).1).1
      simp only [Function.comp_apply, parentName?_manifest _ hname, Option.bind_some]

/-- A version in a set was put there. -/
theorem mem_of_mem_foldl_insert {versions : List Version} {set : VersionSet} {v : Version}
    (h : v ∈ (versions.foldl VersionSet.insert set).toList) : v ∈ set.toList ∨ v ∈ versions := by
  induction versions generalizing set with
  | nil => exact .inl h
  | cons first rest ih =>
    rcases ih h with h | h
    · rcases VersionSet.mem_insertInto h with rfl | h
      · exact .inr (List.mem_cons_self ..)
      · exact .inl h
    · exact .inr (List.mem_cons_of_mem _ h)

/-- A version is listed for the entry that is spelled like it. -/
theorem exists_of_mem_versions {cache : Cache} {name : String} {version : Version}
    (h : version ∈ (cache.versions name).toList) : ∃ dir listed,
      packageDir? cache.config name = some dir ∧ dir.walked? = some listed ∧
        cache.files.contains (listed / version.text / manifestName) = true := by
  rw [versions_eq] at h
  cases hbind : (packageDir? cache.config name).bind Path.walked? with
  | none =>
    rw [hbind] at h
    cases h
  | some listed =>
    rw [hbind] at h
    obtain ⟨dir, hdir, hlisted⟩ := Option.bind_eq_some_iff.mp hbind
    refine ⟨dir, listed, hdir, hlisted, ?_⟩
    rcases mem_of_mem_foldl_insert h with h | h
    · cases h
    · obtain ⟨entry, hentry, hparse⟩ := List.mem_filterMap.mp h
      obtain rfl : entry = version.text := by
        cases hread : Version.parse entry with
        | error => simp [hread, Except.toOption] at hparse
        | ok v =>
          obtain rfl : v = version := by simpa [hread, Except.toOption] using hparse
          exact Version.parse_eq_ok_iff.mp hread
      exact (List.mem_filter.mp hentry).2

/-- The version is listed although there is no manifest to be found for it: what is called
`elm.json` is a directory, or its path as spelled is too long. -/
def Hollow (cache : Cache) (name : String) (version : Version) : Prop :=
  ∃ path, manifestPath? cache.config name version = some path ∧
    (cache.files.read path = .error .isADirectory ∨
      FileTree.maxPathLength < path.text.utf8ByteSize)

/-- **A listed version is found unless it is hollow.**  The spelling that the library has for the
path is shorter than the one that is looked up, so the two differ only at paths that are too
long. -/
theorem find_eq_none_iff_of_mem_versions {cache : Cache} {name : String} {version : Version}
    (h : version ∈ (cache.versions name).toList) :
    cache.find name version = none ↔ cache.Hollow name version := by
  obtain ⟨dir, listed, hdir, hlisted, hcontains⟩ := exists_of_mem_versions h
  have hpath : manifestPath? cache.config name version =
      some (dir / version.text / manifestName) := by
    rw [manifestPath?, hdir, Option.map_some]
  obtain ⟨place, node, hplace, hnode⟩ := FileTree.exists_of_contains hcontains
  have hlocate := locate_manifest hdir hlisted hplace
  unfold find Hollow
  rw [hpath, Option.filter_some]
  simp only [Option.some.injEq, exists_eq_left']
  by_cases hlong : FileTree.maxPathLength < (dir / version.text / manifestName).text.utf8ByteSize
  · rw [if_pos hlong] at hlocate
    have hread := FileTree.read_of_locate_error hlocate
    simp [FileTree.isFile, hread, hlong]
  · rw [if_neg hlong] at hlocate
    have hread := FileTree.read_of_locate hlocate
    rw [hnode] at hread
    cases node with
    | file bytes => simp [FileTree.isFile, hread, hlong]
    | directory => simp [FileTree.isFile, hread]

end Cache

/-! ## Runs -/

namespace Sources

variable {sources : Sources}

/-- An error over a version that was selected and has no manifest is about a listed version that is
not found. -/
def ListedNotFound (sources : Sources) (error : LoadError) : Prop :=
  ∀ name range version, error = .unresolvedDependency name (.within range) (.noManifest version) →
    version ∈ (sources.repository.versions name).toList ∧
      sources.repository.find name version = none

/-- A package cannot be fetched because there is no manifest, or because of what is in it. -/
theorem listedNotFound_of_fetch_error {name : String} {version : Version}
    {requirement : Requirement} {error : LoadError}
    (hlisted : ∀ range, requirement = .within range →
      version ∈ (sources.repository.versions name).toList)
    (h : sources.fetch name version requirement = .error error) :
    sources.ListedNotFound error := by
  rintro name' range version' rfl
  unfold fetch at h
  split at h
  next hfind =>
    cases h
    exact ⟨hlisted range rfl, hfind⟩
  next path hfind =>
    cases hread : sources.readPackage name path with
    | ok declared => rw [hread] at h; cases h
    | error fault =>
      rw [hread] at h
      cases h
      cases file?_of_readPackage_error hread

private theorem runInvariant_listedNotFound (sources : Sources) : sources.RunInvariant
    (fun name version requirement _ outcome _ => ∀ error, outcome = .error error →
      (∀ range, requirement = .within range →
        version ∈ (sources.repository.versions name).toList) → sources.ListedNotFound error)
    (fun _ _ outcome _ => ∀ error, outcome = .error error → sources.ListedNotFound error) := by
  constructor
  case recalled => exact fun _ _ h => by cases h
  case cyclic =>
    intro _ _ _ _ chain _ _ _ herror _
    cases herror
    intro name range version h
    cases h
  case unfetched =>
    intro name version requirement s _ _ hfetch _ herror hlisted
    cases herror
    exact listedNotFound_of_fetch_error hlisted hfetch
  case failed =>
    intro name version requirement s path declared _ t _ _ _ ih _ herror _
    cases herror
    exact ih _ rfl
  case loaded => exact fun _ _ _ _ _ h => by cases h
  case nil => exact fun _ h => by cases h
  case unselected =>
    intro name requirement rest s _ hselect _ herror
    cases herror
    -- No version was selected, so the error is not about one.
    obtain ⟨range, rfl, -, rfl⟩ := exists_of_select_error hselect
    intro name' range' version h
    split at h <;> cases h
  case headFailed =>
    intro name requirement rest s version _ t hselect _ ih _ herror
    cases herror
    apply ih _ rfl
    rintro range rfl
    exact (isMinimum_of_select hselect).listed
  case tail =>
    intro name requirement rest s version project t outcome u _ _ _ _ ihRest error herror
    cases outcome with
    | ok projects => cases herror
    | error fault =>
      cases herror
      exact ihRest _ rfl

end Sources

/-- **A run that finds no manifest for the version it has selected** has selected a version that is
listed and not found.  The invariant holds of each call, whatever the repository is. -/
theorem listedNotFound_of_resolve? {sources : Sources} {ignoreTests : Bool} {path : Path}
    {manifest : Manifest} {outcome : Outcome} {error : LoadError}
    (h : resolve? sources ignoreTests path manifest = some outcome)
    (herror : outcome.result = .error error) : sources.ListedNotFound error := by
  rcases resolve?_cases h with ⟨_, t, hruntime, rfl⟩ | ⟨_, t, _, u, _, htests, rfl⟩ |
    ⟨_, _, _, _, _, _, rfl⟩
  · cases herror
    exact (Sources.runInvariant_listedNotFound sources).loadAll hruntime error rfl
  · cases herror
    exact (Sources.runInvariant_listedNotFound sources).loadAll htests error rfl
  · cases herror

namespace Cache

/-- **A listed version is found unless it is hollow**, and only for hollow versions a run over the
cache finds no manifest after having selected them. -/
theorem found_unless_hollow (cache : Cache) (name : String) (version : Version) :
    (version ∈ (cache.versions name).toList →
      (cache.find name version = none ↔ cache.Hollow name version)) ∧
    ∀ read ignoreTests path manifest range,
      (resolve ⟨cache.repository, read⟩ ignoreTests path manifest).result =
          .error (.unresolvedDependency name (.within range) (.noManifest version)) →
        version ∈ (cache.versions name).toList ∧ cache.Hollow name version := by
  refine ⟨find_eq_none_iff_of_mem_versions, ?_⟩
  intro read ignoreTests path manifest range herror
  have hrun := resolve?_cache_eq_some cache read ignoreTests path manifest
  obtain ⟨hlisted, hfind⟩ := listedNotFound_of_resolve? hrun herror name range version rfl
  exact ⟨hlisted, (find_eq_none_iff_of_mem_versions hlisted).mp hfind⟩

end Cache

/-! ## A cache with a hollow version -/

/-- A later version of the package. -/
def laterLeafVersion : Version := .ofNumbers 1 1 0

/-- A cache with two versions of a package; the manifest of the first one is a directory. -/
def hollowCache : Cache where
  config := ⟨⟨"home"⟩, .ofNumbers 0 19 1⟩
  files := ⟨[(["elm.json", "1.0.0", "leaf", "a", "packages", "0.19.1", "home"], .directory),
    (["elm.json", "1.1.0", "leaf", "a", "packages", "0.19.1", "home"], .file leafText.toUTF8)], []⟩

/-- The cache with its files. -/
def hollowSources : Sources := ⟨hollowCache.repository, hollowCache.files.read⟩

theorem versions_hollow :
    (hollowCache.versions "a/leaf").toList = [leafVersion, laterLeafVersion] := by
  decide +kernel

theorem find_hollow : hollowCache.find "a/leaf" leafVersion = none := by
  decide +kernel

theorem Sources.select_of_selectMinimum {sources : Sources} {name : String} {range : Constraint}
    {version : Version}
    (h : range.selectMinimum (sources.repository.versions name).toList = some version) :
    sources.select name (.within range) = .ok version := by
  rw [select, h]

theorem Sources.fetch_of_find_eq_none {sources : Sources} {name : String} {version : Version}
    (h : sources.repository.find name version = none) (requirement : Requirement) :
    sources.fetch name version requirement =
      .error (.unresolvedDependency name requirement (.noManifest version)) := by
  rw [fetch, h]

/-- The smaller version is selected, and the run is over. -/
theorem resolve_hollow : (resolve hollowSources false ⟨"elm.json"⟩ (.package leafRoot)).result =
    .error (.unresolvedDependency "a/leaf" (.within leafRange) (.noManifest leafVersion)) := by
  have hselect : hollowSources.select "a/leaf" (.within leafRange) = .ok leafVersion := by
    apply Sources.select_of_selectMinimum
    apply (congrArg leafRange.selectMinimum versions_hollow).trans
    decide +kernel
  have hfetch : hollowSources.fetch "a/leaf" leafVersion (.within leafRange) =
      .error (.unresolvedDependency "a/leaf" (.within leafRange) (.noManifest leafVersion)) :=
    Sources.fetch_of_find_eq_none find_hollow _
  have hnew : (Session.empty.askFor ("a/leaf", .within leafRange)).Lacks ("a/leaf", leafVersion) :=
    ⟨List.not_mem_nil, List.not_mem_nil⟩
  have hruntime := hollowSources.loadAll_of_load_error (s := .empty) [] hselect
    (hollowSources.load_of_fetch_error hnew hfetch)
  have hrun : resolve? hollowSources false ⟨"elm.json"⟩ (.package leafRoot) = some _ :=
    resolve?_of_loadAll_error false ⟨"elm.json"⟩ hruntime
  unfold resolve
  rw [hrun]
  rfl

/-- In the cache with two versions the later one is found, so it is not hollow; the earlier one is
listed, so a run selects it, and finds no manifest. -/
theorem found_unless_hollow_hollowCache :
    laterLeafVersion ∈ (hollowCache.versions "a/leaf").toList ∧
    hollowCache.find "a/leaf" laterLeafVersion =
      some ⟨"home/0.19.1/packages/a/leaf/1.1.0/elm.json"⟩ ∧
    ¬ hollowCache.Hollow "a/leaf" laterLeafVersion ∧
    (resolve ⟨hollowCache.repository, hollowCache.files.read⟩ false ⟨"elm.json"⟩
      (.package leafRoot)).result =
        .error (.unresolvedDependency "a/leaf" (.within leafRange) (.noManifest leafVersion)) ∧
    leafVersion ∈ (hollowCache.versions "a/leaf").toList ∧
    hollowCache.Hollow "a/leaf" leafVersion := by
  have hlisted : laterLeafVersion ∈ (hollowCache.versions "a/leaf").toList := by
    rw [versions_hollow]
    simp
  have hfind : hollowCache.find "a/leaf" laterLeafVersion =
      some ⟨"home/0.19.1/packages/a/leaf/1.1.0/elm.json"⟩ := by
    decide +kernel
  refine ⟨hlisted, hfind, fun hhollow => ?_, resolve_hollow, ?_⟩
  · rw [((hollowCache.found_unless_hollow _ _).1 hlisted).mpr hhollow] at hfind
    cases hfind
  · exact (hollowCache.found_unless_hollow _ _).2 _ _ _ _ _ resolve_hollow

/-- **A directory is listed and not found**, so that a version which is selected from the listing
fails for want of a manifest.  `available_versions` matches names, and only `find_package_manifest`
asks what is behind them. -/
theorem listed_not_found :
    leafVersion ∈ (hollowCache.versions "a/leaf").toList ∧
      hollowCache.find "a/leaf" leafVersion = none ∧
      (resolve hollowSources false ⟨"elm.json"⟩ (.package leafRoot)).result =
        .error (.unresolvedDependency "a/leaf" (.within leafRange) (.noManifest leafVersion)) := by
  refine ⟨?_, find_hollow, resolve_hollow⟩
  rw [versions_hollow]
  exact List.mem_cons_self ..

end ElmManifest
