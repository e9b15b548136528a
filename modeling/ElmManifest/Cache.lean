import ElmManifest.Config.Basic
import ElmManifest.Glob
import ElmManifest.Manifest.Basic
import ElmManifest.Repository
import ElmManifest.Version.Spelling

/-!
# The package cache

The compiler keeps every package it has fetched in a directory `author/project/version` below the
directory of packages, with the manifest inside.  The cache answers a resolver's questions from a
snapshot of the files.

## Main Definitions

* `PackageName.split?` — the halves of a name, for a name of the form `author/project`.
* `ElmHome` — where a cache is, for any home directory that the operating system takes.
* `ElmHome.find`, `ElmHome.versions` — what is there, on a disk.
* `Cache` — a configuration with the files it is looked up in.
* `Cache.packageDir?`, `Cache.manifestPath?` — where a package is.
* `Cache.find`, `Cache.versions` — what is there.
* `Cache.repository` — the cache as a repository.

## Design Notes

A name that is not of the form `author/project` has no directory, so no name leads out of the cache.
What makes an entry of a package's directory a version is its name and that something called
`elm.json` is inside; of several entries with one release the last in order of name counts.

A single manifest is looked up by its path, while the versions are listed by a pattern that is made
of the path.  The pattern has to be a text, so a home directory that is none is listed under another
name than it is looked up under.  The configuration of a `Cache` is made of texts, and for it the
two differ only in how the listing library spells its way: a path that is too long because of its
slashes or of the dots in front still has a listing.
-/

namespace ElmManifest

/-! ## Names of packages -/

namespace PackageName

/-- Whether the character may stand in either half of a name.  A slash may not, which is what keeps
a name from leading elsewhere. -/
def isNameCharacter (c : Char) : Bool :=
  c.isAlphanum || c == '-' || c == '_' || c == '.'

/-- Whether a text can be one half of a name: the condition `valid` of `split_package_name`.  The
two names that mean a step and not an entry, a single dot and two dots, are refused as well. -/
def isHalf (half : String) : Bool :=
  Path.isName half && half.toList.all isNameCharacter

/-- The author and the project, for a name of the form `author/project`: `split_package_name`.  The
name is cut at its first slash, so a second one is a character that the project may not have. -/
def split? (name : String) : Option (String × String) :=
  match Text.cut ['/'] name.toList with
  | none => none
  | some (author, project) =>
    if isHalf (String.ofList author) && isHalf (String.ofList project) then
      some (String.ofList author, String.ofList project)
    else none

/-- The halves of a name put together are the name. -/
theorem eq_of_split? {name author project : String} (h : split? name = some (author, project)) :
    name = author ++ "/" ++ project := by
  unfold split? at h
  split at h
  · simp at h
  next before after hc =>
    split at h
    · obtain ⟨rfl, rfl⟩ := Prod.mk.injEq .. ▸ Option.some.injEq .. ▸ h
      apply String.toList_inj.mp
      simpa [String.toList_append] using Text.append_of_cut hc
    · simp at h

theorem isHalf_of_split? {name author project : String}
    (h : split? name = some (author, project)) : isHalf author = true ∧ isHalf project = true := by
  unfold split? at h
  split at h
  · simp at h
  · split at h
    next hb =>
      obtain ⟨rfl, rfl⟩ := Prod.mk.injEq .. ▸ Option.some.injEq .. ▸ h
      simpa using hb
    · simp at h

/-- A half of a name holds no slash. -/
theorem slash_notMem_of_isHalf {half : String} (h : isHalf half = true) : '/' ∉ half.toList := by
  intro hm
  simp only [isHalf, Bool.and_eq_true, List.all_eq_true] at h
  exact absurd (h.2 _ hm) (by decide)

/-- A half of a name is the name of a directory. -/
theorem isName_of_isHalf {half : String} (h : isHalf half = true) : Path.isName half = true := by
  simp only [isHalf, Bool.and_eq_true] at h
  exact h.1

end PackageName

/-! ## Any home directory -/

/-- A package cache below any directory that the operating system takes, be its path a text or not.
`Cache` is the part of it that has a text for a path. -/
structure ElmHome where
  /-- The home directory of the compiler's tools. -/
  path : OsPath
  /-- The compiler version whose packages are used. -/
  compiler : Version

namespace ElmHome

/-- The directory with one directory for each author of packages: `packages_dir`. -/
def packagesDir (home : ElmHome) : OsPath :=
  home.path / home.compiler.text / "packages"

/-- The directory of a package, if the name has the form `author/project`: `package_dir`. -/
def packageDir? (home : ElmHome) (name : String) : Option OsPath :=
  (PackageName.split? name).map fun (author, project) => home.packagesDir / author / project

/-- The manifest of a package at a version, if it is a file: `find_package_manifest`.  The path is
taken as it is, bytes and all. -/
def find (home : ElmHome) (disk : Disk) (name : String) (version : Version) : Option OsPath :=
  ((home.packageDir? name).map fun dir => dir / version.text / manifestName).filter disk.isFile

/-- The pattern for the manifests below a directory.  What is special in the path of the directory
stands for itself, as `Pattern::escape` sees to, and what is no text in it has been replaced, as a
pattern can only be a text. -/
def listingPattern (dir : OsPath) : String :=
  Pattern.escape dir.lossy ++ "/*/" ++ manifestName

/-- The versions of a package, by the names of the directories in which a manifest is listed:
`available_versions`.  Whether what is listed is a file is not looked at, and a directory whose name
is no version is passed over. -/
def versions (home : ElmHome) (disk : Disk) (name : String) : VersionSet :=
  match home.packageDir? name with
  | none => .empty
  | some dir =>
    .ofList ((disk.glob (listingPattern dir)).filterMap fun path =>
      path.parentName?.bind fun entry => (Version.parse entry).toOption)

end ElmHome

/-! ## The cache -/

/-- A package cache: where it is, and the files it is looked up in. -/
structure Cache where
  /-- Where the cache is. -/
  config : Config
  /-- The files. -/
  files : FileTree

namespace Cache

/-- The directory of a package in a cache, if the name has the form `author/project`: `package_dir`
for a cache whose path is a text. -/
def packageDir? (config : Config) (name : String) : Option Path :=
  (PackageName.split? name).map fun (author, project) => config.packagesDir / author / project

/-- Where the manifest of a package at a version is kept.  The version is spelled as it was asked
for, its tags included, so two spellings of one release are kept in different places. -/
def manifestPath? (config : Config) (name : String) (version : Version) : Option Path :=
  (packageDir? config name).map fun dir => dir / version.text / manifestName

/-- The manifest of a package at a version, if it is a file: `find_package_manifest`.  Nothing in
the file is looked at. -/
def find (cache : Cache) (name : String) (version : Version) : Option Path :=
  (manifestPath? cache.config name version).filter cache.files.isFile

/-- Where the cache is, for the operating system. -/
def home (cache : Cache) : ElmHome :=
  ⟨.ofPath cache.config.elmHome, cache.config.compiler⟩

/-- The versions of a package, by the entries of its directory that have something called
`elm.json` in them: `available_versions`. -/
def versions (cache : Cache) (name : String) : VersionSet :=
  cache.home.versions cache.files.disk name

/-- The package and the spelled version of a location in a cache, by the last four names that lead
there; none for a location that is not of this form. -/
def holdingAt : Location → Option (String × String)
  | manifest :: version :: project :: author :: _ =>
    if manifest = manifestName then some (author ++ "/" ++ project, version) else none
  | _ => none

/-- All packages with their versions that can be in the cache.  There are finitely many of them,
whatever is asked, and this is what bounds a run over a cache. -/
def holdings (cache : Cache) : List (String × String) :=
  cache.files.entries.filterMap fun entry => holdingAt entry.1

/-- The path of a manifest ends with the author, the project, the version and the file name, each of
them one segment: none of the four has a slash in it. -/
theorem segments_manifestPath? {config : Config} {name author project : String}
    {version : Version} {path : Path} (hn : PackageName.split? name = some (author, project))
    (h : manifestPath? config name version = some path) :
    ∃ front, path.segments = front ++ [author, project, version.text, manifestName] := by
  obtain ⟨ha, hp⟩ := PackageName.isHalf_of_split? hn
  have notEmpty : ∀ {s : String}, Path.isName s = true → s ≠ "" := by
    rintro s hs rfl
    exact absurd hs (by decide)
  simp only [manifestPath?, packageDir?, hn, Option.map_some, Option.some.injEq] at h
  obtain ⟨front, h₁⟩ := Path.segments_join_name config.packagesDir
    (PackageName.slash_notMem_of_isHalf ha)
  have h₂ := Path.segments_join_name_of_name h₁ (notEmpty (PackageName.isName_of_isHalf ha))
    (PackageName.slash_notMem_of_isHalf hp)
  have h₃ := Path.segments_join_name_of_name h₂ (notEmpty (PackageName.isName_of_isHalf hp))
    version.slash_notMem_text
  have h₄ := Path.segments_join_name_of_name h₃ (notEmpty version.isName_text)
    (show '/' ∉ manifestName.toList by decide)
  refine ⟨front, ?_⟩
  rw [← h, h₄, h₃, h₂, h₁]
  simp

/-- A manifest that is found is among the holdings. -/
theorem mem_holdings_of_find {cache : Cache} {name : String} {version : Version} {path : Path}
    (h : cache.find name version = some path) : (name, version.text) ∈ cache.holdings := by
  obtain ⟨hpath, hfile⟩ := Option.filter_eq_some_iff.mp h
  obtain ⟨place, bytes, hplace, hmem⟩ := FileTree.mem_entries_of_isFile hfile
  obtain ⟨⟨author, project⟩, hsplit, -⟩ : ∃ halves, PackageName.split? name = some halves ∧
      True := by
    unfold manifestPath? packageDir? at hpath
    cases hs : PackageName.split? name with
    | none => simp [hs] at hpath
    | some halves => exact ⟨halves, rfl, trivial⟩
  obtain ⟨ha, hp⟩ := PackageName.isHalf_of_split? hsplit
  obtain ⟨front, hseg⟩ := segments_manifestPath? hsplit hpath
  obtain ⟨top, rfl⟩ := FileTree.locate_names hseg
    (by
      intro segment hm
      simp only [List.mem_cons, List.not_mem_nil, or_false] at hm
      rcases hm with rfl | rfl | rfl | rfl
      · exact PackageName.isName_of_isHalf ha
      · exact PackageName.isName_of_isHalf hp
      · exact version.isName_text
      · decide) hplace
  refine List.mem_filterMap.mpr ⟨_, hmem, ?_⟩
  simp [holdingAt, PackageName.eq_of_split? hsplit]

/-- The cache as a repository.  Both answers come from one snapshot, so they do not change during a
run. -/
def repository (cache : Cache) : Repository where
  find := cache.find
  versions := cache.versions

end Cache

end ElmManifest
