import ElmManifest.Proofs.Cache.Listing
import ElmManifest.Proofs.Constraint.Reading
import ElmManifest.Proofs.Path.Joining

/-!
# Paths into a cache

Every path that the cache answers with is put together from the name of a package and the spelling
of a version, and both can come from anywhere.  A name is taken only if it is two plain names of
directories with a slash between them, and a version is always spelled as the name of a directory.
So a path into the cache has the steps of the directory of packages and then one step for each of
these names; nothing leads out, and the names can be read off the path again.

## Main Definitions

* `PackageName.IsPart`, `PackageName.Spells` — the form of a name.

## Main Statements

* `PackageName.split?_eq_some_iff` — names of this form are taken, and no others.
* `Cache.locate_manifest_of_spells` — a manifest is four steps below the directory of packages.
* `Cache.confined` — paths into a cache stay in it and differ for different packages and versions.
-/

namespace ElmManifest

/-! ## Names -/

namespace PackageName

/-- One half of a name: not empty, not a dot or two dots, and nothing but ASCII letters and digits,
hyphens, underscores and dots. -/
structure IsPart (part : String) : Prop where
  /-- There is something in it. -/
  ne_empty : part ≠ ""
  /-- It is not the name of the directory itself. -/
  ne_dot : part ≠ "."
  /-- It is not the name of the enclosing directory. -/
  ne_dots : part ≠ ".."
  /-- It is plain. -/
  plain : ∀ c ∈ part.toList, 'a' ≤ c ∧ c ≤ 'z' ∨ 'A' ≤ c ∧ c ≤ 'Z' ∨ '0' ≤ c ∧ c ≤ '9' ∨
    c = '-' ∨ c = '_' ∨ c = '.'

/-- The name is the author, a slash and the project. -/
structure Spells (name author project : String) : Prop where
  /-- The name is put together from its halves. -/
  joined : name = author ++ "/" ++ project
  /-- The author is a half. -/
  author : IsPart author
  /-- So is the project. -/
  project : IsPart project

theorem isNameCharacter_iff {c : Char} :
    isNameCharacter c = true ↔ 'a' ≤ c ∧ c ≤ 'z' ∨ 'A' ≤ c ∧ c ≤ 'Z' ∨ '0' ≤ c ∧ c ≤ '9' ∨
      c = '-' ∨ c = '_' ∨ c = '.' := by
  simp only [isNameCharacter, Bool.or_eq_true, beq_iff_eq, Text.isAlphanum_iff]
  tauto

theorem isHalf_iff {part : String} : isHalf part = true ↔ IsPart part := by
  simp only [isHalf, Path.isName, Path.isNoise, Bool.and_eq_true, Bool.not_eq_true',
    Bool.or_eq_false_iff, beq_eq_false_iff_ne, bne_iff_ne, List.all_eq_true, isNameCharacter_iff]
  constructor
  · rintro ⟨⟨⟨hempty, hdot⟩, hdots⟩, hplain⟩
    exact ⟨hempty, hdot, hdots, hplain⟩
  · exact fun h => ⟨⟨⟨h.ne_empty, h.ne_dot⟩, h.ne_dots⟩, h.plain⟩

theorem IsPart.slash_notMem {part : String} (h : IsPart part) : '/' ∉ part.toList :=
  slash_notMem_of_isHalf (isHalf_iff.mpr h)

theorem IsPart.isName {part : String} (h : IsPart part) : Path.isName part = true :=
  isName_of_isHalf (isHalf_iff.mpr h)

theorem IsPart.isEntryName {part : String} (h : IsPart part) : Path.isEntryName part = true :=
  Path.isEntryName_iff.mpr ⟨h.isName, h.slash_notMem⟩

/-- **Names of this form are taken, and no others.**  It is the condition of `split_package_name`,
without a word on how the name is cut. -/
theorem split?_eq_some_iff {name author project : String} :
    split? name = some (author, project) ↔ Spells name author project := by
  constructor
  · intro h
    obtain ⟨hauthor, hproject⟩ := isHalf_of_split? h
    exact ⟨eq_of_split? h, isHalf_iff.mp hauthor, isHalf_iff.mp hproject⟩
  · rintro ⟨rfl, hauthor, hproject⟩
    have hcut : Text.cut ['/'] (author ++ "/" ++ project).toList =
        some (author.toList, project.toList) := by
      rw [String.toList_append, String.toList_append, List.append_assoc,
        Text.cut_append hauthor.slash_notMem]
      simp [Text.cut]
    rw [split?, hcut]
    simp [isHalf_iff.mpr hauthor, isHalf_iff.mpr hproject]

theorem Spells.count_slash {name author project : String} (h : Spells name author project) :
    name.toList.count '/' = 1 := by
  rw [h.joined, String.toList_append, String.toList_append, List.count_append, List.count_append,
    List.count_eq_zero_of_not_mem h.author.slash_notMem,
    List.count_eq_zero_of_not_mem h.project.slash_notMem]
  decide

end PackageName

/-! ## Paths -/

namespace Cache

variable {config : Config} {name author project : String} {version : Version} {dir path : Path}

/-- A path to a manifest ends in the name of manifests. -/
theorem fileName?_manifest (p : Path) : (p / manifestName).fileName? = some manifestName :=
  p.fileName?_join_name (by decide) (by decide)

theorem packageDir?_eq_some_iff : packageDir? config name = some dir ↔
    ∃ author project, PackageName.Spells name author project ∧
      dir = config.packagesDir / author / project := by
  unfold packageDir?
  rw [Option.map_eq_some_iff]
  constructor
  · rintro ⟨⟨author, project⟩, hsplit, rfl⟩
    exact ⟨author, project, PackageName.split?_eq_some_iff.mp hsplit, rfl⟩
  · rintro ⟨author, project, hname, rfl⟩
    exact ⟨(author, project), PackageName.split?_eq_some_iff.mpr hname, rfl⟩

theorem exists_of_find {cache : Cache} (h : cache.find name version = some path) :
    ∃ author project, PackageName.Spells name author project ∧
      path = cache.config.packagesDir / author / project / version.text / manifestName ∧
      cache.files.isFile path = true := by
  obtain ⟨hpath, hfile⟩ := Option.filter_eq_some_iff.mp h
  obtain ⟨dir, hdir, rfl⟩ := Option.map_eq_some_iff.mp hpath
  obtain ⟨author, project, hname, rfl⟩ := packageDir?_eq_some_iff.mp hdir
  exact ⟨author, project, hname, rfl, hfile⟩

section Spelled

variable (hname : PackageName.Spells name author project)
include hname

/-- The steps to the directory of a package. -/
theorem components_packageDir (config : Config) :
    (config.packagesDir / author / project).components =
      config.packagesDir.components ++ [.name author, .name project] := by
  rw [Path.components_join_name _ hname.project.slash_notMem hname.project.isName,
    Path.components_join_name _ hname.author.slash_notMem hname.author.isName, List.append_assoc]
  rfl

theorem components_manifest (config : Config) (version : Version) :
    (config.packagesDir / author / project / version.text / manifestName).components =
      config.packagesDir.components ++
        [.name author, .name project, .name version.text, .name manifestName] := by
  rw [Path.components_join_name _ (by decide) (by decide),
    Path.components_join_name _ version.slash_notMem_text version.isName_text,
    components_packageDir hname, List.append_assoc, List.append_assoc]
  rfl

/-- A manifest that can be reached is below the directory of packages, in the directory of its
version. -/
theorem locate_manifest_of_spells {t : FileTree} {place : Location}
    (h : t.locate (config.packagesDir / author / project / version.text / manifestName) =
      .ok place) :
    ∃ top, t.locate config.packagesDir = .ok top ∧
      place = manifestName :: version.text :: project :: author :: top := by
  have hauthor := hname.author.isEntryName
  have hproject := hname.project.isEntryName
  have hversion := version.isEntryName_text
  have hpackages : config.packagesDir.text ≠ "" :=
    Path.text_join_name_ne_empty _ (by decide : Path.isEntryName "packages" = true)
  obtain ⟨_, hdir₁, -, rfl⟩ := FileTree.exists_of_locate_join_name
    (Path.text_join_name_ne_empty _ hversion) (by decide) h
  obtain ⟨_, hdir₂, -, rfl⟩ := FileTree.exists_of_locate_join_name
    (Path.text_join_name_ne_empty _ hproject) hversion hdir₁
  obtain ⟨_, hdir₃, -, rfl⟩ := FileTree.exists_of_locate_join_name
    (Path.text_join_name_ne_empty _ hauthor) hproject hdir₂
  obtain ⟨top, htop, -, rfl⟩ := FileTree.exists_of_locate_join_name hpackages hauthor hdir₃
  exact ⟨top, htop, rfl⟩

end Spelled

/-- A directory is that of one package only. -/
theorem name_eq_of_samePlace {name' : String} {dir' : Path}
    (hdir : packageDir? config name = some dir) (hdir' : packageDir? config name' = some dir')
    (hsame : dir.SamePlace dir') : name = name' := by
  obtain ⟨author, project, hname, rfl⟩ := packageDir?_eq_some_iff.mp hdir
  obtain ⟨author', project', hname', rfl⟩ := packageDir?_eq_some_iff.mp hdir'
  unfold Path.SamePlace at hsame
  rw [components_packageDir hname, components_packageDir hname'] at hsame
  cases List.append_cancel_left hsame
  rw [hname.joined, hname'.joined]

/-- A manifest is found for one package and one spelling of its version only. -/
theorem name_version_eq_of_samePlace {cache : Cache} {name' : String} {version' : Version}
    {path' : Path} (hfind : cache.find name version = some path)
    (hfind' : cache.find name' version' = some path') (hsame : path.SamePlace path') :
    name = name' ∧ version.text = version'.text := by
  obtain ⟨author, project, hname, rfl, -⟩ := exists_of_find hfind
  obtain ⟨author', project', hname', rfl, -⟩ := exists_of_find hfind'
  unfold Path.SamePlace at hsame
  rw [components_manifest hname, components_manifest hname'] at hsame
  injection List.append_cancel_left hsame with hauthor hrest
  injection hrest with hproject hrest
  injection hrest with hversion
  injection hauthor with hauthor
  injection hproject with hproject
  injection hversion with hversion
  exact ⟨by rw [hname.joined, hname'.joined, hauthor, hproject], hversion⟩

/-- **Paths into a cache stay in it and differ for different packages and versions.**  Exactly the
names of the form `author/project` have a directory.  The steps to it, and to a manifest that is
found, are those to the directory of packages and then a name each for the author, the project, the
version as written and the manifest; the manifest is below the place of the directory of packages.
From the steps the name and the version can be told.  As neither half of a name is a step,
`package_dir` cannot be led out of `packages_dir`. -/
theorem confined (cache : Cache) :
    (∀ name, (packageDir? cache.config name).isSome ↔ name.toList.count '/' = 1 ∧
      ∃ author project, PackageName.Spells name author project) ∧
    (∀ name dir, packageDir? cache.config name = some dir →
      ∃ author project, PackageName.Spells name author project ∧
        dir.components = cache.config.packagesDir.components ++ [.name author, .name project]) ∧
    (∀ name version path, cache.find name version = some path →
      ∃ author project, PackageName.Spells name author project ∧
        path.components = cache.config.packagesDir.components ++
          [.name author, .name project, .name version.text, .name manifestName] ∧
        ∃ top, cache.files.locate cache.config.packagesDir = .ok top ∧
          cache.files.locate path =
            .ok (manifestName :: version.text :: project :: author :: top)) ∧
    (∀ name name' dir dir', packageDir? cache.config name = some dir →
      packageDir? cache.config name' = some dir' → dir.SamePlace dir' → name = name') ∧
    (∀ name name' version version' path path', cache.find name version = some path →
      cache.find name' version' = some path' → path.SamePlace path' →
        name = name' ∧ version.text = version'.text) := by
  refine ⟨?taken, ?directory, ?manifest, fun _ _ _ _ => name_eq_of_samePlace,
    fun _ _ _ _ _ _ => name_version_eq_of_samePlace⟩
  case taken =>
    intro name
    rw [Option.isSome_iff_exists]
    constructor
    · rintro ⟨dir, hdir⟩
      obtain ⟨author, project, hname, -⟩ := packageDir?_eq_some_iff.mp hdir
      exact ⟨hname.count_slash, author, project, hname⟩
    · rintro ⟨-, author, project, hname⟩
      exact ⟨_, packageDir?_eq_some_iff.mpr ⟨author, project, hname, rfl⟩⟩
  case directory =>
    intro name dir hdir
    obtain ⟨author, project, hname, rfl⟩ := packageDir?_eq_some_iff.mp hdir
    exact ⟨author, project, hname, components_packageDir hname cache.config⟩
  case manifest =>
    intro name version path hfind
    obtain ⟨author, project, hname, rfl, hfile⟩ := exists_of_find hfind
    refine ⟨author, project, hname, components_manifest hname cache.config version, ?_⟩
    obtain ⟨place, bytes, hplace, -⟩ := FileTree.mem_entries_of_isFile hfile
    obtain ⟨top, htop, rfl⟩ := locate_manifest_of_spells hname hplace
    exact ⟨top, htop, hplace⟩

end Cache

/-- The later version of the package is found in its directory, and where it is found no other
version of any package is. -/
theorem confined_hollowCache :
    (Cache.packageDir? hollowCache.config "a/leaf").isSome ∧
    hollowCache.find "a/leaf" laterLeafVersion =
      some ⟨"home/0.19.1/packages/a/leaf/1.1.0/elm.json"⟩ ∧
    (∃ author project, PackageName.Spells "a/leaf" author project ∧
      (⟨"home/0.19.1/packages/a/leaf/1.1.0/elm.json"⟩ : Path).components =
        hollowCache.config.packagesDir.components ++
          [.name author, .name project, .name laterLeafVersion.text, .name manifestName] ∧
      ∃ top, hollowCache.files.locate hollowCache.config.packagesDir = .ok top ∧
        hollowCache.files.locate ⟨"home/0.19.1/packages/a/leaf/1.1.0/elm.json"⟩ =
          .ok (manifestName :: laterLeafVersion.text :: project :: author :: top)) ∧
    (∀ name version, hollowCache.find name version =
      some ⟨"home/0.19.1/packages/a/leaf/1.1.0/elm.json"⟩ →
        "a/leaf" = name ∧ laterLeafVersion.text = version.text) := by
  have hfind : hollowCache.find "a/leaf" laterLeafVersion =
      some ⟨"home/0.19.1/packages/a/leaf/1.1.0/elm.json"⟩ := by
    decide +kernel
  obtain ⟨htaken, -, hmanifest, -, hmanifests⟩ := hollowCache.confined
  have hleaf : PackageName.Spells "a/leaf" "a" "leaf" :=
    PackageName.split?_eq_some_iff.mp (by decide)
  exact ⟨(htaken _).mpr ⟨hleaf.count_slash, "a", "leaf", hleaf⟩, hfind, hmanifest _ _ _ hfind,
    fun name version hother => hmanifests _ _ _ _ _ _ hfind hother rfl⟩

end ElmManifest
