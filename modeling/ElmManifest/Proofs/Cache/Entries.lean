import ElmManifest.Proofs.Cache.Matching
import ElmManifest.Proofs.Version.Order

/-!
# Entries of a package's directory

`available_versions` reads the versions of a package off the entries of its directory that have
something called `elm.json` in them.  Entries that differ in their tags alone are one release, and
the set of versions keeps one of them: they are put into it in order, and each takes the place of
the one before, so the last in order stays.  The order is that of the characters, which is that of
the bytes as well.

## Where the entries are

The listing library does what it promises (`Disk.YieldsMatching`), and the pattern is made of a text
for the path.  If the path is a text, then every character of it stands for itself in the pattern,
and what is listed is in the directory of the package.  If it is not, `to_string_lossy` has put
another character in place of what is no text, and the pattern is about another directory.
`find_package_manifest` never makes a text of its path, so it does find what is in the directory.
The two questions that a repository answers then disagree: `found_but_not_listed` is a home
directory in which a manifest is found and nothing is listed.  This is why
`ElmHome.versions_listEntries` speaks of the directory that is shown, and of what is found only
below a home directory that is a text.

Where the library does not keep its promise, there is one more way not to be listed.  A path with an
empty segment right behind the dots in front leads somewhere, but no walk comes to it, so nothing is
listed below it (`Cache.versions_eq_empty`).

## Main Definitions

* `ElmHome.yielded` — the names of the directories in which manifests are listed.

## Main Statements

* `VersionSet.mem_ofList_iff` — of several versions with one release the last is kept.
* `ElmHome.mem_yielded_iff` — the names are those of entries that are there.
* `ElmHome.mem_versions_iff` — a listed version is the last of its release among them.
* `ElmHome.versions_listEntries` — what is listed for a package.
* `found_but_not_listed` — a manifest that is found and whose version is not listed.
* `Cache.versions_eq_empty`, `found_but_not_walked` — a path that no walk comes to.
-/

namespace ElmManifest

/-! ## Sets of versions -/

namespace VersionSet

/-- A version that is put among others takes the place of the one with the same release. -/
theorem mem_insertInto_iff {v u : Version} {members : List Version}
    (h : members.Pairwise fun a b => a.toRelease < b.toRelease) :
    u ∈ insertInto v members ↔ u = v ∨ u ∈ members ∧ ¬ u.SameRelease v := by
  have hdiffers : ∀ {a b : Version}, a.toRelease < b.toRelease → ¬ b.SameRelease a := by
    intro a b hlt hsame
    rw [hsame] at hlt
    exact lt_irrefl _ hlt
  induction members with
  | nil => simp [insertInto]
  | cons w rest ih =>
    obtain ⟨hw, hrest⟩ := List.pairwise_cons.mp h
    unfold insertInto
    split
    next hlt =>
      -- All members come behind the new one.
      have hall : ∀ u ∈ w :: rest, ¬ u.SameRelease v := by
        intro u hu
        rcases List.mem_cons.mp hu with rfl | hu
        · exact hdiffers hlt
        · exact hdiffers (lt_trans hlt (hw u hu))
      rw [List.mem_cons]
      exact or_congr_right ⟨fun hu => ⟨hu, hall u hu⟩, And.left⟩
    next hlt =>
      split
      next hsame =>
        -- The first member goes, and all others come behind the new one.
        have hall : ∀ u ∈ rest, ¬ u.SameRelease v :=
          fun u hu h => hdiffers (hw u hu) (Eq.trans h hsame)
        rw [List.mem_cons, List.mem_cons]
        refine or_congr_right ⟨fun hu => ⟨.inr hu, hall u hu⟩, ?_⟩
        rintro ⟨rfl | hu, hne⟩
        · exact absurd hsame.symm hne
        · exact hu
      next hsame =>
        refine List.mem_cons.trans ((or_congr_right (ih hrest)).trans ?_)
        rw [List.mem_cons]
        constructor
        · rintro (rfl | rfl | ⟨hu, hne⟩)
          · exact .inr ⟨.inl rfl, fun h => hsame h.symm⟩
          · exact .inl rfl
          · exact .inr ⟨.inr hu, hne⟩
        · rintro (rfl | ⟨rfl | hu, hne⟩)
          · exact .inr (.inl rfl)
          · exact .inl rfl
          · exact .inr (.inr ⟨hu, hne⟩)

/-- Versions are put into a set one after the other. -/
theorem mem_ofList_concat {versions : List Version} {v u : Version} :
    u ∈ (ofList (versions ++ [v])).toList ↔
      u = v ∨ u ∈ (ofList versions).toList ∧ ¬ u.SameRelease v := by
  have hconcat : ofList (versions ++ [v]) = (ofList versions).insert v := by
    rw [ofList, List.foldl_append]
    rfl
  rw [hconcat]
  exact mem_insertInto_iff (ofList versions).ascending

/-- **Of several versions with one release the last is kept.**  The versions are put into the set
one by one, and a later one takes the place of an earlier one. -/
theorem mem_ofList_iff {versions : List Version} {v : Version} : v ∈ (ofList versions).toList ↔
    ∃ before after, versions = before ++ v :: after ∧ ∀ w ∈ after, ¬ w.SameRelease v := by
  induction versions using List.reverseRec with
  | nil => simp [ofList, empty]
  | append_singleton versions last ih =>
    rw [mem_ofList_concat, ih]
    constructor
    · rintro (rfl | ⟨⟨before, after, rfl, hafter⟩, hlast⟩)
      · exact ⟨versions, [], rfl, by simp⟩
      · refine ⟨before, after ++ [last], by simp, fun w hw => ?_⟩
        rcases List.mem_append.mp hw with hw | hw
        · exact hafter w hw
        · exact fun h => hlast (List.mem_singleton.mp hw ▸ h.symm)
    · rintro ⟨before, after, hsplit, hafter⟩
      rcases List.eq_nil_or_concat' after with rfl | ⟨after, w, rfl⟩
      · exact .inl (List.singleton_inj.mp (List.append_inj' hsplit rfl).2).symm
      · rw [← List.cons_append, ← List.append_assoc] at hsplit
        obtain ⟨rfl, hw⟩ := List.append_inj' hsplit rfl
        cases hw
        refine .inr ⟨⟨before, after, rfl, fun u hu => hafter u (by simp [hu])⟩, fun h => ?_⟩
        exact hafter last (by simp) h.symm

/-- Of versions in order of their spelling, the last one with a release is kept. -/
theorem mem_ofList_iff_of_pairwise {versions : List Version} {v : Version}
    (h : versions.Pairwise fun a b => a.text < b.text) : v ∈ (ofList versions).toList ↔
      v ∈ versions ∧ ∀ w ∈ versions, w.SameRelease v → w.text ≤ v.text := by
  rw [mem_ofList_iff]
  constructor
  · rintro ⟨before, after, rfl, hafter⟩
    refine ⟨by simp, fun w hw hsame => ?_⟩
    rcases List.mem_append.mp hw with hw | hw
    · have hlt := (List.pairwise_append.mp h).2.2 w hw v (by simp)
      exact String.not_lt.mp (String.lt_asymm hlt)
    · rcases List.mem_cons.mp hw with rfl | hw
      · exact String.le_refl _
      · exact absurd hsame (hafter w hw)
  · rintro ⟨hv, hlast⟩
    obtain ⟨before, after, rfl⟩ := List.append_of_mem hv
    refine ⟨before, after, rfl, fun w hw hsame => ?_⟩
    have hlt := (List.pairwise_cons.mp (List.pairwise_append.mp h).2.1).1 w hw
    exact String.not_lt.mpr (hlast w (by simp [hw]) hsame) hlt

/-- A release is in a set if a version that has been put there has it. -/
theorem exists_mem_ofList_iff {versions : List Version} {release : Release} :
    (∃ v ∈ (ofList versions).toList, v.toRelease = release) ↔
      ∃ v ∈ versions, v.toRelease = release := by
  induction versions using List.reverseRec with
  | nil => simp [ofList, empty]
  | append_singleton versions last ih =>
    constructor
    · rintro ⟨v, hv, rfl⟩
      rcases mem_ofList_concat.mp hv with rfl | ⟨hv, -⟩
      · exact ⟨v, by simp, rfl⟩
      · obtain ⟨w, hw, hsame⟩ := ih.mp ⟨v, hv, rfl⟩
        exact ⟨w, by simp [hw], hsame⟩
    · rintro ⟨v, hv, rfl⟩
      by_cases hlast : v.SameRelease last
      · exact ⟨last, mem_ofList_concat.mpr (.inl rfl), hlast.symm⟩
      · have hv : v ∈ versions := by
          rcases List.mem_append.mp hv with hv | hv
          · exact hv
          · exact absurd (List.mem_singleton.mp hv ▸ rfl) hlast
        obtain ⟨w, hw, hsame⟩ := ih.mpr ⟨v, hv, rfl⟩
        exact ⟨w, mem_ofList_concat.mpr (.inr ⟨hw, fun h => hlast (hsame.symm.trans h)⟩), hsame⟩

end VersionSet

/-! ## What is listed -/

/-- A text is read as the version that is spelled like it. -/
theorem Version.toOption_parse_eq_some_iff {text : String} {v : Version} :
    (parse text).toOption = some v ↔ text = v.text := by
  rw [← parse_eq_ok_iff]
  cases parse text <;> simp [Except.toOption]

namespace ElmHome

variable {home : ElmHome} {disk : Disk} {name entry : String} {v : Version} {dir : OsPath}

/-- The names of the directories in which the manifests of a package are listed. -/
def yielded (home : ElmHome) (disk : Disk) (name : String) : List String :=
  match home.packageDir? name with
  | none => []
  | some dir => (disk.glob (listingPattern dir)).filterMap OsPath.parentName?

/-- The versions are what these names are read as. -/
theorem versions_eq_ofList (home : ElmHome) (disk : Disk) (name : String) :
    home.versions disk name =
      .ofList ((home.yielded disk name).filterMap fun entry => (Version.parse entry).toOption) := by
  unfold versions yielded
  cases home.packageDir? name with
  | none => rfl
  | some dir => simp only [List.filterMap_filterMap]

theorem mem_filterMap_yielded :
    v ∈ (home.yielded disk name).filterMap (fun entry => (Version.parse entry).toOption) ↔
      v.text ∈ home.yielded disk name := by
  simp only [List.mem_filterMap, Version.toOption_parse_eq_some_iff, exists_eq_right]

/-- A release is listed if one of the names is a version of it. -/
theorem exists_mem_versions_iff {release : Release} :
    (∃ v ∈ (home.versions disk name).toList, v.toRelease = release) ↔
      ∃ v : Version, v.text ∈ home.yielded disk name ∧ v.toRelease = release := by
  simp only [versions_eq_ofList, VersionSet.exists_mem_ofList_iff, mem_filterMap_yielded]

/-- The path of a package's directory is not empty: it ends in a name. -/
theorem bytes_ne_nil_of_packageDir? (h : home.packageDir? name = some dir) : dir.bytes ≠ [] := by
  obtain ⟨⟨author, project⟩, hsplit, rfl⟩ := Option.map_eq_some_iff.mp h
  have hhalf := (PackageName.isHalf_of_split? hsplit).2
  have hproject : Path.isEntryName project = true := Path.isEntryName_iff.mpr
    ⟨PackageName.isName_of_isHalf hhalf, PackageName.slash_notMem_of_isHalf hhalf⟩
  intro hempty
  have hsteps := OsPath.steps_join hproject (home.packagesDir / author)
  rw [OsPath.steps, hempty] at hsteps
  exact absurd hsteps (by simp [Text.split])

section Promise

variable (hdir : home.packageDir? name = some dir)
  (hyields : disk.YieldsMatching (listingPattern dir))
include hdir hyields

/-- What is listed is the manifest in an entry of the directory that is shown. -/
theorem exists_of_mem_glob {path : OsPath} (h : path ∈ disk.glob (listingPattern dir)) :
    ∃ entry, path.parentName? = some entry ∧ disk.HasEntry dir.shown entry ∧
      path.steps = dir.shown.steps ++ [utf8Bytes entry, utf8Bytes manifestName] := by
  obtain ⟨hcontains, hmatches⟩ := hyields.sound path h
  obtain ⟨hroot, entry, hentry, hsteps⟩ :=
    (matches_listingPattern_iff (bytes_ne_nil_of_packageDir? hdir)).mp hmatches
  refine ⟨entry, OsPath.parentName?_of_steps hsteps ?_, ⟨path, hroot, hsteps, hcontains⟩, hsteps⟩
  rintro rfl
  exact absurd hentry (by decide)

/-- **The names that are yielded** are those of the entries that have something called `elm.json` in
them. -/
theorem mem_yielded_iff (hentry : Path.isEntryName entry = true) :
    entry ∈ home.yielded disk name ↔ disk.HasEntry dir.shown entry := by
  simp only [yielded, hdir, List.mem_filterMap]
  constructor
  · rintro ⟨path, hpath, hparent⟩
    obtain ⟨entry', hparent', hthere, -⟩ := exists_of_mem_glob hdir hyields hpath
    cases hparent.symm.trans hparent'
    exact hthere
  · rintro ⟨path, hroot, hsteps, hcontains⟩
    have hmatches := (matches_listingPattern_iff (bytes_ne_nil_of_packageDir? hdir)).mpr
      ⟨hroot, entry, hentry, hsteps⟩
    obtain ⟨found, hfound, hspelled⟩ := hyields.complete path hcontains hmatches
    refine ⟨found, hfound, OsPath.parentName?_of_steps (hspelled.trans hsteps) ?_⟩
    rintro rfl
    exact absurd hentry (by decide)

/-- The names that are yielded come in order: the paths are in order of what they go through, and
they differ in the entry alone. -/
theorem pairwise_yielded : (home.yielded disk name).Pairwise (· < ·) := by
  simp only [yielded, hdir]
  refine List.Pairwise.filterMap _ ?_ (hyields.ordered.imp_of_mem (S := fun path path' =>
    ∀ entry, path.parentName? = some entry → ∀ entry', path'.parentName? = some entry' →
      entry < entry') ?_)
  · exact fun _ _ h entry hentry entry' hentry' => h entry hentry entry' hentry'
  intro path path' hpath hpath' hlt entry hparent entry' hparent'
  obtain ⟨e, he, -, hsteps⟩ := exists_of_mem_glob hdir hyields hpath
  obtain ⟨e', he', -, hsteps'⟩ := exists_of_mem_glob hdir hyields hpath'
  cases hparent.symm.trans he
  cases hparent'.symm.trans he'
  rw [hsteps, hsteps'] at hlt
  obtain h | rfl | h := lt_trichotomy entry entry'
  · exact h
  · exact absurd hlt (List.lt_irrefl _)
  · exact absurd (List.lt_trans hlt (steps_manifest_lt h)) (List.lt_irrefl _)

/-- **A listed version is the last of its release** among the names that are yielded.  The list of
names is in order, so the last is the greatest of them as text. -/
theorem mem_versions_iff : v ∈ (home.versions disk name).toList ↔
    v.text ∈ home.yielded disk name ∧ ∀ w : Version, w.text ∈ home.yielded disk name →
      w.SameRelease v → w.text ≤ v.text := by
  have hordered : ((home.yielded disk name).filterMap fun entry =>
      (Version.parse entry).toOption).Pairwise fun a b => a.text < b.text := by
    refine (pairwise_yielded hdir hyields).filterMap _ fun entry other hlt a ha b hb => ?_
    rwa [← Version.toOption_parse_eq_some_iff.mp ha, ← Version.toOption_parse_eq_some_iff.mp hb]
  rw [versions_eq_ofList, VersionSet.mem_ofList_iff_of_pairwise hordered]
  simp only [mem_filterMap_yielded]

end Promise

/-- A version that is found has an entry in the directory of the package. -/
theorem hasEntry_of_find {path : OsPath} (hdir : home.packageDir? name = some dir)
    (h : home.find disk name v = some path) : disk.HasEntry dir v.text := by
  obtain ⟨hpath, hfile⟩ := Option.filter_eq_some_iff.mp h
  rw [hdir, Option.map_some, Option.some.injEq] at hpath
  subst hpath
  have hentry := v.isEntryName_text
  exact ⟨_, OsPath.isRooted_manifest dir hentry, Cache.steps_manifest dir hentry,
    disk.contains_of_isFile _ hfile⟩

/-- Below a home directory that is a text, every directory is shown as it is. -/
theorem shown_of_packageDir? (hdir : home.packageDir? name = some dir)
    (htext : home.path.toPath?.isSome) : dir.shown = dir := by
  obtain ⟨q, hq⟩ := Option.isSome_iff_exists.mp htext
  obtain ⟨path, compiler⟩ := home
  obtain rfl := OsPath.eq_ofPath hq
  rw [Cache.packageDir?_ofPath ⟨q, compiler⟩] at hdir
  obtain ⟨p, -, rfl⟩ := Option.map_eq_some_iff.mp hdir
  exact OsPath.shown_ofPath p

/-- **What is listed for a package** is strictly ascending by release.  Where the listing library
does what it promises for the pattern of the package, a release is listed exactly if an entry of the
directory with something called `elm.json` in it is a version of this release, and the version that
is listed is the last of these entries, byte by byte.

The directory is the one that the pattern shows.  Below a home directory that is a text, whatever
characters it is spelled with, this is the directory of the package, so every version that is found
is of a release that is listed.  Below any other home directory it is not, and
`found_but_not_listed` is such a case: `available_versions` makes a text of the path, while
`find_package_manifest` takes the path as it is. -/
theorem versions_listEntries (home : ElmHome) (disk : Disk) (name : String) :
    ((home.versions disk name).toList.Pairwise fun a b => a.toRelease < b.toRelease) ∧
    ∀ dir, home.packageDir? name = some dir → disk.YieldsMatching (listingPattern dir) →
      (∀ release, (∃ v ∈ (home.versions disk name).toList, v.toRelease = release) ↔
        ∃ entry v, disk.HasEntry dir.shown entry ∧ Version.parse entry = .ok v ∧
          v.toRelease = release) ∧
      (∀ v ∈ (home.versions disk name).toList,
        ∃ entry, disk.HasEntry dir.shown entry ∧ Version.parse entry = .ok v ∧
          ∀ other w, disk.HasEntry dir.shown other → Version.parse other = .ok w →
            w.SameRelease v → utf8Bytes other ≤ utf8Bytes entry) ∧
      (home.path.toPath?.isSome → dir.shown = dir ∧
        ∀ v path, home.find disk name v = some path →
          ∃ w ∈ (home.versions disk name).toList, w.SameRelease v) := by
  refine ⟨(home.versions disk name).ascending, fun dir hdir hyields => ?_⟩
  have hmem (v : Version) : v.text ∈ home.yielded disk name ↔ disk.HasEntry dir.shown v.text :=
    mem_yielded_iff hdir hyields v.isEntryName_text
  refine ⟨?listed, ?last, fun htext => ?text⟩
  case listed =>
    intro release
    rw [exists_mem_versions_iff]
    constructor
    · rintro ⟨v, hv, hrelease⟩
      exact ⟨v.text, v, (hmem v).mp hv, Version.parse_eq_ok_iff.mpr rfl, hrelease⟩
    · rintro ⟨entry, v, hentry, hparse, hrelease⟩
      obtain rfl := Version.parse_eq_ok_iff.mp hparse
      exact ⟨v, (hmem v).mpr hentry, hrelease⟩
  case last =>
    intro v hv
    obtain ⟨hyielded, hlast⟩ := (mem_versions_iff hdir hyields).mp hv
    refine ⟨v.text, (hmem v).mp hyielded, Version.parse_eq_ok_iff.mpr rfl,
      fun other w hother hw hsame => ?_⟩
    obtain rfl := Version.parse_eq_ok_iff.mp hw
    -- The names come in the order of their characters, which is that of their bytes.
    have hle := hlast w ((hmem w).mpr hother) hsame
    exact fun hlt => String.not_lt.mpr hle (utf8Bytes_lt_iff.mp hlt)
  case text =>
    -- A path that is a text is shown as it is, so what is found is an entry of the directory that
    -- is listed.
    have hshown := shown_of_packageDir? hdir htext
    refine ⟨hshown, fun v path hfind => ?_⟩
    have hentry := hasEntry_of_find hdir hfind
    rw [← hshown] at hentry
    exact exists_mem_versions_iff.mpr ⟨v, (hmem v).mpr hentry, rfl⟩

end ElmHome

/-! ## A home directory that is spelled like a pattern -/

/-- A cache whose path is spelled with the characters of a pattern, with one release of a package
that is tagged and one that is not. -/
def taggedCache : Cache where
  config := ⟨⟨"h[1]*?"⟩, .ofNumbers 0 19 1⟩
  files := ⟨[(["elm.json", "1.0.0", "leaf", "a", "packages", "0.19.1", "h[1]*?"],
      .file "".toUTF8),
    (["elm.json", "1.0.0-beta", "leaf", "a", "packages", "0.19.1", "h[1]*?"],
      .file "".toUTF8)], []⟩

/-- The directory of the package, as it is spelled and as the listing walks to it. -/
def taggedDir : Path := ⟨"h[1]*?/0.19.1/packages/a/leaf"⟩

/-- Below a home directory that is spelled with the characters of a pattern, the release is listed
once, with the tag that comes last among the names of its entries, and the manifest is found without
a tag. -/
theorem versions_listEntries_taggedCache :
    taggedCache.home.packageDir? "a/leaf" = some (.ofPath taggedDir) ∧
    taggedCache.files.disk.YieldsMatching (ElmHome.listingPattern (.ofPath taggedDir)) ∧
    taggedCache.home.path.toPath?.isSome ∧
    taggedCache.home.find taggedCache.files.disk "a/leaf" leafVersion =
      some (.ofPath ⟨"h[1]*?/0.19.1/packages/a/leaf/1.0.0/elm.json"⟩) ∧
    (∃ v ∈ (taggedCache.versions "a/leaf").toList, v.SameRelease leafVersion) ∧
    ∀ v ∈ (taggedCache.versions "a/leaf").toList, v.SameRelease leafVersion →
      utf8Bytes "1.0.0-beta" ≤ utf8Bytes v.text := by
  have hdir : Cache.packageDir? taggedCache.config "a/leaf" = some taggedDir := by decide +kernel
  have hhome : taggedCache.home.packageDir? "a/leaf" = some (.ofPath taggedDir) := by
    rw [Cache.home, Cache.packageDir?_ofPath, hdir, Option.map_some]
  have hyields :
      taggedCache.files.disk.YieldsMatching (ElmHome.listingPattern (.ofPath taggedDir)) :=
    taggedCache.files.yieldsMatching hdir (by decide +kernel : taggedDir.walked? = some taggedDir)
      fun _ hentry => short_of_hasEntry hentry (by decide)
  have htext : taggedCache.home.path.toPath?.isSome := by
    rw [Cache.home, OsPath.toPath?_ofPath, Option.isSome_some]
  have hfind : taggedCache.home.find taggedCache.files.disk "a/leaf" leafVersion =
      some (.ofPath ⟨"h[1]*?/0.19.1/packages/a/leaf/1.0.0/elm.json"⟩) := by
    decide +kernel
  obtain ⟨-, hlisted⟩ := taggedCache.home.versions_listEntries taggedCache.files.disk "a/leaf"
  obtain ⟨-, hlast, hshown⟩ := hlisted _ hhome hyields
  obtain ⟨-, hfound⟩ := hshown htext
  refine ⟨hhome, hyields, htext, hfind, hfound _ _ hfind, fun v hv hsame => ?_⟩
  have hread : (Version.parse "1.0.0-beta").toOption.map Version.toRelease =
      some leafVersion.toRelease := by
    decide +kernel
  obtain ⟨beta, hbeta, hrelease⟩ := Option.map_eq_some_iff.mp hread
  obtain ⟨entry, -, hparse, hentries⟩ := hlast v hv
  obtain rfl := Version.parse_eq_ok_iff.mp hparse
  have hentry : taggedCache.files.disk.HasEntry (OsPath.ofPath taggedDir).shown "1.0.0-beta" := by
    refine ⟨.ofPath (taggedDir / "1.0.0-beta" / manifestName), ?_, ?_, by decide +kernel⟩
    · rw [OsPath.shown_ofPath]
      decide +kernel
    · rw [OsPath.shown_ofPath]
      decide +kernel
  exact hentries _ _ hentry (eq_ok_of_toOption hbeta) (Eq.trans hrelease (Eq.symm hsame))

/-! ## A home directory that is no text -/

/-- A home directory with a byte in its name that stands in no text. -/
def strayHome : ElmHome where
  path := ⟨utf8Bytes "/tmp/" ++ [0xFF]⟩
  compiler := .ofNumbers 0 19 1

/-- The directory of the package below it. -/
def strayDir : OsPath := strayHome.packagesDir / "a" / "leaf"

/-- The manifest in this directory. -/
def strayManifest : OsPath := strayDir / "1.0.0" / manifestName

/-- A disk with the manifest on it, with nothing but the directories on the way to it, and with a
listing library that finds the manifest by every pattern that it matches.  The library is as the
promise wants it: it looks at every path that there is. -/
def strayDisk : Disk where
  contains path := path.isRooted && path.steps.isPrefixOf strayManifest.steps
  isFile path := path.isRooted && path.steps == strayManifest.steps
  contains_of_isFile path h := by
    simp only [Bool.and_eq_true, beq_iff_eq] at h ⊢
    exact ⟨h.1, by simp [h.2]⟩
  glob pattern := [strayManifest].filter (Pattern.matchesPath pattern)

theorem mem_glob_strayDisk {pattern : String} {path : OsPath} : path ∈ strayDisk.glob pattern ↔
    path = strayManifest ∧ Pattern.matchesPath pattern path = true := by
  simp only [strayDisk, List.mem_filter, List.mem_singleton]

/-- The library does what it promises, for whatever directory the versions are listed. -/
theorem yieldsMatching_strayDisk {dir : OsPath} (hdir : dir.bytes ≠ []) :
    strayDisk.YieldsMatching (ElmHome.listingPattern dir) := by
  have hrooted : strayManifest.isRooted = true := by decide +kernel
  -- Only the whole way to the manifest ends in the name of a manifest.
  have hwhole : ∀ way ∈ strayManifest.steps.inits,
      way.getLast? = some (utf8Bytes manifestName) → way = strayManifest.steps := by
    decide +kernel
  constructor
  case sound =>
    intro path hpath
    obtain ⟨rfl, hmatches⟩ := mem_glob_strayDisk.mp hpath
    exact ⟨by decide +kernel, hmatches⟩
  case complete =>
    intro path hcontains hmatches
    simp only [strayDisk, Bool.and_eq_true, List.isPrefixOf_iff_prefix] at hcontains
    obtain ⟨-, entry, -, hsteps⟩ := (matches_listingPattern_iff hdir).mp hmatches
    have hspelled : path.steps = strayManifest.steps :=
      hwhole _ ((List.mem_inits ..).mpr hcontains.2) (by simp [hsteps])
    rw [Pattern.matchesPath_congr (hcontains.1.trans hrooted.symm) hspelled] at hmatches
    exact ⟨strayManifest, mem_glob_strayDisk.mpr ⟨rfl, hmatches⟩, hspelled.symm⟩
  case ordered =>
    simp only [strayDisk]
    exact (List.pairwise_singleton ..).filter _

/-- **A manifest is found and its version is not listed**, although the library does all that it
promises: the home directory is no text, so its versions are listed in another directory. -/
theorem found_but_not_listed :
    strayHome.packageDir? "a/leaf" = some strayDir ∧
    strayDisk.YieldsMatching (ElmHome.listingPattern strayDir) ∧
    strayDisk.HasEntry strayDir "1.0.0" ∧
    Version.parse "1.0.0" = .ok leafVersion ∧
    strayHome.find strayDisk "a/leaf" leafVersion = some strayManifest ∧
    (strayHome.versions strayDisk "a/leaf").toList = [] := by
  refine ⟨by decide +kernel, yieldsMatching_strayDisk (by decide +kernel),
    ⟨strayManifest, by decide +kernel, by decide +kernel, by decide +kernel⟩, ?_,
    by decide +kernel, by decide +kernel⟩
  exact Version.parse_eq_ok_iff.mpr (by decide +kernel)

/-! ## A home directory that no walk comes to -/

/-- Nothing is listed in a cache whose path has an empty segment right behind the dots in front of
it.  There a text is not enough: the pattern spells the path, and the library does not go where the
path leads. -/
theorem Cache.versions_eq_empty {cache : Cache} {name : String} {dir : Path}
    (hdir : packageDir? cache.config name = some dir) (hwalked : dir.walked? = none) :
    cache.versions name = .empty := by
  rw [versions_eq, hdir, Option.bind_some, hwalked]

/-- A cache whose path has an empty segment behind the dot in front of it. -/
def slashedCache : Cache where
  config := ⟨⟨".//home"⟩, .ofNumbers 0 19 1⟩
  files := ⟨[(["elm.json", "1.0.0", "leaf", "a", "packages", "0.19.1", "home"],
    .file "".toUTF8)], []⟩

/-- The path leads to the manifest, and nothing is listed, although every name on the way is a text:
`find_package_manifest` hands the path to the operating system, which passes over the empty segment.
-/
theorem found_but_not_walked :
    slashedCache.find "a/leaf" leafVersion =
      some ⟨".//home/0.19.1/packages/a/leaf/1.0.0/elm.json"⟩ ∧
    slashedCache.versions "a/leaf" = .empty := by
  have hdir : Cache.packageDir? slashedCache.config "a/leaf" =
      some ⟨".//home/0.19.1/packages/a/leaf"⟩ := by
    decide +kernel
  exact ⟨by decide +kernel, Cache.versions_eq_empty hdir (by decide +kernel)⟩

end ElmManifest
