import ElmManifest.Project.Load
import ElmManifest.Proofs.Cache.Confinement
import ElmManifest.Proofs.Path.Ancestors

/-!
# Locating a manifest

A manifest is looked for in the directory at a path, and then in the directories above, which are
spelled with one step less each time.  The one that is found is the nearest, and of the two files
that may stand in one directory it is that of the newer layout.

A step less is the enclosing directory only where the step is a name.  Where it is two dots, the
directory looked into next is the one that the dots lead out of, which lies below.  So a path
without two dots belongs to a manifest in its directory or above it, while a path with two dots may
belong to one that is below it or beside it.

## Main Definitions

* `FileTree.HoldsManifest` — a directory that has a manifest of either layout.
* `manifestPathIn` — the path of the manifest in a directory that has one.
* `FileTree.Governs` — a manifest in the directory that a path leads to, or above it.

## Main Statements

* `findManifest?_eq_some_iff` — the manifest that is found is that in the deepest directory.
* `findManifest?_nearest` — what is found from a path without dots that lead up.
* `FileTree.eq_placeFrom_of_locate` — a path leads to the place that it denotes.
* `findManifest?_governs` — which manifests that are found govern the path.
-/

namespace ElmManifest

/-- A directory that has a manifest: there is a file of the newer layout in it, or of the older
one. -/
def FileTree.HoldsManifest (files : FileTree) (directory : Path) : Prop :=
  files.isFile (directory / manifestName) = true ∨
    files.isFile (directory / legacyManifestName) = true

/-- The path of the manifest in a directory that has one; the newer layout comes first.  It is a
path also where there is no such file. -/
def manifestPathIn (files : FileTree) (directory : Path) : Path :=
  if files.isFile (directory / manifestName) then directory / manifestName
  else directory / legacyManifestName

variable {files : FileTree} {start directory p : Path}

/-! ## The nearest directory -/

theorem manifestIn?_eq_some_iff : manifestIn? files directory = some p ↔
    files.HoldsManifest directory ∧ p = manifestPathIn files directory := by
  unfold manifestIn? FileTree.HoldsManifest manifestPathIn
  cases hnew : files.isFile (directory / manifestName) with
  | true =>
    rw [List.find?_cons_of_pos hnew]
    simp [@eq_comm Path p]
  | false =>
    rw [List.find?_cons_of_neg (by simp [hnew])]
    cases hlegacy : files.isFile (directory / legacyManifestName) with
    | true =>
      rw [List.find?_cons_of_pos hlegacy]
      simp [@eq_comm Path p]
    | false =>
      rw [List.find?_cons_of_neg (by simp [hlegacy])]
      simp

theorem manifestIn?_eq_none_iff :
    manifestIn? files directory = none ↔ ¬ files.HoldsManifest directory := by
  constructor
  · intro hnone hholds
    rw [manifestIn?_eq_some_iff.mpr ⟨hholds, rfl⟩] at hnone
    cases hnone
  · intro hholds
    cases hfind : manifestIn? files directory with
    | none => rfl
    | some p => exact absurd (manifestIn?_eq_some_iff.mp hfind).1 hholds

theorem findManifest?_of_isFile (h : files.isFile start = true) :
    findManifest? files start = some start :=
  if_pos h

/-- From everything else, the directories above are looked into one after the other. -/
theorem findManifest?_of_not_isFile (h : files.isFile start = false) :
    findManifest? files start = start.ancestors.findSome? (manifestIn? files) :=
  if_neg (Bool.eq_false_iff.mp h)

/-- **The manifest that is found is that in the deepest directory** that has one, of all that are
looked into. -/
theorem findManifest?_eq_some_iff (hfile : files.isFile start = false) :
    findManifest? files start = some p ↔
      ∃ directory ∈ start.ancestors, files.HoldsManifest directory ∧
        (∀ other ∈ start.ancestors, directory.components.length < other.components.length →
          ¬ files.HoldsManifest other) ∧
        p = manifestPathIn files directory := by
  rw [findManifest?_of_not_isFile hfile, List.findSome?_eq_some_iff]
  have hpairwise := start.pairwise_ancestors
  constructor
  · rintro ⟨before, directory, after, hsplit, hfound, hbefore⟩
    obtain ⟨hholds, hp⟩ := manifestIn?_eq_some_iff.mp hfound
    rw [hsplit] at hpairwise ⊢
    refine ⟨directory, by simp, hholds, fun other hother hdeeper => ?_, hp⟩
    -- What comes behind the directory takes fewer steps.
    have hafter := (List.pairwise_cons.mp (List.pairwise_append.mp hpairwise).2.1).1
    rcases List.mem_append.mp hother with hmem | hmem
    · exact manifestIn?_eq_none_iff.mp (hbefore other hmem)
    · rcases List.mem_cons.mp hmem with rfl | hmem
      · omega
      · have := (hafter other hmem).2
        omega
  · rintro ⟨directory, hmem, hholds, hdeepest, hp⟩
    obtain ⟨before, after, hsplit⟩ := List.append_of_mem hmem
    rw [hsplit] at hpairwise hdeepest
    refine ⟨before, directory, after, hsplit, manifestIn?_eq_some_iff.mpr ⟨hholds, hp⟩, ?_⟩
    intro other hother
    -- What comes in front of the directory takes more steps.
    have hdeeper := (List.pairwise_append.mp hpairwise).2.2 other hother directory (by simp)
    exact manifestIn?_eq_none_iff.mpr (hdeepest other (by simp [hother]) hdeeper.2)

/-- One is found exactly if one of the directories has one. -/
theorem isSome_findManifest?_iff (hfile : files.isFile start = false) :
    (findManifest? files start).isSome ↔
      ∃ directory ∈ start.ancestors, files.HoldsManifest directory := by
  rw [findManifest?_of_not_isFile hfile, List.findSome?_isSome_iff]
  refine exists_congr fun directory => and_congr_right fun _ => ?_
  rw [Option.isSome_iff_ne_none, ne_eq, manifestIn?_eq_none_iff, not_not]

/-- **From a path without two dots, the nearest manifest is found.**  A file is its own manifest.
From everything else, one is found exactly if a directory among the path and its parents has one,
and what is found is then the manifest in the deepest of these directories, the newer layout first.
The directories take the steps of the path, one less each time, until there are none left or only
the root, and they denote the place of the path and the places above it.  Two dots are left out
because `parent` drops them like a name, and `findManifest?_governs` is about what becomes of
them. -/
theorem findManifest?_nearest (files : FileTree) {start : Path} (hup : .up ∉ start.components) :
    (files.isFile start = true → findManifest? files start = some start) ∧
    (files.isFile start = false →
      ((findManifest? files start).isSome ↔
        ∃ directory ∈ start.ancestors, files.HoldsManifest directory) ∧
      ∀ p, findManifest? files start = some p ↔
        ∃ directory ∈ start.ancestors, files.HoldsManifest directory ∧
          (∀ other ∈ start.ancestors, directory.components.length < other.components.length →
            ¬ files.HoldsManifest other) ∧
          p = manifestPathIn files directory) ∧
    (∀ steps, (∃ directory ∈ start.ancestors, directory.components = steps) ↔
      steps <+: start.components ∧ (start.isRooted = true → steps ≠ [])) ∧
    ∀ directory ∈ start.ancestors,
      directory.placeFrom files.here <:+ start.placeFrom files.here :=
  ⟨findManifest?_of_isFile,
    fun hfile => ⟨isSome_findManifest?_iff hfile, fun _ => findManifest?_eq_some_iff hfile⟩,
    fun _ => Path.exists_mem_ancestors_iff,
    fun _ hmem => Path.placeFrom_suffix_of_mem_ancestors hup hmem files.here⟩

/-- A project of the older layout, with a directory that is called like a manifest of the newer one
in front of it. -/
def nestedFiles : FileTree where
  entries := [(["elm-package.json", "work"], .file "".toUTF8),
    (["elm.json", "a", "work"], .directory), (["b", "a", "work"], .directory)]
  here := ["work"]

/-- The directory that is called like a manifest is none, and the dots and slashes of the path stay
out of the way. -/
theorem findManifest?_nearest_nestedFiles :
    (.up ∉ Path.components ⟨"./a//./b/"⟩) ∧
      nestedFiles.isFile ⟨"./a//./b/"⟩ = false ∧
      findManifest? nestedFiles ⟨"./a//./b/"⟩ = some ⟨"./elm-package.json"⟩ := by
  have hup : .up ∉ Path.components ⟨"./a//./b/"⟩ := by decide +kernel
  have hfile : nestedFiles.isFile ⟨"./a//./b/"⟩ = false := by decide +kernel
  have hancestors : Path.ancestors ⟨"./a//./b/"⟩ = [⟨"./a//./b/"⟩, ⟨"./a"⟩, ⟨"."⟩, ⟨""⟩] := by
    rw [Path.ancestors_of_parent? (q := ⟨"./a"⟩) (by decide +kernel),
      Path.ancestors_of_parent? (q := ⟨"."⟩) (by decide +kernel),
      Path.ancestors_of_parent? (q := ⟨""⟩) (by decide +kernel),
      Path.ancestors_of_parent?_eq_none (by decide +kernel)]
  obtain ⟨-, hsearch, -, -⟩ := findManifest?_nearest nestedFiles hup
  refine ⟨hup, hfile, ((hsearch hfile).2 _).mpr ⟨⟨"."⟩, ?_, .inr ?_, ?_, ?_⟩⟩
  · simp [hancestors]
  · decide +kernel
  · rw [hancestors]
    unfold FileTree.HoldsManifest
    decide +kernel
  · decide +kernel

/-! ## Manifests that govern -/

namespace FileTree

/-- Segments that lead somewhere lead where their steps do. -/
theorem eq_foldl_of_walk {place found : Location} {segments : List String}
    (h : files.walk place segments = .ok found) :
    found = (segments.filterMap Path.component?).foldl Component.apply place := by
  induction segments generalizing place with
  | nil =>
    cases h
    rfl
  | cons segment rest ih =>
    unfold walk at h
    split at h
    · cases h
    split at h
    next hnoise =>
      have hnone : Path.component? segment = none := by simp [Path.component?, Path.isName, hnoise]
      rw [List.filterMap_cons_none hnone]
      exact ih h
    next hnoise =>
      split at h
      next hdots =>
        have hup : Path.component? segment = some .up := by
          rw [hdots]
          decide
        rw [List.filterMap_cons_some hup]
        exact ih h
      next hdots =>
        have hname : Path.component? segment = some (.name segment) :=
          if_pos (by simp [Path.isName, hnoise, hdots])
        rw [List.filterMap_cons_some hname]
        split at h
        · cases h
        split at h
        · cases h
        · exact ih h

/-- **A path leads to the place that it denotes**, if it leads anywhere.  There are no links, so
following the segments and applying the steps come to the same. -/
theorem eq_placeFrom_of_locate {place : Location} (h : files.locate p = .ok place) :
    place = p.placeFrom files.here := by
  obtain ⟨-, -, -, hwalk⟩ := locate_eq_ok_iff.mp h
  have hstart : p.startSteps.foldl Component.apply files.here = files.start p := by
    unfold Path.startSteps FileTree.start
    cases p.isRooted <;> cases p.startsHere <;> rfl
  rw [eq_foldl_of_walk hwalk, Path.placeFrom, Path.components_eq, List.foldl_append, hstart]

/-- A manifest in the directory that a path leads to, or in one above it: the directory of the
manifest, as its path denotes it from the working directory, is at the place of the path or above.
This is what governing means where directories are searched upward. -/
def Governs (files : FileTree) (start p : Path) : Prop :=
  ∃ place, files.locate start = .ok place ∧
    (p.parent?.getD ⟨""⟩).placeFrom files.here <:+ place

theorem isFile_of_isDirectoryAt {place : Location} (hlocate : files.locate p = .ok place)
    (hdir : files.isDirectoryAt place = true) : files.isFile p = false := by
  unfold isDirectoryAt at hdir
  rw [isFile, read_of_locate hlocate]
  cases hnode : files.nodeAt place with
  | none => simp [hnode] at hdir
  | some node =>
    cases node with
    | file bytes => simp [hnode] at hdir
    | directory => rfl

end FileTree

/-- The directory of what stands in a directory by a name is that directory, however it is spelled.
-/
theorem Path.placeFrom_directory_join (directory : Path) {name : String}
    (hslash : '/' ∉ name.toList) (hname : isName name = true) (here : Location) :
    ((directory / name).parent?.getD ⟨""⟩).placeFrom here = directory.placeFrom here := by
  have hjoin := components_join_name directory hslash hname
  cases hparent : (directory / name).parent? with
  | none =>
    have hlast := congrArg List.getLast? (hjoin.symm.trans (parent?_eq_none_iff.mp hparent))
    split at hlast <;> simp at hlast
  | some q =>
    obtain ⟨⟨step, -, hstep⟩, -⟩ := components_of_parent? hparent
    have hsame : q.components = directory.components :=
      (List.append_inj' (hstep.symm.trans hjoin) rfl).1
    rw [Option.getD_some, placeFrom, hsame, ← placeFrom]

theorem placeFrom_directory_manifestPathIn (files : FileTree) (directory : Path)
    (here : Location) :
    ((manifestPathIn files directory).parent?.getD ⟨""⟩).placeFrom here =
      directory.placeFrom here := by
  unfold manifestPathIn
  split
  · exact directory.placeFrom_directory_join (by decide) (by decide) here
  · exact directory.placeFrom_directory_join (by decide) (by decide) here

/-- **Which manifests that are found govern the path.**  What is found from the path of a directory
is the manifest in a directory that is spelled with the first steps of the path.  It governs the
path if the steps behind do not lead above that directory when their dots are folded, and always if
there are no two dots in the path. -/
theorem findManifest?_governs {place : Location} (hlocate : files.locate start = .ok place)
    (hdir : files.isDirectoryAt place = true) (hfind : findManifest? files start = some p) :
    (.up ∉ start.components → files.Governs start p) ∧
    ∃ directory ∈ start.ancestors, ∃ taken,
      files.HoldsManifest directory ∧ p = manifestPathIn files directory ∧
      start.components = directory.components ++ taken ∧
      (.up ∉ taken.foldl (Path.fold false) [] → files.Governs start p) := by
  obtain ⟨directory, hmem, hholds, -, hp⟩ :=
    (findManifest?_eq_some_iff (FileTree.isFile_of_isDirectoryAt hlocate hdir)).mp hfind
  obtain ⟨taken, hroot, hcomponents, hplace⟩ := Path.exists_taken_of_mem_ancestors hmem
  have hgoverns : .up ∉ taken.foldl (Path.fold false) [] → files.Governs start p := by
    intro hup
    refine ⟨place, hlocate, ?_⟩
    rw [hp, placeFrom_directory_manifestPathIn, FileTree.eq_placeFrom_of_locate hlocate, hplace]
    exact Path.suffix_foldl_apply hroot hup _
  refine ⟨fun hup => ?_, directory, hmem, taken, hholds, hp, hcomponents, hgoverns⟩
  rw [hcomponents, List.mem_append, not_or] at hup
  exact hgoverns (Path.up_notMem_foldl_fold hup.2 List.not_mem_nil)

/-- A project in a directory below the working directory, which has no manifest. -/
def lowerFiles : FileTree where
  entries := [(["elm.json", "a", "work"], .file "".toUTF8)]
  here := ["work"]

/-- Where two dots stand in front of the names of the directory they change nothing: what is found
still governs the path. -/
theorem findManifest?_governs_lowerFiles :
    lowerFiles.locate ⟨"../work/a"⟩ = .ok ["a", "work"] ∧
      lowerFiles.isDirectoryAt ["a", "work"] = true ∧
      findManifest? lowerFiles ⟨"../work/a"⟩ = some ⟨"../work/a/elm.json"⟩ ∧
      lowerFiles.Governs ⟨"../work/a"⟩ ⟨"../work/a/elm.json"⟩ := by
  have hlocate : lowerFiles.locate ⟨"../work/a"⟩ = .ok ["a", "work"] :=
    eq_ok_of_toOption (by decide +kernel)
  have hdir : lowerFiles.isDirectoryAt ["a", "work"] = true := by decide +kernel
  have hancestors : Path.ancestors ⟨"../work/a"⟩ =
      [⟨"../work/a"⟩, ⟨"../work"⟩, ⟨".."⟩, ⟨""⟩] := by
    rw [Path.ancestors_of_parent? (q := ⟨"../work"⟩) (by decide +kernel),
      Path.ancestors_of_parent? (q := ⟨".."⟩) (by decide +kernel),
      Path.ancestors_of_parent? (q := ⟨""⟩) (by decide +kernel),
      Path.ancestors_of_parent?_eq_none (by decide +kernel)]
  have hfind : findManifest? lowerFiles ⟨"../work/a"⟩ = some ⟨"../work/a/elm.json"⟩ := by
    rw [findManifest?, hancestors]
    decide +kernel
  obtain ⟨-, directory, hmem, taken, -, hp, hcomponents, hgoverns⟩ :=
    findManifest?_governs hlocate hdir hfind
  have hunique : ∀ other ∈ [⟨"../work/a"⟩, ⟨"../work"⟩, ⟨".."⟩, ⟨""⟩],
      (⟨"../work/a/elm.json"⟩ : Path) = manifestPathIn lowerFiles other →
        other = ⟨"../work/a"⟩ := by
    decide +kernel
  obtain rfl := hunique directory (hancestors ▸ hmem) hp
  obtain rfl : taken = [] := List.self_eq_append_right.mp hcomponents
  exact ⟨hlocate, hdir, hfind, hgoverns (by decide)⟩

/-- The directory that the two dots lead out of lies below the directory of the path, and its
manifest is found. -/
theorem not_governs_lowerFiles :
    lowerFiles.locate ⟨"a/.."⟩ = .ok ["work"] ∧ lowerFiles.isDirectoryAt ["work"] = true ∧
      findManifest? lowerFiles ⟨"a/.."⟩ = some ⟨"a/elm.json"⟩ ∧
      ¬ lowerFiles.Governs ⟨"a/.."⟩ ⟨"a/elm.json"⟩ := by
  have hlocate : lowerFiles.locate ⟨"a/.."⟩ = .ok ["work"] :=
    eq_ok_of_toOption (by decide +kernel)
  refine ⟨hlocate, by decide +kernel, ?_, ?_⟩
  · rw [findManifest?, Path.ancestors_of_parent? (q := ⟨"a"⟩) (by decide +kernel),
      Path.ancestors_of_parent? (q := ⟨""⟩) (by decide +kernel),
      Path.ancestors_of_parent?_eq_none (by decide +kernel)]
    decide +kernel
  · rintro ⟨place, hplace, hsuffix⟩
    cases hlocate.symm.trans hplace
    revert hsuffix
    decide +kernel

end ElmManifest
