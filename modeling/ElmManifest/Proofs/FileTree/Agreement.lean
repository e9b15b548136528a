import ElmManifest.Proofs.Cache.Confinement
import Mathlib.Data.List.Sort

/-!
# Trees that agree but for one file

Two file trees that are the same but for the file at one place look the same to everything that does
not read that file.  A path is followed alike in both, since what is at the place leads nowhere,
whether it is a file or nothing.  So every path that ends in another name reads the same, and a
directory has the same entries, the name of the file aside.  A cache answers alike in both trees if
the file is called by a name that means nothing to it.

## Main Definitions

* `FileTree.AgreeOff` — two trees that are the same but for the file at one place.

## Main Statements

* `FileTree.AgreeOff.locate` — a path that does not lead to the place leads to the same location.
* `FileTree.AgreeOff.read_eq_ok_iff` — a path that ends in another name reads the same.
* `FileTree.AgreeOff.childNames_eq` — a directory has the same entries, the name of the file aside.
* `FileTree.AgreeOff.repository_eq` — a cache answers alike.
-/

namespace ElmManifest

namespace FileTree

/-! ## Trees that agree -/

/-- Two trees that are the same but for the file at one place: there is a file or nothing at the
place in each of them, and nothing below it, and at every other place the same stands.  Directories
on the way to the place are there in both trees or in neither. -/
structure AgreeOff (t u : FileTree) (place : Location) : Prop where
  /-- Relative paths start from the same directory. -/
  here : u.here = t.here
  /-- At every other place the same stands. -/
  nodeAt : ∀ other, other ≠ place → u.nodeAt other = t.nodeAt other
  /-- The place is no directory in the first tree. -/
  left : t.isDirectoryAt place = false
  /-- Neither is it one in the second tree. -/
  right : u.isDirectoryAt place = false
  /-- Nothing stands below it. -/
  below : ∀ name, t.nodeAt (name :: place) = none

/-- A new file in a directory is the only difference. -/
theorem agreeOff_of_new {t : FileTree} {name : String} {top : Location}
    (hnew : t.nodeAt (name :: top) = none) (hdir : (t.nodeAt top).isSome) (bytes : ByteArray) :
    t.AgreeOff { t with entries := (name :: top, .file bytes) :: t.entries } (name :: top) := by
  have hbelow : ∀ below, t.nodeAt (below :: name :: top) = none := by
    intro below
    by_contra hsome
    obtain ⟨known, hknown, hsuffix⟩ := isSome_nodeAt_iff.mp (Option.isSome_iff_ne_none.mpr hsome)
    have := isSome_nodeAt_iff.mpr ⟨known, hknown, (List.suffix_cons ..).trans hsuffix⟩
    simp [hnew] at this
  have hnodeAt : ∀ other, other ≠ name :: top →
      nodeAt { t with entries := (name :: top, .file bytes) :: t.entries } other =
        t.nodeAt other := by
    intro other hne
    have hlookup : List.lookup other ((name :: top, .file bytes) :: t.entries) =
        t.entries.lookup other := by
      rw [List.lookup_cons, beq_false_of_ne hne]
    have hany : (t.here :: (name :: top) :: t.entries.map Prod.fst).any (isWithin · other) =
        (t.here :: t.entries.map Prod.fst).any (isWithin · other) := by
      rw [Bool.eq_iff_iff, any_isWithin_iff, any_isWithin_iff]
      constructor
      · rintro ⟨known, hknown, hsuffix⟩
        by_cases hplace : known = name :: top
        · -- What is above the new file is above what was in the directory.
          subst hplace
          obtain ⟨known, hknown, htop⟩ := isSome_nodeAt_iff.mp hdir
          exact ⟨known, hknown, ((List.suffix_cons_iff.mp hsuffix).resolve_left hne).trans htop⟩
        · exact ⟨known, by simpa [hplace] using hknown, hsuffix⟩
      · rintro ⟨known, hknown, hsuffix⟩
        exact ⟨known, by simp at hknown ⊢; tauto, hsuffix⟩
    unfold nodeAt
    rw [hlookup, List.map_cons, hany]
  refine ⟨rfl, hnodeAt, ?_, ?_, hbelow⟩
  · simp [isDirectoryAt, hnew]
  · simp [isDirectoryAt, FileTree.nodeAt]

namespace AgreeOff

variable {t u v : FileTree} {place found top : Location} {p : Path} {name : String}

theorem symm (h : t.AgreeOff u place) : u.AgreeOff t place where
  here := h.here.symm
  nodeAt other hne := (h.nodeAt other hne).symm
  left := h.right
  right := h.left
  below name := (h.nodeAt _ (List.cons_ne_self name place)).trans (h.below name)

theorem trans (h : t.AgreeOff u place) (h' : u.AgreeOff v place) : t.AgreeOff v place where
  here := h'.here.trans h.here
  nodeAt other hne := (h'.nodeAt other hne).trans (h.nodeAt other hne)
  left := h.left
  right := h'.right
  below := h.below

theorem isDirectoryAt (h : t.AgreeOff u place) (other : Location) :
    u.isDirectoryAt other = t.isDirectoryAt other := by
  by_cases heq : other = place
  · rw [heq, h.left, h.right]
  · unfold FileTree.isDirectoryAt
    rw [h.nodeAt other heq]

/-- Segments that do not lead to the place lead to the same location: the place is no directory, so
the way to another location does not go through it. -/
theorem walk (h : t.AgreeOff u place) (hne : found ≠ place) {start : Location}
    {segments : List String} (hwalk : t.walk start segments = .ok found) :
    u.walk start segments = .ok found := by
  induction segments generalizing start with
  | nil => exact hwalk
  | cons segment rest ih =>
    unfold FileTree.walk at hwalk ⊢
    rw [h.isDirectoryAt]
    split at hwalk
    · cases hwalk
    next hdir =>
      rw [if_neg hdir]
      split at hwalk
      next hnoise => exact (if_pos hnoise).trans (ih hwalk)
      next hnoise =>
        rw [if_neg hnoise]
        split at hwalk
        next hup => exact (if_pos hup).trans (ih hwalk)
        next hup =>
          rw [if_neg hup]
          split at hwalk
          · cases hwalk
          next hlong =>
            rw [if_neg hlong]
            by_cases hplace : segment :: start = place
            · -- The way cannot go on from the place, nor can it end there.
              rw [hplace] at hwalk
              cases rest with
              | nil =>
                split at hwalk
                · cases hwalk
                · cases hwalk
                  exact absurd rfl hne
              | cons next more =>
                rw [walk_of_not_directory (List.cons_ne_nil next more) h.left] at hwalk
                split at hwalk <;> cases hwalk
            · rw [h.nodeAt _ hplace]
              cases hnode : t.nodeAt (segment :: start) with
              | none =>
                rw [hnode] at hwalk
                cases hwalk
              | some node =>
                rw [hnode] at hwalk
                exact ih hwalk

/-- **A path that does not lead to the place leads to the same location.**  Only the last step of a
path can lead to a file, so such a path passes the place by. -/
theorem locate (h : t.AgreeOff u place) (hne : found ≠ place) (hlocate : t.locate p = .ok found) :
    u.locate p = .ok found := by
  obtain ⟨hnul, hempty, hlong, hwalk⟩ := locate_eq_ok_iff.mp hlocate
  have hstart : u.start p = t.start p := by
    unfold start
    rw [h.here]
  exact locate_eq_ok_iff.mpr ⟨hnul, hempty, hlong, hstart ▸ h.walk hne hwalk⟩

/-- A path that ends in another name does not lead to the place. -/
theorem ne_place (h : t.AgreeOff u (name :: top)) (hname : p.fileName? ≠ some name)
    (hlocate : t.locate p = .ok found) : found ≠ name :: top := by
  rintro rfl
  obtain ⟨-, -, -, hwalk⟩ := locate_eq_ok_iff.mp hlocate
  obtain ⟨front, last, hsegments⟩ : ∃ front last, p.segments = front ++ [last] :=
    ⟨_, _, (List.dropLast_append_getLast (List.map_eq_nil_iff.not.mpr
      (Text.split_ne_nil '/' p.text.toList))).symm⟩
  rw [hsegments, walk_append] at hwalk
  cases hfront : t.walk (t.start p) front with
  | error fault =>
    rw [hfront] at hwalk
    cases hwalk
  | ok middle =>
    rw [hfront] at hwalk
    change t.walk middle [last] = .ok (name :: top) at hwalk
    unfold FileTree.walk at hwalk
    split at hwalk
    · cases hwalk
    next hdir =>
      split at hwalk
      next =>
        cases hwalk
        exact hdir h.left
      next hnoise =>
        split at hwalk
        next =>
          -- Two dots lead out of a directory below the place.
          cases middle with
          | nil => cases hwalk
          | cons first rest =>
            cases hwalk
            simp [FileTree.isDirectoryAt, h.below] at hdir
        next hup =>
          have hlast : Path.isName last = true := by simp [Path.isName, hnoise, hup]
          split at hwalk
          · cases hwalk
          · split at hwalk
            · cases hwalk
            · cases hwalk
              exact hname (Path.fileName?_of_segments hsegments hlast)

/-- A path that ends in another name leads to the same location, if it leads anywhere. -/
theorem locate_eq_ok_iff (h : t.AgreeOff u (name :: top)) (hname : p.fileName? ≠ some name) :
    u.locate p = .ok found ↔ t.locate p = .ok found :=
  ⟨fun hlocate => h.symm.locate (h.symm.ne_place hname hlocate) hlocate,
    fun hlocate => h.locate (h.ne_place hname hlocate) hlocate⟩

/-- What stands where a path with another name at its end leads is the same. -/
theorem exists_nodeAt_iff (h : t.AgreeOff u (name :: top)) (hname : p.fileName? ≠ some name)
    (what : Option Node → Prop) : (∃ place, u.locate p = .ok place ∧ what (u.nodeAt place)) ↔
      ∃ place, t.locate p = .ok place ∧ what (t.nodeAt place) := by
  refine exists_congr fun found => ?_
  rw [h.locate_eq_ok_iff hname]
  exact and_congr_right fun hlocate => by rw [h.nodeAt found (h.ne_place hname hlocate)]

/-- **A path that ends in another name reads the same**, if it can be read. -/
theorem read_eq_ok_iff (h : t.AgreeOff u (name :: top)) (hname : p.fileName? ≠ some name)
    {bytes : ByteArray} : u.read p = .ok bytes ↔ t.read p = .ok bytes := by
  rw [FileTree.read_eq_ok_iff, FileTree.read_eq_ok_iff]
  exact h.exists_nodeAt_iff hname (· = some (.file bytes))

/-- What a path with another name at its end leads to is a file in both trees or in none. -/
theorem isFile_eq (h : t.AgreeOff u (name :: top)) (hname : p.fileName? ≠ some name) :
    u.isFile p = t.isFile p := by
  rw [Bool.eq_iff_iff, isFile_iff, isFile_iff]
  exact exists_congr fun bytes => h.read_eq_ok_iff hname

/-- What a path with another name at its end leads to is there in both trees or in none. -/
theorem contains_eq (h : t.AgreeOff u (name :: top)) (hname : p.fileName? ≠ some name) :
    u.contains p = t.contains p := by
  rw [Bool.eq_iff_iff, contains_iff, contains_iff]
  exact h.exists_nodeAt_iff hname (Option.isSome · = true)

/-- **A directory has the same entries**, the name of the file aside.  A file has no entries, so the
place itself is no exception. -/
theorem childNames_eq (h : t.AgreeOff u (name :: top)) (p : Path) :
    (u.childNames p).filter (· != name) = (t.childNames p).filter (· != name) := by
  have hsub : ∀ {t u : FileTree}, t.AgreeOff u (name :: top) → ∀ entry, entry ≠ name →
      entry ∈ t.childNames p → entry ∈ u.childNames p := by
    intro t u h entry hentry hmem
    obtain ⟨hplain, found, hlocate, hdir, hnode⟩ := mem_childNames.mp hmem
    have hfound : found ≠ name :: top := by
      rintro rfl
      rw [h.left] at hdir
      cases hdir
    refine mem_childNames.mpr ⟨hplain, found, h.locate hfound hlocate, ?_, ?_⟩
    · rw [h.isDirectoryAt, hdir]
    · rw [h.nodeAt]
      · exact hnode
      · intro heq
        cases heq
        exact hentry rfl
  refine List.Pairwise.eq_of_mem_iff ((u.pairwise_childNames p).filter _)
    ((t.pairwise_childNames p).filter _) fun entry => ?_
  simp only [List.mem_filter, bne_iff_ne]
  exact and_congr_left fun hentry => ⟨hsub h.symm entry hentry, hsub h entry hentry⟩

/-! ## Caches -/

section Caches

variable (h : t.AgreeOff u (name :: top))
include h

/-- A cache finds the same manifests, if the file is called otherwise. -/
theorem find_eq (hmanifest : name ≠ manifestName) (config : Config) (package : String)
    (version : Version) :
    (Cache.mk config u).find package version = (Cache.mk config t).find package version := by
  unfold Cache.find
  cases hpath : Cache.manifestPath? config package version with
  | none => rfl
  | some path =>
    obtain ⟨dir, -, rfl⟩ := Option.map_eq_some_iff.mp hpath
    rw [Option.filter_some, Option.filter_some, h.isFile_eq]
    rw [Cache.fileName?_manifest]
    exact fun heq => hmanifest (Option.some.inj heq).symm

/-- A cache lists the same versions in both trees, if the file is not called like a version
either. -/
theorem versions_eq (hmanifest : name ≠ manifestName)
    (hversion : (Version.parse name).toOption = none) (config : Config) (package : String) :
    (Cache.mk config u).versions package = (Cache.mk config t).versions package := by
  rw [Cache.versions_eq, Cache.versions_eq]
  dsimp only
  split
  · rfl
  next dir hdir =>
    have hcontains : ∀ entry : String, u.contains (dir / entry / manifestName) =
        t.contains (dir / entry / manifestName) := by
      intro entry
      apply h.contains_eq
      rw [Cache.fileName?_manifest]
      exact fun heq => hmanifest (Option.some.inj heq).symm
    -- The name of the file is no version, so it may be taken out of the entries.
    have hentries : ∀ entries : List String,
        ((entries.filter fun entry => t.contains (dir / entry / manifestName)).filterMap
          fun entry => (Version.parse entry).toOption) =
        ((entries.filter (· != name)).filterMap fun entry =>
          if t.contains (dir / entry / manifestName) then (Version.parse entry).toOption
          else none) := by
      intro entries
      rw [List.filterMap_filter, List.filterMap_filter]
      refine List.filterMap_congr fun entry _ => ?_
      by_cases heq : entry = name <;> simp [heq, hversion]
    simp only [listed, hcontains]
    rw [hentries, hentries, h.childNames_eq]

/-- **A cache answers alike.**  So whoever asks it about packages does not notice the file. -/
theorem repository_eq (hmanifest : name ≠ manifestName)
    (hversion : (Version.parse name).toOption = none) (config : Config) :
    (Cache.mk config u).repository = (Cache.mk config t).repository := by
  rw [Cache.repository, Cache.repository, Repository.mk.injEq]
  constructor
  · funext package version
    exact h.find_eq hmanifest config package version
  · funext package
    exact h.versions_eq hmanifest hversion config package

end Caches

end AgreeOff

end FileTree

end ElmManifest
