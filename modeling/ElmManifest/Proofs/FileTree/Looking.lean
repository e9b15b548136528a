import ElmManifest.FileTree
import ElmManifest.Proofs.Path.Joining
import ElmManifest.Proofs.Path.Segments
import Mathlib.Data.List.Basic
import Mathlib.Tactic.ByContra

/-!
# Looking at a file tree

Where a path leads depends on the segments that say something.  The others ask for a directory at
the place they are met, and so does every segment behind them.  So two spellings of one place lead
to the same location, unless one of them is too long, and a path that goes on behind another one
leads through a directory.

## Main Definitions

* `FileTree.known` — the locations that a tree tells of.

## Main Statements

* `FileTree.locate_of_significant_eq` — two spellings of one place lead to the same location.
* `FileTree.exists_of_locate_join` — what is joined to a path leads through a directory.
* `FileTree.exists_of_locate_join_name` — a name leads one step down.
* `FileTree.contains_iff`, `FileTree.mem_childNames` — what is there, and what is in a directory.
-/

namespace ElmManifest.FileTree

variable {t : FileTree} {p q : Path} {place top : Location} {name : String}

/-! ## Following paths -/

/-- Nothing leads on from a place that is no directory. -/
theorem walk_of_not_directory {place : Location} {segments : List String} (hne : segments ≠ [])
    (h : t.isDirectoryAt place = false) : t.walk place segments = .error .notADirectory := by
  cases segments with
  | nil => exact absurd rfl hne
  | cons segment rest => rw [walk, if_pos h]

/-- Segments that say nothing lead nowhere, if the way goes on behind them: they ask for a directory
at the place they are met, and so does what comes next. -/
theorem walk_significant (place : Location) (front : List String) {back : List String}
    (hback : back ≠ []) :
    t.walk place (Path.significant front ++ back) = t.walk place (front ++ back) := by
  induction front generalizing place with
  | nil => rfl
  | cons segment rest ih =>
    by_cases hdir : t.isDirectoryAt place = false
    · rw [walk_of_not_directory (by simp [hback]) hdir, walk_of_not_directory (by simp) hdir]
    · by_cases hnoise : Path.isNoise segment = true
      · rw [Path.significant_cons_of_noise hnoise, ih, List.cons_append, walk, if_neg hdir,
          if_pos hnoise]
      · rw [Path.significant, List.filter_cons_of_pos (by simp [hnoise]), List.cons_append,
          List.cons_append, walk, walk, ← Path.significant]
        simp only [ih]

/-- Where segments lead, those that say something lead as well. -/
theorem walk_significant_of_ok {segments : List String} (h : t.walk top segments = .ok place) :
    t.walk top (Path.significant segments) = .ok place := by
  induction segments generalizing top with
  | nil => exact h
  | cons segment rest ih =>
    by_cases hdir : t.isDirectoryAt top = false
    · rw [walk_of_not_directory (by simp) hdir] at h
      cases h
    by_cases hnoise : Path.isNoise segment = true
    · rw [walk, if_neg hdir, if_pos hnoise] at h
      rw [Path.significant_cons_of_noise hnoise]
      exact ih h
    · rw [Path.significant, List.filter_cons_of_pos (by simp [hnoise]), ← Path.significant]
      rw [walk, if_neg hdir, if_neg hnoise] at h ⊢
      by_cases hdots : segment = ".."
      · rw [if_pos hdots] at h ⊢
        exact ih h
      · rw [if_neg hdots] at h ⊢
        split at h
        next => cases h
        next hlong =>
          rw [if_neg hlong]
          split at h
          next => cases h
          next => exact ih h

/-- Where segments lead, no name among them is too long. -/
theorem utf8ByteSize_le_of_walk {segments : List String} {segment : String}
    (h : t.walk top segments = .ok place) (hmem : segment ∈ Path.significant segments) :
    segment.utf8ByteSize ≤ maxNameLength := by
  induction segments generalizing top with
  | nil => cases hmem
  | cons first rest ih =>
    rw [walk] at h
    split at h
    next => cases h
    split at h
    next hnoise =>
      rw [Path.significant_cons_of_noise hnoise] at hmem
      exact ih h hmem
    next hnoise =>
      rw [Path.significant, List.filter_cons_of_pos (by simp [hnoise]), List.mem_cons] at hmem
      split at h
      next hdots =>
        rcases hmem with rfl | hmem
        · rw [hdots]
          decide
        · exact ih h hmem
      next =>
        split at h
        next => cases h
        next hshort =>
          split at h
          next => cases h
          next =>
            rcases hmem with rfl | hmem
            · exact Nat.not_lt.mp hshort
            · exact ih h hmem

/-- A path that leads somewhere holds no NUL and leads where its segments lead. -/
theorem locate_eq_ok_iff {p : Path} {place : Location} :
    t.locate p = .ok place ↔ '\x00' ∉ p.text.toList ∧ p.text ≠ "" ∧
      p.text.utf8ByteSize ≤ maxPathLength ∧ t.walk (t.start p) p.segments = .ok place := by
  unfold locate
  by_cases hnul : p.text.toList.contains '\x00' = true
  · rw [if_pos hnul]
    simp_all
  · by_cases hempty : p.text = ""
    · rw [if_neg hnul, if_pos hempty]
      simp_all
    · by_cases hlong : maxPathLength < p.text.utf8ByteSize
      · rw [if_neg hnul, if_neg hempty, if_pos hlong]
        simp [Nat.not_le.mpr hlong]
      · rw [if_neg hnul, if_neg hempty, if_neg hlong]
        simp_all

/-- **Two spellings of one place lead to the same location**, unless the one that ends in a segment
that says something is too long.  A segment that says nothing asks for a directory only, and what
comes behind it asks for the same. -/
theorem locate_of_significant_eq {front : List String} {last : String}
    (hp : p.segments = front ++ [last]) (hlast : Path.isNoise last = false)
    (hmeant : Path.significant p.segments = Path.significant q.segments)
    (hroot : p.isRooted = q.isRooted) (h : t.locate q = .ok place) :
    t.locate p = if maxPathLength < p.text.utf8ByteSize then .error .nameTooLong
      else .ok place := by
  obtain ⟨hnul, -, -, hwalk⟩ := locate_eq_ok_iff.mp h
  have hnul' : ¬ p.text.toList.contains '\x00' = true := by
    rw [List.contains_iff_mem]
    intro hmem
    obtain ⟨segment, hs, hc⟩ := Path.exists_segment_of_mem_text hmem (by decide)
    -- A segment with a NUL in it says something, so the other spelling has it too.
    have hnoise : Path.isNoise segment = false := by
      simp only [Path.isNoise, Bool.or_eq_false_iff, beq_eq_false_iff_ne]
      constructor
      · rintro rfl
        simp at hc
      · rintro rfl
        exact absurd hc (by decide)
    have hkept : segment ∈ Path.significant p.segments :=
      List.mem_filter.mpr ⟨hs, by rw [hnoise]; rfl⟩
    rw [hmeant] at hkept
    exact hnul (Path.mem_text_of_mem_segments (List.mem_of_mem_filter hkept) hc)
  have hne : p.text ≠ "" := by
    intro hempty
    have hone : p.segments = [""] := by simp [Path.segments, hempty, Text.split]
    have heq := congrArg List.getLast? (hone.symm.trans hp)
    rw [List.getLast?_concat] at heq
    cases heq
    exact absurd hlast (by decide)
  have hsegments : Path.significant p.segments = Path.significant front ++ [last] := by
    rw [hp, Path.significant, List.filter_append, List.filter_cons_of_pos (by simp [hlast])]
    rfl
  have hwalk := walk_significant_of_ok hwalk
  rw [← hmeant, hsegments, walk_significant _ _ (by simp), ← hp] at hwalk
  have hstart : t.start p = t.start q := by
    unfold start
    rw [hroot]
  unfold locate
  rw [if_neg hnul', if_neg hne, hstart, hwalk]

/-- **What is joined to a path leads through a directory** at the place that the path leads to. -/
theorem exists_of_locate_join (hne : p.text ≠ "") (hq : q.isRooted = false)
    (h : t.locate (p.join q) = .ok place) :
    ∃ top, t.locate p = .ok top ∧ t.isDirectoryAt top = true ∧
      t.walk top q.segments = .ok place := by
  obtain ⟨hnul, -, hlength, hwalk⟩ := locate_eq_ok_iff.mp h
  obtain ⟨rest, htext⟩ := Path.exists_text_join p hq
  obtain ⟨front, hjoined, hp⟩ := Path.segments_join p hq
  have hstart : t.start (p.join q) = t.start p := by
    unfold start
    rw [Path.isRooted_join p hq]
  rw [hjoined, hstart, walk_append] at hwalk
  cases htop : t.walk (t.start p) front with
  | error fault =>
    rw [htop] at hwalk
    cases hwalk
  | ok top =>
    rw [htop, Except.bind] at hwalk
    have hdir : t.isDirectoryAt top = true := by
      by_contra hdir
      have hsegments : q.segments ≠ [] := by
        simpa [Path.segments] using Text.split_ne_nil '/' q.text.toList
      rw [walk_of_not_directory hsegments (Bool.eq_false_iff.mpr hdir)] at hwalk
      cases hwalk
    refine ⟨top, locate_eq_ok_iff.mpr ⟨fun hmem => hnul ?_, hne, ?_, ?_⟩, hdir, hwalk⟩
    · rw [htext, String.toList_append]
      exact List.mem_append_left _ hmem
    · rw [htext, String.utf8ByteSize_append] at hlength
      omega
    · rcases hp with ⟨hp, -⟩ | hp
      · rw [hp, htop]
      -- The empty segment at the end asks for a directory, and there is one.
      · rw [hp, walk_append, htop, Except.bind, walk, if_neg (by simp [hdir]), if_pos (by decide)]
        rfl

/-- **A name leads one step down** from the place that the path leads to, which is a directory. -/
theorem exists_of_locate_join_name (hne : p.text ≠ "") (hname : Path.isEntryName name = true)
    (h : t.locate (p / name) = .ok place) :
    ∃ top, t.locate p = .ok top ∧ t.isDirectoryAt top = true ∧ place = name :: top := by
  obtain ⟨hplain, hslash⟩ := Path.isEntryName_iff.mp hname
  obtain ⟨top, htop, hdir, hwalk⟩ := exists_of_locate_join hne (Path.isRooted_of_notMem hslash) h
  rw [Path.segments_name hslash] at hwalk
  exact ⟨top, htop, hdir, walk_names (by simpa using hplain) hwalk⟩

/-- A name by itself leads through the working directory. -/
theorem locate_here_of_locate_name (hslash : '/' ∉ name.toList)
    (h : t.locate ⟨name⟩ = .ok place) :
    t.locate ⟨"."⟩ = .ok t.here ∧ t.isDirectoryAt t.here = true ∧
      t.walk t.here [name] = .ok place := by
  obtain ⟨-, -, -, hwalk⟩ := locate_eq_ok_iff.mp h
  rw [start, Path.isRooted_of_notMem hslash, Path.segments_name hslash] at hwalk
  have hwalk : t.walk t.here [name] = .ok place := hwalk
  have hdir : t.isDirectoryAt t.here = true := by
    by_contra hdir
    rw [walk_of_not_directory (by simp) (Bool.eq_false_iff.mpr hdir)] at hwalk
    cases hwalk
  have hhere : t.walk t.here (Path.segments ⟨"."⟩) = .ok t.here := by
    rw [Path.segments_name (by decide), walk, if_neg (by simp [hdir]), if_pos (by decide)]
    rfl
  exact ⟨locate_eq_ok_iff.mpr ⟨by decide, by decide, by decide, hhere⟩, hdir, hwalk⟩

/-! ## Looking -/

/-- What is at a place, for a path that leads there. -/
theorem read_of_locate {p : Path} {place : Location} (h : t.locate p = .ok place) :
    t.read p = match t.nodeAt place with
      | some (.file bytes) => .ok bytes
      | some .directory => .error .isADirectory
      | none => .error .notFound := by
  unfold read
  rw [h]
  simp only [bind, Except.bind]
  cases t.nodeAt place with
  | none => rfl
  | some node => cases node <;> rfl

theorem read_of_locate_error {p : Path} {fault : ReadFault} (h : t.locate p = .error fault) :
    t.read p = .error fault := by
  unfold read
  rw [h]
  rfl

/-- A path is followed to a directory without complaint. -/
theorem walk_ne_isADirectory (place : Location) (segments : List String) :
    t.walk place segments ≠ .error .isADirectory := by
  induction segments generalizing place with
  | nil => simp [walk]
  | cons segment rest ih =>
    unfold walk
    split
    · simp
    · split
      · exact ih place
      · split
        · exact ih place.tail
        · split
          · simp
          · split
            · simp
            · exact ih (segment :: place)

theorem locate_ne_isADirectory (p : Path) : t.locate p ≠ .error .isADirectory := by
  unfold locate
  split
  · nofun
  · split
    · nofun
    · split
      · nofun
      · exact walk_ne_isADirectory _ _

theorem exists_of_contains {p : Path} (h : t.contains p = true) :
    ∃ place node, t.locate p = .ok place ∧ t.nodeAt place = some node := by
  unfold contains at h
  cases hlocate : t.locate p with
  | error fault =>
    rw [read_of_locate_error hlocate] at h
    obtain rfl : fault = .isADirectory := by simpa using h
    exact absurd hlocate (locate_ne_isADirectory p)
  | ok place =>
    rw [read_of_locate hlocate] at h
    cases hnode : t.nodeAt place with
    | none => simp [hnode] at h
    | some node => exact ⟨place, node, rfl, hnode⟩

/-- What can be read is a file where the path leads. -/
theorem read_eq_ok_iff {bytes : ByteArray} : t.read p = .ok bytes ↔
    ∃ place, t.locate p = .ok place ∧ t.nodeAt place = some (.file bytes) := by
  cases hlocate : t.locate p with
  | error fault => simp [read_of_locate_error hlocate]
  | ok place =>
    rw [read_of_locate hlocate]
    cases hnode : t.nodeAt place with
    | none => simp [hnode]
    | some node => cases node <;> simp [hnode]

theorem isFile_iff : t.isFile p = true ↔ ∃ bytes, t.read p = .ok bytes := by
  unfold isFile
  cases t.read p <;> simp

/-- What is contained is anything where the path leads. -/
theorem contains_iff :
    t.contains p = true ↔ ∃ place, t.locate p = .ok place ∧ (t.nodeAt place).isSome := by
  constructor
  · intro h
    obtain ⟨place, node, hlocate, hnode⟩ := exists_of_contains h
    exact ⟨place, hlocate, by simp [hnode]⟩
  · rintro ⟨place, hlocate, hsome⟩
    obtain ⟨node, hnode⟩ := Option.isSome_iff_exists.mp hsome
    unfold contains
    rw [read_of_locate hlocate, hnode]
    cases node <;> rfl

/-! ## Directories -/

/-- The locations that a tree tells of: what has an entry, and the working directory. -/
def known (t : FileTree) : List Location :=
  t.here :: t.entries.map Prod.fst

theorem any_isWithin_iff {places : List Location} :
    places.any (isWithin · place) = true ↔ ∃ other ∈ places, place <:+ other := by
  simp [isWithin]

/-- Something stands at a location that is known, and wherever something is known below. -/
theorem isSome_nodeAt_iff : (t.nodeAt place).isSome ↔ ∃ other ∈ t.known, place <:+ other := by
  unfold nodeAt
  cases hentry : t.entries.lookup place with
  | none =>
    rw [known, ← any_isWithin_iff]
    cases (t.here :: t.entries.map Prod.fst).any (isWithin · place) <;> simp
  | some node =>
    obtain ⟨before, after, hentries, -⟩ := List.lookup_eq_some_iff.mp hentry
    refine iff_of_true rfl ⟨place, List.mem_cons_of_mem _ ?_, List.suffix_rfl⟩
    rw [hentries]
    simp

/-- A location is entered by a name on the way to whatever is at or below the name. -/
theorem nameBelow?_eq_some_iff : nameBelow? top place = some name ↔ name :: top <:+ place := by
  induction place with
  | nil => simp [nameBelow?]
  | cons first rest ih =>
    unfold nameBelow?
    split
    next heq =>
      subst heq
      constructor
      · intro h
        cases h
        exact List.suffix_rfl
      · intro h
        cases h.eq_of_length rfl
        rfl
    next hne =>
      rw [ih, List.suffix_cons_iff]
      refine ⟨.inr, fun h => h.resolve_left fun heq => hne ?_⟩
      cases heq
      rfl

/-- **The entries of a directory** are the names by which something stands directly below it.
Whether it is a file or a directory makes no difference. -/
theorem mem_childNames : name ∈ t.childNames p ↔ Path.isEntryName name = true ∧
    ∃ top, t.locate p = .ok top ∧ t.isDirectoryAt top = true ∧ (t.nodeAt (name :: top)).isSome := by
  unfold childNames
  cases hlocate : t.locate p with
  | error fault => simp
  | ok top =>
    dsimp only
    split
    next hdir =>
      rw [List.mem_filter, NameMap.mem_names_ofList]
      simp [hdir, isSome_nodeAt_iff, known, nameBelow?_eq_some_iff, and_comm]
    next hdir => simp [hdir]

theorem pairwise_childNames (t : FileTree) (p : Path) : (t.childNames p).Pairwise (· < ·) := by
  unfold childNames
  split
  · exact .nil
  · split
    · exact (NameMap.pairwise_names _).filter _
    · exact .nil

theorem isDirectory_iff :
    t.isDirectory p = true ↔ ∃ top, t.locate p = .ok top ∧ t.isDirectoryAt top = true := by
  unfold isDirectory
  cases t.locate p <;> simp

theorem isSome_nodeAt_of_isDirectoryAt (h : t.isDirectoryAt place = true) :
    (t.nodeAt place).isSome := by
  unfold isDirectoryAt at h
  split at h
  next hnode => simp [hnode]
  next => cases h

theorem contains_of_isDirectory (h : t.isDirectory p = true) : t.contains p = true := by
  obtain ⟨top, htop, hdir⟩ := isDirectory_iff.mp h
  exact contains_iff.mpr ⟨top, htop, isSome_nodeAt_of_isDirectoryAt hdir⟩

/-- What is there under the name of an entry is an entry. -/
theorem mem_childNames_of_walk (hname : Path.isEntryName name = true) (htop : t.locate p = .ok top)
    (hdir : t.isDirectoryAt top = true) (hwalk : t.walk top [name] = .ok place)
    (hsome : (t.nodeAt place).isSome) : name ∈ t.childNames p := by
  obtain rfl := walk_names (by simpa using (Path.isEntryName_iff.mp hname).1) hwalk
  exact mem_childNames.mpr ⟨hname, top, htop, hdir, hsome⟩

theorem childNames_of_isDirectory_eq_false (h : t.isDirectory p = false) : t.childNames p = [] := by
  rw [List.eq_nil_iff_forall_not_mem]
  intro name hmem
  obtain ⟨-, top, htop, hdir, -⟩ := mem_childNames.mp hmem
  rw [isDirectory_iff.mpr ⟨top, htop, hdir⟩] at h
  cases h

end ElmManifest.FileTree
