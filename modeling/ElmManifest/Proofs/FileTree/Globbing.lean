import ElmManifest.Glob
import ElmManifest.Manifest.Basic
import ElmManifest.Proofs.FileTree.Looking
import ElmManifest.Proofs.Path.Walking
import ElmManifest.Proofs.Text.Escaping

/-!
# Listing below an escaped path

An escaped path is a pattern that leads the walk of the listing where the path leads.  Each of its
pieces takes one name only, the segment it has been made of.  A piece with nothing special in it is
entered at once, and any other one is looked for among the entries of the directory.  Either way the
walk goes on by this name if the way behind it can lead anywhere.

## Main Definitions

* `FileTree.listed` — the entries of a directory that have something called `elm.json` in them.

## Main Statements

* `FileTree.mem_listed_iff` — what is listed in a directory.
* `FileTree.globStep_plain` — one piece of an escaped path.
* `FileTree.globFrom_plain` — the pieces of an escaped path.
* `FileTree.glob_escape` — the manifests that are listed below an escaped path.
-/

namespace ElmManifest.FileTree

variable {t : FileTree} {p : Path} {segment : String} {segments : List String}
  {patterns : List Pattern}

/-- The entries of a directory that have something called `elm.json` in them. -/
def listed (t : FileTree) (p : Path) : List String :=
  (t.childNames p).filter fun entry => t.contains (p / entry / manifestName)

/-- An entry is listed if something called `elm.json` is in it. -/
theorem mem_listed_iff (hne : p.text ≠ "") (hentry : Path.isEntryName segment = true) :
    segment ∈ t.listed p ↔ t.contains (p / segment / manifestName) = true := by
  refine List.mem_filter.trans ⟨And.right, fun h => ⟨?_, h⟩⟩
  obtain ⟨place, hplace, -⟩ := contains_iff.mp h
  obtain ⟨inner, hinner, hdir, -⟩ :=
    exists_of_locate_join_name (p.text_join_name_ne_empty hentry) (by decide) hplace
  obtain ⟨top, htop, hdir', rfl⟩ := exists_of_locate_join_name hne hentry hinner
  exact mem_childNames.mpr ⟨hentry, top, htop, hdir', isSome_nodeAt_of_isDirectoryAt hdir⟩

/-! ## Going on by a name -/

theorem enter_of_text_ne (h : p.text ≠ ".") (segment : String) : enter p segment = p / segment :=
  if_neg h

/-- Behind a path, nothing is spelled like the working directory. -/
theorem text_join_ne (hne : p.text ≠ "") (hslash : '/' ∉ segment.toList) :
    (p / segment).text ≠ "" ∧ (p / segment).text ≠ "." := by
  have hmem : '/' ∈ (p / segment).text.toList := by
    change '/' ∈ (p.join ⟨segment⟩).text.toList
    unfold Path.join
    rw [if_neg (by simp [Path.isRooted_of_notMem hslash])]
    split
    next hend =>
      rw [String.toList_append, List.mem_append]
      exact .inl (List.mem_of_mem_getLast? (hend.resolve_left hne))
    next => simp [String.toList_append]
  constructor <;> intro heq <;> rw [heq] at hmem <;> exact absurd hmem (by decide)

/-- What is entered from a path leads through a directory at the place that the path leads to. -/
theorem exists_of_locate_enter (hne : p.text ≠ "") (hslash : '/' ∉ segment.toList)
    {place : Location} (h : t.locate (enter p segment) = .ok place) :
    ∃ top, t.locate p = .ok top ∧ t.isDirectoryAt top = true ∧
      t.walk top [segment] = .ok place := by
  unfold enter at h
  split at h
  next hdot =>
    obtain rfl : p = ⟨"."⟩ := by rw [← hdot]
    exact ⟨t.here, locate_here_of_locate_name hslash h⟩
  next =>
    rw [← Path.segments_name hslash]
    exact exists_of_locate_join hne (Path.isRooted_of_notMem hslash) h

/-- What is entered from a path is a directory only if the path leads to one. -/
theorem isDirectory_of_isDirectory_enter (hne : p.text ≠ "") (hslash : '/' ∉ segment.toList)
    (h : t.isDirectory (enter p segment) = true) : t.isDirectory p = true := by
  obtain ⟨place, hplace, -⟩ := isDirectory_iff.mp h
  obtain ⟨top, htop, hdir, -⟩ := exists_of_locate_enter hne hslash hplace
  exact isDirectory_iff.mpr ⟨top, htop, hdir⟩

/-- What is there under the name of an entry is an entry. -/
theorem mem_childNames_of_contains (hne : p.text ≠ "") (hname : Path.isEntryName segment = true)
    (h : t.contains (enter p segment) = true) : segment ∈ t.childNames p := by
  obtain ⟨place, hplace, hsome⟩ := contains_iff.mp h
  obtain ⟨top, htop, hdir, hwalk⟩ :=
    exists_of_locate_enter hne (Path.isEntryName_iff.mp hname).2 hplace
  exact mem_childNames_of_walk hname htop hdir hwalk hsome

/-! ## Pieces of an escaped path -/

/-- A segment with something special in it is the name of an entry. -/
theorem isEntryName_of_isSpecial (hslash : '/' ∉ segment.toList)
    (hspecial : segment.toList.any Pattern.isSpecial = true) :
    Path.isEntryName segment = true := by
  have hne : ∀ plain : String, plain.toList.any Pattern.isSpecial = false → segment ≠ plain := by
    rintro plain hplain rfl
    rw [hspecial] at hplain
    cases hplain
  simp [Path.isEntryName, Path.isName, Path.isNoise, hslash, hne "" (by decide),
    hne "." (by decide), hne ".." (by decide)]

/-- **One piece of an escaped path** leads to its segment, unless the way behind it leads nowhere.
In the first case the walk looks for the name among entries, and in the second it asks whether there
is something of that name. -/
theorem globStep_plain (t : FileTree) (hne : p.text ≠ "") (hslash : '/' ∉ segment.toList) :
    t.globStep p (segment.toList.map .plain) = [enter p segment] ∨
      t.globStep p (segment.toList.map .plain) = [] ∧ t.isDirectory (enter p segment) = false := by
  unfold globStep
  rw [Pattern.literal?_plain]
  cases hspecial : segment.toList.any Pattern.isSpecial with
  | true =>
    -- An escaped name is looked for among the entries, where it stands once at most.
    have htakes : (t.childNames p).filter (Pattern.takes (segment.toList.map .plain)) =
        (t.childNames p).filter (· == segment) := by
      apply List.filter_congr
      intro name _
      rw [Bool.eq_iff_iff, Pattern.takes_plain_iff, beq_iff_eq]
    have hnodup : (t.childNames p).Nodup := (t.pairwise_childNames p).imp String.ne_of_lt
    simp only [if_true, htakes, List.filter_beq, hnodup.count]
    by_cases hmem : segment ∈ t.childNames p
    · refine .inl ?_
      rw [if_pos hmem]
      rfl
    · refine .inr ⟨?_, ?_⟩
      · rw [if_neg hmem]
        rfl
      · by_contra hdir
        exact hmem (mem_childNames_of_contains hne (isEntryName_of_isSpecial hslash hspecial)
          (contains_of_isDirectory (by simpa using hdir)))
  | false =>
    simp only [Bool.false_eq_true, if_false]
    -- A name without anything special is asked for as it stands.
    cases hadmits : t.admits p segment with
    | true => exact .inl rfl
    | false =>
      refine .inr ⟨rfl, ?_⟩
      by_contra hdir
      have hdir : t.isDirectory (enter p segment) = true := by simpa using hdir
      unfold admits at hadmits
      split at hadmits
      · rw [isDirectory_of_isDirectory_enter hne hslash hdir] at hadmits
        cases hadmits
      · rw [contains_of_isDirectory hdir] at hadmits
        cases hadmits

/-- What is behind a path that leads to no directory is no directory. -/
theorem isDirectory_joinAll_eq_false (hne : p.text ≠ "") (hdot : p.text ≠ ".")
    (hslash : ∀ segment ∈ segments, '/' ∉ segment.toList) (h : t.isDirectory p = false) :
    t.isDirectory (p.joinAll segments) = false := by
  induction segments generalizing p with
  | nil => exact h
  | cons segment rest ih =>
    have hsegment := hslash segment (List.mem_cons_self ..)
    obtain ⟨hne', hdot'⟩ := text_join_ne hne hsegment
    refine ih hne' hdot' (fun s hs => hslash s (List.mem_cons_of_mem _ hs)) ?_
    rw [← enter_of_text_ne hdot]
    by_contra hdir
    rw [isDirectory_of_isDirectory_enter hne hsegment (by simpa using hdir)] at h
    cases h

/-- **The pieces of an escaped path** lead to the path, for what comes behind it and needs a
directory there.  A piece with brackets is looked for among the entries of a directory, and a piece
without is entered by its name: both come to the same, but for what they ask on the way. -/
theorem globFrom_plain (hne : p.text ≠ "") (hdot : p.text ≠ ".")
    (hslash : ∀ segment ∈ segments, '/' ∉ segment.toList)
    (hpatterns : ∀ q, t.isDirectory q = false → t.globFrom q patterns = []) :
    t.globFrom p (segments.map (·.toList.map .plain) ++ patterns) =
      t.globFrom (p.joinAll segments) patterns := by
  induction segments generalizing p with
  | nil => rfl
  | cons segment rest ih =>
    have hsegment := hslash segment (List.mem_cons_self ..)
    have hrest : ∀ s ∈ rest, '/' ∉ s.toList := fun s hs => hslash s (List.mem_cons_of_mem _ hs)
    obtain ⟨hne', hdot'⟩ := text_join_ne hne hsegment
    have hstep := t.globStep_plain hne hsegment
    rw [enter_of_text_ne hdot] at hstep
    rw [List.map_cons, List.cons_append, globFrom, Path.joinAll]
    rcases hstep with hstep | ⟨hstep, hdir⟩
    · rw [hstep, List.flatMap_singleton, ih hne' hdot' hrest]
    · rw [hstep, hpatterns _ (isDirectory_joinAll_eq_false hne' hdot' hrest hdir)]
      rfl

/-- There is nothing of the empty name in the working directory. -/
theorem globStep_empty (t : FileTree) : t.globStep ⟨"."⟩ ("".toList.map .plain) = [] := by
  have hnothing : t.contains ⟨""⟩ = false := rfl
  have hadmits : t.admits ⟨"."⟩ "" = false := hnothing
  unfold globStep
  rw [Pattern.literal?_plain, if_neg (by decide)]
  simp only [hadmits, Bool.false_eq_true, if_false]

/-- From the working directory, the walk goes on behind the dots in front, unless the segment there
is empty. -/
theorem globFrom_here (t : FileTree) (hslash : ∀ segment ∈ segments, '/' ∉ segment.toList)
    (hpatterns : ∀ q, t.isDirectory q = false → t.globFrom q patterns = []) :
    t.globFrom ⟨"."⟩ (segments.map (·.toList.map .plain) ++ patterns) =
      match segments.dropWhile (· == ".") with
      | [] => t.globFrom ⟨"."⟩ patterns
      | first :: rest =>
        if first = "" then [] else t.globFrom (Path.joinAll ⟨first⟩ rest) patterns := by
  have hnowhere : ∀ {first : String} {rest : List String}, first ≠ "" → first ≠ "." →
      (∀ s ∈ rest, '/' ∉ s.toList) → t.isDirectory ⟨first⟩ = false →
        t.globFrom (Path.joinAll ⟨first⟩ rest) patterns = [] :=
    fun hne hdot hrest hdir => hpatterns _ (isDirectory_joinAll_eq_false hne hdot hrest hdir)
  induction segments with
  | nil => rfl
  | cons segment rest ih =>
    have hsegment := hslash segment (List.mem_cons_self ..)
    have hrest : ∀ s ∈ rest, '/' ∉ s.toList := fun s hs => hslash s (List.mem_cons_of_mem _ hs)
    have hstep : t.globStep ⟨"."⟩ (segment.toList.map .plain) = [⟨segment⟩] ∨
        t.globStep ⟨"."⟩ (segment.toList.map .plain) = [] ∧ t.isDirectory ⟨segment⟩ = false :=
      t.globStep_plain (by decide) hsegment
    rw [List.map_cons, List.cons_append, globFrom]
    by_cases hdot : segment = "."
    · subst hdot
      rw [List.dropWhile_cons_of_pos (by decide)]
      rcases hstep with hstep | ⟨hstep, hdir⟩
      · rw [hstep, List.flatMap_singleton, ih hrest]
      rw [hstep, List.flatMap_nil]
      -- The working directory is none, so neither is anything behind it.
      have hhead := List.head?_dropWhile_not (· == ".") rest
      have hkept : ∀ s ∈ rest.dropWhile (· == "."), '/' ∉ s.toList :=
        fun s hs => hrest s (List.dropWhile_subset _ hs)
      cases hdropped : rest.dropWhile (· == ".") with
      | nil => exact (hpatterns _ hdir).symm
      | cons first others =>
        rw [hdropped] at hhead hkept
        have hfirst : first ≠ "." := by simpa using hhead
        by_cases hempty : first = ""
        · exact (if_pos hempty).symm
        · refine ((if_neg hempty).trans (hnowhere hempty hfirst
            (fun s hs => hkept s (List.mem_cons_of_mem _ hs)) ?_)).symm
          by_contra hthere
          have hthere : t.isDirectory (enter ⟨"."⟩ first) = true := by simpa [enter] using hthere
          rw [isDirectory_of_isDirectory_enter (by decide) (hkept first (by simp)) hthere] at hdir
          cases hdir
    · rw [List.dropWhile_cons_of_neg (by simpa using hdot)]
      by_cases hempty : segment = ""
      · subst hempty
        rw [globStep_empty]
        rfl
      · refine Eq.trans ?_ (if_neg hempty).symm
        rcases hstep with hstep | ⟨hstep, hdir⟩
        · rw [hstep, List.flatMap_singleton, globFrom_plain hempty hdot hrest hpatterns]
        · rw [hstep, hnowhere hempty hdot hrest hdir]
          rfl

/-! ## The whole pattern -/

/-- What is behind the escaped path in the pattern: any entry, and the manifest in it. -/
def manifestPatterns : List Pattern := [[.many], manifestName.toList.map .plain]

theorem globStep_many (t : FileTree) (p : Path) :
    t.globStep p [.many] = (t.childNames p).map (enter p) := by
  have hall : (t.childNames p).filter (Pattern.takes [.many]) = t.childNames p :=
    List.filter_eq_self.mpr fun name _ => Pattern.takes_many name
  change ((t.childNames p).filter (Pattern.takes [.many])).map (enter p) = _
  rw [hall]

/-- In the directories of a path, only a manifest that is there is gone on to. -/
theorem globFrom_manifestPatterns (hne : p.text ≠ "") (hdot : p.text ≠ ".") :
    t.globFrom p manifestPatterns = (t.listed p).map fun entry => p / entry / manifestName := by
  have hstep : ∀ entry ∈ t.childNames p,
      t.globFrom (enter p entry) [manifestName.toList.map .plain] =
        if t.contains (p / entry / manifestName) then [p / entry / manifestName] else [] := by
    intro entry hentry
    have hslash := (Path.isEntryName_iff.mp (mem_childNames.mp hentry).1).2
    have hdots : ¬ (manifestName = "." ∨ manifestName = "..") := by decide
    have hadmits : t.admits (p / entry) manifestName = t.contains (p / entry / manifestName) := by
      rw [admits, if_neg hdots, enter_of_text_ne (text_join_ne hne hslash).2]
    rw [globFrom, globStep, Pattern.literal?_plain, if_neg (by decide), enter_of_text_ne hdot]
    simp only [hadmits, enter_of_text_ne (text_join_ne hne hslash).2]
    split <;> rfl
  rw [manifestPatterns, globFrom, globStep_many, List.flatMap_map, List.flatMap_congr hstep, listed]
  generalize t.childNames p = entries
  induction entries with
  | nil => rfl
  | cons entry rest ih =>
    rw [List.flatMap_cons, ih, List.filter_cons]
    split <;> rfl

theorem globFrom_manifestPatterns_of_isDirectory_eq_false (h : t.isDirectory p = false) :
    t.globFrom p manifestPatterns = [] := by
  rw [manifestPatterns, globFrom, globStep_many, childNames_of_isDirectory_eq_false h]
  rfl

theorem segments_pattern (text : String) :
    Path.segments ⟨Pattern.escape text ++ "/*/" ++ manifestName⟩ =
      (Path.segments ⟨text⟩).map Pattern.escape ++ ["*", manifestName] := by
  have hbehind : ("/*/" ++ manifestName).toList = '/' :: '*' :: '/' :: manifestName.toList := by
    decide
  have htail : Text.split '/' ('*' :: '/' :: manifestName.toList) =
      [['*'], manifestName.toList] := by
    decide
  rw [Path.segments, String.append_assoc, String.toList_append, hbehind, Text.split_append_sep,
    htail, Pattern.split_escape, Path.segments]
  simp [Pattern.escape, Function.comp_def]

theorem isRooted_pattern {text : String} (h : text ≠ "") :
    Path.isRooted ⟨Pattern.escape text ++ "/*/" ++ manifestName⟩ = Path.isRooted ⟨text⟩ := by
  rw [Path.isRooted, Path.isRooted, String.append_assoc, String.toList_append, Pattern.escape,
    String.toList_ofList]
  cases htext : text.toList with
  | nil => exact absurd (by simpa using htext) h
  | cons c rest =>
    rw [List.flatMap_cons, Pattern.escapeChar]
    split
    next hspecial =>
      have hslash : c ≠ '/' := by
        rintro rfl
        exact absurd hspecial (by decide)
      simp [hslash]
    next => rfl

theorem mapM_read?_pattern (segments : List String) :
    (segments.map Pattern.escape ++ ["*", manifestName]).mapM Pattern.read? =
      some (segments.map (·.toList.map .plain) ++ manifestPatterns) := by
  induction segments with
  | nil => decide
  | cons segment rest ih =>
    rw [List.map_cons, List.cons_append, List.mapM_cons, Pattern.read?_escape, ih]
    rfl

/-- **The manifests that are listed below an escaped path** are those in the directories of the
path, spelled by the way the walk has come.  What is special in the path plays no part, since the
escaped path is taken as it stands. -/
theorem glob_escape (t : FileTree) {dir : Path} {front : List String} {last : String}
    (hdir : dir.segments = front ++ [last]) (hfront : front ≠ [])
    (hlast : Path.isName last = true) :
    t.glob (Pattern.escape dir.text ++ "/*/" ++ manifestName) = match dir.walked? with
      | none => []
      | some q => (t.listed q).map fun entry => q / entry / manifestName := by
  have hslash : ∀ segment ∈ dir.segments, '/' ∉ segment.toList :=
    fun segment hs => Path.slash_notMem_of_mem_segments hs
  have hpatterns : ∀ q, t.isDirectory q = false → t.globFrom q manifestPatterns = [] :=
    fun q => globFrom_manifestPatterns_of_isDirectory_eq_false
  have hlisted : ∀ {q : Path}, dir.walked? = some q → t.globFrom q manifestPatterns =
      (t.listed q).map fun entry => q / entry / manifestName := by
    intro q hq
    obtain ⟨front', hsegments, -⟩ := Path.segments_of_walked? hdir hfront hlast hq
    refine globFrom_manifestPatterns (Path.text_ne_empty_of_isName hsegments hlast) fun hdot => ?_
    -- A path that is a dot does not end in a name.
    have heq := congrArg List.getLast? hsegments
    rw [Path.segments, hdot, List.getLast?_concat] at heq
    cases heq
    exact absurd hlast (by decide)
  unfold glob
  dsimp only
  rw [segments_pattern, isRooted_pattern (Path.text_ne_empty_of_isName hdir hlast)]
  unfold Path.walked? at hlisted ⊢
  cases hroot : dir.isRooted with
  | true =>
    simp only [hroot, if_true] at hlisted ⊢
    obtain ⟨first, rest, hsplit⟩ : ∃ first rest, dir.segments = first :: rest :=
      List.exists_cons_of_ne_nil (by simp [hdir])
    rw [hsplit] at hslash hlisted ⊢
    have hrest : ∀ s ∈ rest, '/' ∉ s.toList := fun s hs => hslash s (List.mem_cons_of_mem _ hs)
    rw [List.map_cons, List.cons_append, List.drop_one, List.tail_cons, mapM_read?_pattern]
    exact (globFrom_plain (by decide) (by decide) hrest hpatterns).trans (hlisted rfl)
  | false =>
    simp only [hroot, Bool.false_eq_true, if_false] at hlisted ⊢
    rw [mapM_read?_pattern]
    refine (t.globFrom_here hslash hpatterns).trans ?_
    cases hkept : dir.segments.dropWhile (· == ".") with
    | nil =>
      rw [hkept] at hlisted
      exact hlisted rfl
    | cons first rest =>
      rw [hkept] at hlisted
      by_cases hempty : first = ""
      · simp only [if_pos hempty]
      · simp only [if_neg hempty] at hlisted ⊢
        exact hlisted rfl

end ElmManifest.FileTree
