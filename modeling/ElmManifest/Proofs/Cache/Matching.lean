import ElmManifest.Proofs.Cache.Listing
import ElmManifest.Proofs.Text.ByteOrder
import Mathlib.Data.List.Forall2

/-!
# What a listing is asked for

`available_versions` never looks into a directory itself.  It makes a pattern of the path of the
directory and leaves the rest to the listing library, so what it returns is no better than the
pattern.  This module says which paths the pattern matches, for a directory whose path may be any
bytes, and states what the library promises to do with a pattern.

## Which paths match

A pattern is matched piece by piece.  Both sides are taken without the segments that say nothing,
since the library builds the paths it returns and spells them in its own way.  An escaped segment
matches itself and nothing else, whatever is special in it, and the star matches the name of any
entry.  So `matches_listingPattern_iff` finds the manifests one directory below `OsPath.shown`,
which is the directory as far as its path is a text.  For a path that is a text this is the
directory.  Otherwise it is another one, and nothing of the directory itself is matched.

## What the library promises

`Disk.YieldsMatching` is the documentation of the library for one pattern: what it lists is there
and matches, what is there and matches is listed, and the list is in alphabetical order.  The order
is that of the names on the way and not that of the whole paths, in which the slash behind a name
would count as well.  The file trees of this project keep the promise for every directory that their
walk comes to, which is `FileTree.yieldsMatching`; so it is a promise that can be kept.

## Main Definitions

* `Pattern.matchesPath` — a path matches a pattern.
* `OsPath.shown` — the path that a pattern has been made of, as far as it is a text.
* `Disk.HasEntry` — an entry of a directory, with something called `elm.json` in it.
* `Disk.YieldsMatching` — what the library promises for a pattern.

## Main Statements

* `matches_listingPattern_iff` — the paths that match the pattern of a directory.
* `FileTree.yieldsMatching` — file trees keep the promise.
-/

namespace ElmManifest

/-! ## Matching paths -/

namespace Pattern

/-- Whether a piece of a pattern stands for a step: the step is a text that the piece takes.  The
two dots of a directory are none of its entries, so nothing but two dots stands for them. -/
def standsFor (piece : String) (step : List UInt8) : Bool :=
  match Text.Utf8.decode? ⟨step.toArray⟩ with
  | none => false
  | some name => (name != ".." || piece == "..") && (read? piece).any (·.takes name)

/-- Whether pieces stand for steps, one by one. -/
def standForAll : List String → List (List UInt8) → Bool
  | [], [] => true
  | piece :: pieces, step :: steps => standsFor piece step && standForAll pieces steps
  | _, _ => false

/-- Whether a path matches a pattern: it starts where the pattern starts, and its steps are what the
pieces of the pattern stand for. -/
def matchesPath (pattern : String) (path : OsPath) : Bool :=
  path.isRooted == Path.isRooted ⟨pattern⟩ &&
    standForAll (Path.significant (Path.segments ⟨pattern⟩)) path.steps

/-- The spelling of a path does not matter to a pattern. -/
theorem matchesPath_congr {pattern : String} {p q : OsPath} (hroot : p.isRooted = q.isRooted)
    (hsteps : p.steps = q.steps) : matchesPath pattern p = matchesPath pattern q := by
  rw [matchesPath, matchesPath, hroot, hsteps]

theorem standsFor_iff {piece : String} {step : List UInt8} : standsFor piece step = true ↔
    ∃ name, step = utf8Bytes name ∧ (name = ".." → piece = "..") ∧
      ∃ pattern, read? piece = some pattern ∧ takes pattern name = true := by
  unfold standsFor
  split
  next hdecode =>
    refine iff_of_false (by simp) ?_
    rintro ⟨name, rfl, -⟩
    rw [OsPath.mk_utf8Bytes, Text.Utf8.decode?_toUTF8] at hdecode
    cases hdecode
  next name hdecode =>
    have hstep : step = utf8Bytes name :=
      congrArg (·.data.toList) (Text.Utf8.eq_of_decode? hdecode)
    subst hstep
    simp [utf8Bytes_inj, Option.any_eq_true, or_iff_not_imp_left]

theorem standsFor_escape {segment : String} {step : List UInt8} :
    standsFor (escape segment) step = true ↔ step = utf8Bytes segment := by
  rw [standsFor_iff]
  simp only [read?_escape, Option.some.injEq, exists_eq_left', takes_plain_iff]
  constructor
  · rintro ⟨name, rfl, -, rfl⟩
    rfl
  · rintro rfl
    exact ⟨segment, rfl, by rintro rfl; rfl, rfl⟩

/-- A star stands for every text but two dots. -/
theorem standsFor_star {step : List UInt8} :
    standsFor "*" step = true ↔ ∃ name, step = utf8Bytes name ∧ name ≠ ".." := by
  rw [standsFor_iff]
  refine exists_congr fun name => and_congr_right fun _ => ?_
  have hstar : read? "*" = some [.many] := by decide
  simp [hstar, takes_many]

theorem standForAll_escape_append {segments pieces : List String} {steps : List (List UInt8)} :
    standForAll (segments.map escape ++ pieces) steps = true ↔
      ∃ rest, steps = segments.map utf8Bytes ++ rest ∧ standForAll pieces rest = true := by
  induction segments generalizing steps with
  | nil => simp
  | cons segment others ih =>
    cases steps with
    | nil => simp [standForAll]
    | cons step steps =>
      simp only [List.map_cons, List.cons_append, standForAll, Bool.and_eq_true, standsFor_escape,
        ih, List.cons.injEq]
      constructor
      · rintro ⟨rfl, rest, rfl, hrest⟩
        exact ⟨rest, ⟨rfl, rfl⟩, hrest⟩
      · rintro ⟨rest, ⟨rfl, rfl⟩, hrest⟩
        exact ⟨rfl, rest, rfl, hrest⟩

theorem escape_inj {a b : String} (h : escape a = escape b) : a = b := by
  have htokens := congrArg read? h
  rw [read?_escape, read?_escape, Option.some.injEq] at htokens
  have htakes := takes_plain_iff.mpr (Eq.refl a)
  rw [htokens] at htakes
  exact takes_plain_iff.mp htakes

/-- What says nothing says nothing when it is escaped, and the other way round. -/
theorem significant_map_escape (segments : List String) :
    Path.significant (segments.map escape) = (Path.significant segments).map escape := by
  rw [Path.significant, List.filter_map]
  congr 1
  apply List.filter_congr
  intro segment _
  have hempty : escape segment = "" ↔ segment = "" :=
    ⟨fun h => escape_inj h, by rintro rfl; rfl⟩
  have hdot : escape segment = "." ↔ segment = "." :=
    ⟨fun h => escape_inj h, by rintro rfl; rfl⟩
  rw [Bool.eq_iff_iff]
  simp [Path.isNoise, hempty, hdot]

/-- Behind the directory, the pattern stands for any entry and the manifest in it. -/
theorem standForAll_manifest_iff {steps : List (List UInt8)} :
    standForAll ["*", manifestName] steps = true ↔
      ∃ entry, entry ≠ ".." ∧ steps = [utf8Bytes entry, utf8Bytes manifestName] := by
  have hplain : escape manifestName = manifestName := by decide
  have hmanifest : ∀ step, standsFor manifestName step = true ↔ step = utf8Bytes manifestName := by
    intro step
    rw [← standsFor_escape, hplain]
  constructor
  · intro h
    match steps with
    | [] => cases h
    | [_] => simp [standForAll] at h
    | [step, last] =>
      simp only [standForAll, Bool.and_eq_true, standsFor_star, hmanifest] at h
      obtain ⟨⟨entry, rfl, hdots⟩, rfl, -⟩ := h
      exact ⟨entry, hdots, rfl⟩
    | _ :: _ :: _ :: _ => simp [standForAll] at h
  · rintro ⟨entry, hdots, rfl⟩
    have hentry : standsFor "*" (utf8Bytes entry) = true :=
      standsFor_star.mpr ⟨entry, rfl, hdots⟩
    have hlast := (hmanifest (utf8Bytes manifestName)).mpr rfl
    simp only [standForAll, hentry, hlast, Bool.and_self]

end Pattern

namespace OsPath

/-- The path that a pattern has been made of, as far as it is a text: what is no text has been
replaced. -/
def shown (p : OsPath) : OsPath := ofPath ⟨p.lossy⟩

/-- A path that is a text is shown as it is. -/
@[simp] theorem shown_ofPath (p : Path) : (ofPath p).shown = ofPath p := by
  rw [shown, lossy_ofPath]

theorem slash_notMem_of_mem_steps {p : OsPath} {name : String} (h : utf8Bytes name ∈ p.steps) :
    '/' ∉ name.toList := by
  rw [← slash_mem_utf8Bytes]
  exact Text.notMem_of_mem_split (List.mem_filter.mp h).1

/-- A step says something and holds no slash. -/
theorem isEntryName_of_mem_steps {p : OsPath} {name : String} (h : utf8Bytes name ∈ p.steps)
    (hdots : name ≠ "..") : Path.isEntryName name = true := by
  have hslash := slash_notMem_of_mem_steps h
  have hstep := (List.mem_filter.mp h).2
  have hempty : utf8Bytes name = [] ↔ name = "" := utf8Bytes_inj (b := "")
  simp only [hempty, utf8Bytes_inj, ne_eq, decide_eq_true_eq] at hstep
  simp [Path.isEntryName, Path.isName, Path.isNoise, hstep, hdots, hslash]

end OsPath

/-- **The paths that match the pattern of a directory** are those of the manifests in the entries of
the directory that is shown.  Nothing that is special in the path of the directory is special in the
pattern any more, so the star stands for the entry and for nothing else. -/
theorem matches_listingPattern_iff {dir path : OsPath} (hdir : dir.bytes ≠ []) :
    Pattern.matchesPath (ElmHome.listingPattern dir) path = true ↔
      path.isRooted = dir.shown.isRooted ∧ ∃ entry, Path.isEntryName entry = true ∧
        path.steps = dir.shown.steps ++ [utf8Bytes entry, utf8Bytes manifestName] := by
  have htail : Path.significant ["*", manifestName] = ["*", manifestName] := by decide
  unfold Pattern.matchesPath ElmHome.listingPattern
  rw [Bool.and_eq_true, beq_iff_eq, FileTree.isRooted_pattern (OsPath.lossy_ne_empty hdir),
    FileTree.segments_pattern, Path.significant_append, Pattern.significant_map_escape, htail,
    Pattern.standForAll_escape_append, OsPath.shown, OsPath.isRooted_ofPath, OsPath.steps_ofPath]
  refine and_congr_right fun _ => ?_
  constructor
  · rintro ⟨rest, hsteps, hrest⟩
    obtain ⟨entry, hdots, rfl⟩ := Pattern.standForAll_manifest_iff.mp hrest
    have hmem : utf8Bytes entry ∈ path.steps := by simp [hsteps]
    exact ⟨entry, OsPath.isEntryName_of_mem_steps hmem hdots, hsteps⟩
  · rintro ⟨entry, hentry, hsteps⟩
    refine ⟨_, hsteps, Pattern.standForAll_manifest_iff.mpr ⟨entry, ?_, rfl⟩⟩
    rintro rfl
    exact absurd hentry (by decide)

/-! ## The promise of the library -/

namespace Disk

/-- An entry of a directory, with something called `elm.json` in it, however its path is spelled. -/
def HasEntry (disk : Disk) (dir : OsPath) (entry : String) : Prop :=
  ∃ path, path.isRooted = dir.isRooted ∧
    path.steps = dir.steps ++ [utf8Bytes entry, utf8Bytes manifestName] ∧
    disk.contains path = true

/-- What the listing library promises for a pattern.  The fields are what its documentation says of
`glob`: all paths that match, in alphabetical order. -/
structure YieldsMatching (disk : Disk) (pattern : String) : Prop where
  /-- What is listed is there and matches. -/
  sound : ∀ path ∈ disk.glob pattern,
    disk.contains path = true ∧ Pattern.matchesPath pattern path = true
  /-- What is there and matches is listed, in one of its spellings. -/
  complete : ∀ path, disk.contains path = true → Pattern.matchesPath pattern path = true →
    ∃ found ∈ disk.glob pattern, found.steps = path.steps
  /-- The list is in order of the names on the way, byte by byte. -/
  ordered : (disk.glob pattern).Pairwise fun path path' => path.steps < path'.steps

end Disk

/-! ## File trees keep it -/

section FileTrees

variable {t : FileTree} {config : Config} {name entry : String} {dir listed : Path}

/-- Where a path starts does not depend on the entry and the manifest behind it. -/
theorem OsPath.isRooted_manifest (p : OsPath) (hentry : Path.isEntryName entry = true) :
    (p / entry / manifestName).isRooted = p.isRooted := by
  rw [OsPath.isRooted_join (by decide), OsPath.isRooted_join hentry]

/-- Only paths that are texts lead anywhere in a file tree. -/
theorem FileTree.contains_disk_iff {path : OsPath} :
    t.disk.contains path = true ↔ ∃ q, path = .ofPath q ∧ t.contains q = true := by
  constructor
  · intro h
    obtain ⟨q, hq, hthere⟩ := (Option.any_eq_true ..).mp h
    exact ⟨q, OsPath.eq_ofPath hq, hthere⟩
  · rintro ⟨q, rfl, hthere⟩
    simpa [disk] using hthere

/-- The spelling of the walk goes through what the directory goes through. -/
theorem steps_of_walked? (hdir : Cache.packageDir? config name = some dir)
    (hlisted : dir.walked? = some listed) :
    (OsPath.ofPath listed).steps = (OsPath.ofPath dir).steps ∧
      (OsPath.ofPath listed).isRooted = (OsPath.ofPath dir).isRooted := by
  obtain ⟨front, project, hsegments, hfront, hproject⟩ := Cache.segments_of_packageDir? hdir
  obtain ⟨front', hsegments', hmeant, hroot, -⟩ :=
    Path.segments_of_walked? hsegments hfront hproject hlisted
  rw [OsPath.steps_ofPath, OsPath.steps_ofPath, hsegments, hsegments', Path.significant_append,
    Path.significant_append, hmeant, OsPath.isRooted_ofPath, OsPath.isRooted_ofPath]
  exact ⟨rfl, hroot⟩

/-- The manifests in the entries of a directory are in order of the entries. -/
theorem steps_manifest_lt {front : List (List UInt8)} {a b : String} (h : a < b) :
    front ++ [utf8Bytes a, utf8Bytes manifestName] <
      front ++ [utf8Bytes b, utf8Bytes manifestName] :=
  List.append_left_lt (List.cons_lt_cons_iff.mpr (.inl (utf8Bytes_lt h)))

/-- An entry of a directory is listed, if the spelling of the walk is not too long for it. -/
theorem mem_listed_of_hasEntry (hdir : Cache.packageDir? config name = some dir)
    (hlisted : dir.walked? = some listed) (hentry : Path.isEntryName entry = true)
    (hshort : (listed / entry / manifestName).text.utf8ByteSize ≤ FileTree.maxPathLength)
    (h : t.disk.HasEntry (.ofPath dir) entry) : entry ∈ t.listed listed := by
  obtain ⟨path, hroot, hsteps, hcontains⟩ := h
  obtain ⟨q, rfl, hthere⟩ := FileTree.contains_disk_iff.mp hcontains
  obtain ⟨front, project, hsegments, hfront, hproject⟩ := Cache.segments_of_packageDir? hdir
  obtain ⟨front', hsegments', -⟩ := Path.segments_of_walked? hsegments hfront hproject hlisted
  obtain ⟨hwalked, hstart⟩ := steps_of_walked? hdir hlisted
  rw [FileTree.mem_listed_iff (Path.text_ne_empty_of_isName hsegments' hproject) hentry]
  -- The path that is there and the one that is listed are two spellings of one place.
  have hmeant : Path.significant (listed / entry / manifestName).segments =
      Path.significant q.segments := by
    apply (List.map_injective_iff.mpr fun _ _ => utf8Bytes_inj.mp :
      Function.Injective (List.map utf8Bytes))
    rw [← OsPath.steps_ofPath, ← OsPath.steps_ofPath, hsteps, OsPath.ofPath_join,
      OsPath.ofPath_join, Cache.steps_manifest _ hentry, hwalked]
  have hrooted : (listed / entry / manifestName).isRooted = q.isRooted := by
    rw [← OsPath.isRooted_ofPath q, hroot, ← hstart, OsPath.isRooted_ofPath,
      Cache.isRooted_manifest hentry]
  have hspelled : (listed / entry / manifestName).segments =
      (front' ++ [project, entry]) ++ [manifestName] := by
    simpa using Cache.segments_manifest hsegments' hproject hentry
  obtain ⟨place, hplace, hsome⟩ := FileTree.contains_iff.mp hthere
  have hlocate :=
    FileTree.locate_of_significant_eq hspelled (by decide) hmeant hrooted hplace
  rw [if_neg (Nat.not_lt.mpr hshort)] at hlocate
  exact FileTree.contains_iff.mpr ⟨place, hlocate, hsome⟩

/-- The name of an entry in a file tree is not too long. -/
theorem utf8ByteSize_le_of_hasEntry {p : OsPath} (h : t.disk.HasEntry p entry) :
    entry.utf8ByteSize ≤ FileTree.maxNameLength := by
  obtain ⟨path, -, hsteps, hcontains⟩ := h
  obtain ⟨q, rfl, hthere⟩ := FileTree.contains_disk_iff.mp hcontains
  obtain ⟨place, hplace, -⟩ := FileTree.contains_iff.mp hthere
  obtain ⟨-, -, -, hwalk⟩ := FileTree.locate_eq_ok_iff.mp hplace
  apply FileTree.utf8ByteSize_le_of_walk hwalk
  have hmem : utf8Bytes entry ∈ (OsPath.ofPath q).steps := by simp [hsteps]
  rw [OsPath.steps_ofPath] at hmem
  obtain ⟨segment, hsegment, hbytes⟩ := List.mem_map.mp hmem
  rwa [← utf8Bytes_inj.mp hbytes]

/-- If the path of a directory leaves room for the longest name, no entry of it is too far away. -/
theorem short_of_hasEntry {p : OsPath} (h : t.disk.HasEntry p entry)
    (hroom : listed.text.utf8ByteSize + FileTree.maxNameLength + manifestName.utf8ByteSize + 2 ≤
      FileTree.maxPathLength) :
    (listed / entry / manifestName).text.utf8ByteSize ≤ FileTree.maxPathLength := by
  have hname := utf8ByteSize_le_of_hasEntry h
  obtain ⟨path, -, hsteps, -⟩ := h
  have hslash : '/' ∉ entry.toList :=
    OsPath.slash_notMem_of_mem_steps (p := path) (by simp [hsteps])
  have hentry : (listed / entry).text.utf8ByteSize ≤ _ :=
    Path.utf8ByteSize_join_le listed (q := ⟨entry⟩) (Path.isRooted_of_notMem hslash)
  have hmanifest : (listed / entry / manifestName).text.utf8ByteSize ≤ _ :=
    Path.utf8ByteSize_join_le (listed / entry) (q := ⟨manifestName⟩) (by decide)
  dsimp only at hentry hmanifest
  omega

/-- **File trees keep the promise** for every directory that the walk comes to, unless the walk has
to spell a path that is too long.  So what `Disk.YieldsMatching` says of a listing is not only
documented: it follows, for an escaped path, from how the library goes through a tree. -/
theorem FileTree.yieldsMatching (t : FileTree) (hdir : Cache.packageDir? config name = some dir)
    (hlisted : dir.walked? = some listed)
    (hshort : ∀ entry, t.disk.HasEntry (.ofPath dir) entry →
      (listed / entry / manifestName).text.utf8ByteSize ≤ maxPathLength) :
    t.disk.YieldsMatching (ElmHome.listingPattern (.ofPath dir)) := by
  obtain ⟨hwalked, hstart⟩ := steps_of_walked? hdir hlisted
  have hglob : t.disk.glob (ElmHome.listingPattern (.ofPath dir)) =
      (t.listed listed).map fun entry => OsPath.ofPath listed / entry / manifestName := by
    rw [Cache.glob_listingPattern t hdir, hlisted]
  have hname : ∀ entry ∈ t.listed listed, Path.isEntryName entry = true := fun entry hentry =>
    (mem_childNames.mp (List.mem_filter.mp hentry).1).1
  -- The walk spells the directory in another way, but with the same steps.
  have hsteps : ∀ entry ∈ t.listed listed,
      (OsPath.ofPath listed / entry / manifestName).steps =
        (OsPath.ofPath dir).steps ++ [utf8Bytes entry, utf8Bytes manifestName] := by
    intro entry hentry
    rw [Cache.steps_manifest _ (hname entry hentry), hwalked]
  have hne : (OsPath.ofPath dir).bytes ≠ [] := by
    obtain ⟨front, project, hsegments, -, hproject⟩ := Cache.segments_of_packageDir? hdir
    exact fun hempty => Path.text_ne_empty_of_isName hsegments hproject
      (utf8Bytes_inj (b := "").mp hempty)
  have hmatches (path : OsPath) : Pattern.matchesPath _ path = true ↔ _ :=
    matches_listingPattern_iff hne
  rw [OsPath.shown_ofPath] at hmatches
  constructor
  case sound =>
    intro path hpath
    rw [hglob] at hpath
    obtain ⟨entry, hentry, rfl⟩ := List.mem_map.mp hpath
    have hcontains := (List.mem_filter.mp hentry).2
    refine ⟨?_, (hmatches _).mpr ⟨?_, entry, hname entry hentry, hsteps entry hentry⟩⟩
    · exact contains_disk_iff.mpr ⟨_, by simp [OsPath.ofPath_join], hcontains⟩
    · rw [OsPath.isRooted_manifest _ (hname entry hentry), hstart]
  case complete =>
    intro path hcontains hmatch
    obtain ⟨hroot, entry, hentry, hpath⟩ := (hmatches path).mp hmatch
    -- However the path is spelled, its entry is in the directory that the walk comes to.
    have hentered : t.disk.HasEntry (.ofPath dir) entry := ⟨path, hroot, hpath, hcontains⟩
    have hmem := mem_listed_of_hasEntry hdir hlisted hentry (hshort entry hentered) hentered
    rw [hglob]
    exact ⟨_, List.mem_map_of_mem hmem, (hsteps entry hmem).trans hpath.symm⟩
  case ordered =>
    rw [hglob, List.pairwise_map]
    refine List.Pairwise.imp_of_mem ?_ ((t.pairwise_childNames listed).filter _)
    intro entry other hentry hother hlt
    rw [hsteps entry hentry, hsteps other hother]
    exact steps_manifest_lt hlt

end FileTrees

end ElmManifest
