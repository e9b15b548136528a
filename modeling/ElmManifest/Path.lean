import ElmManifest.Text.Split

/-!
# Paths

A path is what its author wrote.  Joining and taking the parent work on that spelling, while
comparing two paths, naming the last part of one and folding its dots away work on its components.

## Main Definitions

* `Path` — a spelling; `Path.segments` are the pieces between its slashes.
* `Path.components` — what the spelling means: repeated slashes and inner dots say nothing.
* `Path.SamePlace` — two spellings with the same components.
* `Path.join` (written `/`), `Path.parent?`, `Path.ancestors`, `Path.fileName?`.
* `Path.normalize` — the path with its `.` and `..` folded away, as far as its spelling allows.

## Main Statements

* `Path.ofSegments_segments` — a path is determined by its segments.
* `Path.toList_text_eq_join` — it is spelled as its segments with slashes between them.
* `Path.segments_join_name` — joining a name adds it as the last segment.
* `Path.length_lt_of_parent?` — a parent is spelled with fewer characters.

## Design Notes

Nothing here looks at a file: `..` is folded by its spelling.  A leading `.` is a component, since
it is written on purpose; every other `.` is not.
-/

namespace ElmManifest

/-- A path, as spelled.  Two spellings of one path are different values; `SamePlace` is when they
mean the same. -/
structure Path where
  /-- The spelling. -/
  text : String
  deriving DecidableEq

/-- One step of a path: `Component`, as far as paths that start at the root or below a directory
need it. -/
inductive Component where
  /-- The slash that a rooted path starts with. -/
  | root
  /-- The dot that a path starts with. -/
  | here
  /-- Two dots. -/
  | up
  /-- The name of a file or directory. -/
  | name (text : String)
  deriving DecidableEq

/-- The spelling of a step. -/
def Component.text : Component → String
  | .root => "/"
  | .here => "."
  | .up => ".."
  | .name text => text

namespace Path

instance : ToString Path := ⟨text⟩

/-! ## Segments -/

/-- The pieces between the slashes of a path.  There is always at least one, and an empty path has
the empty one. -/
def segments (p : Path) : List String :=
  (Text.split '/' p.text.toList).map String.ofList

/-- The path with the given pieces between its slashes. -/
def ofSegments (pieces : List String) : Path :=
  ⟨String.ofList (Text.join '/' (pieces.map String.toList))⟩

theorem ofSegments_segments (p : Path) : ofSegments p.segments = p := by
  simp [ofSegments, segments, List.map_map, Function.comp_def, Text.join_split]

/-- A path is spelled as its segments with slashes between them. -/
theorem toList_text_eq_join (p : Path) :
    p.text.toList = Text.join '/' (p.segments.map String.toList) := by
  simp [segments, List.map_map, Function.comp_def, Text.join_split]

/-- The segments of a path put together from pieces without slashes are those pieces. -/
theorem segments_ofSegments {pieces : List String} (hne : pieces ≠ [])
    (h : ∀ piece ∈ pieces, '/' ∉ piece.toList) : (ofSegments pieces).segments = pieces := by
  unfold ofSegments segments
  rw [String.toList_ofList, Text.split_join (by simpa using hne) (by simpa using h)]
  simp [List.map_map, Function.comp_def]

/-- Whether the path starts at the root. -/
def isRooted (p : Path) : Bool :=
  p.text.toList.head? == some '/'

/-- Whether the path starts with a dot for the working directory.  Only there does a dot say
something. -/
def startsHere (p : Path) : Bool :=
  p.segments.head? == some "."

/-- The segment that says where the path starts, if it has one: the empty one in front of the first
slash, or the dot. -/
def lead (p : Path) : List String :=
  if p.isRooted || p.startsHere then p.segments.take 1 else []

/-- The segments behind the lead. -/
def body (p : Path) : List String :=
  if p.isRooted || p.startsHere then p.segments.drop 1 else p.segments

/-- The lead and the body are all of a path. -/
theorem lead_append_body (p : Path) : p.lead ++ p.body = p.segments := by
  unfold lead body
  split
  · exact List.take_append_drop 1 p.segments
  · rfl

theorem lead_of_isRooted {p : Path} (h : p.isRooted = true) : p.lead = [""] := by
  obtain ⟨rest, hrest⟩ := List.head?_eq_some_iff.mp (beq_iff_eq.mp h)
  rw [lead, h, Bool.true_or, if_pos rfl]
  simp [segments, hrest, Text.split]

/-! ## Components -/

/-- Whether a segment of the body says nothing: it is empty, between two slashes, or a dot. -/
def isNoise (segment : String) : Bool :=
  segment == "" || segment == "."

/-- Whether a segment is the name of a file or directory, and not one of the segments that mean a
step. -/
def isName (segment : String) : Bool :=
  !isNoise segment && segment != ".."

/-- Whether a text can be the name of something in a directory. -/
def isEntryName (name : String) : Bool :=
  isName name && !name.toList.contains '/'

theorem isEntryName_iff {name : String} :
    isEntryName name = true ↔ isName name = true ∧ '/' ∉ name.toList := by
  simp [isEntryName]

/-- The step that a segment of the body stands for, unless it says nothing. -/
def component? (segment : String) : Option Component :=
  if isName segment then some (.name segment)
  else if isNoise segment then none
  else some .up

/-- The steps that a path takes: `components`.  Repeated slashes, a slash at the end and inner dots
leave no step. -/
def components (p : Path) : List Component :=
  (if p.isRooted then [.root] else if p.startsHere then [.here] else []) ++
    p.body.filterMap component?

/-- Two spellings with the same components: the `==` of paths. -/
def SamePlace (p q : Path) : Prop :=
  p.components = q.components

instance (p q : Path) : Decidable (p.SamePlace q) :=
  inferInstanceAs (Decidable (p.components = q.components))

/-- The last step of a path, when it is a name: `file_name`. -/
def fileName? (p : Path) : Option String :=
  match p.components.getLast? with
  | some (.name text) => some text
  | _ => none

/-! ## Joining -/

/-- The second path, seen from the directory that the first one names: `join`.  Both keep their
spelling, with a slash between them where there is none; a rooted path is the same from
everywhere. -/
def join (p q : Path) : Path :=
  if q.isRooted then q
  else if p.text = "" ∨ p.text.toList.getLast? = some '/' then ⟨p.text ++ q.text⟩
  else ⟨p.text ++ "/" ++ q.text⟩

instance : Div Path := ⟨join⟩

instance : HDiv Path String Path := ⟨fun p name => p.join ⟨name⟩⟩

/-- A path without a slash does not start at the root. -/
theorem isRooted_of_notMem {name : String} (h : '/' ∉ name.toList) :
    isRooted ⟨name⟩ = false := by
  unfold isRooted
  cases hl : name.toList with
  | nil => rfl
  | cons c rest =>
    rw [hl] at h
    have : c ≠ '/' := fun e => h (e ▸ List.mem_cons_self ..)
    simpa using this

/-- Joining a name adds it as the last segment. -/
theorem segments_join_name (p : Path) {name : String} (h : '/' ∉ name.toList) :
    ∃ front, (p / name).segments = front ++ [name] := by
  have hname : Text.split '/' name.toList = [name.toList] := Text.split_of_notMem h
  change ∃ front, (p.join ⟨name⟩).segments = front ++ [name]
  unfold join
  rw [if_neg (by simp [isRooted_of_notMem h])]
  split
  next he =>
    rcases he with he | he
    · exact ⟨[], by simp [segments, he, hname]⟩
    · obtain ⟨front, hf⟩ := List.getLast?_eq_some_iff.mp he
      refine ⟨(Text.split '/' front).map String.ofList, ?_⟩
      simp [segments, String.toList_append, hf, Text.split_append_sep, hname]
  next he =>
    exact ⟨p.segments, by
      simp [segments, String.toList_append, Text.split_append_sep, hname]⟩

/-- Joining a name to a path that ends with a name keeps the segments in front of it. -/
theorem segments_join_name_of_name {p : Path} {front : List String} {last name : String}
    (hp : p.segments = front ++ [last]) (hlast : last ≠ "") (h : '/' ∉ name.toList) :
    (p / name).segments = p.segments ++ [name] := by
  have hname : Text.split '/' name.toList = [name.toList] := Text.split_of_notMem h
  change (p.join ⟨name⟩).segments = p.segments ++ [name]
  have hend : ¬ (p.text = "" ∨ p.text.toList.getLast? = some '/') := by
    rintro (he | he)
    · simp [segments, he, Text.split] at hp
      have := congrArg List.getLast? hp
      simp at this
      exact hlast this
    · obtain ⟨text, ht⟩ := List.getLast?_eq_some_iff.mp he
      have hs : p.segments = (Text.split '/' text).map String.ofList ++ [""] := by
        simp [segments, ht, Text.split_append_sep, Text.split]
      have := congrArg List.getLast? (hs.symm.trans hp)
      simp at this
      exact hlast this
  unfold join
  rw [if_neg (by simp [isRooted_of_notMem h]), if_neg hend]
  simp [segments, String.toList_append, Text.split_append_sep, hname]

/-! ## Parents -/

/-- The segments without the ones at the end that say nothing. -/
def trimNoise (pieces : List String) : List String :=
  (pieces.reverse.dropWhile isNoise).reverse

/-- The path without its last step, spelled like the path itself: `parent`.  There is none for the
root and for the empty path.  Two dots are a step like any other, so a path that ends with them has
a parent that lies below what it names. -/
def parent? (p : Path) : Option Path :=
  match p.body.reverse.dropWhile isNoise with
  | [] => if p.startsHere then some ⟨""⟩ else none
  | _ :: earlier =>
    let kept := trimNoise earlier.reverse
    if p.isRooted ∧ kept = [] then some ⟨"/"⟩ else some (ofSegments (p.lead ++ kept))

theorem trimNoise_isPrefix (pieces : List String) : trimNoise pieces <+: pieces := by
  rw [← List.reverse_suffix, trimNoise, List.reverse_reverse]
  exact List.dropWhile_suffix isNoise

/-- The last segment that says something, with what stands in front of it and behind it. -/
theorem exists_body_eq {p : Path} {last : String} {earlier : List String}
    (h : p.body.reverse.dropWhile isNoise = last :: earlier) :
    isNoise last = false ∧
      ∃ noise after, p.body = trimNoise earlier.reverse ++ (noise ++ last :: after) := by
  constructor
  · have hhead := List.head?_dropWhile_not isNoise p.body.reverse
    rw [h] at hhead
    simpa using hhead
  · obtain ⟨noise, hnoise⟩ := trimNoise_isPrefix earlier.reverse
    have hall := congrArg List.reverse
      (List.takeWhile_append_dropWhile (p := isNoise) (l := p.body.reverse))
    rw [h, List.reverse_append, List.reverse_cons, List.reverse_reverse, ← hnoise] at hall
    exact ⟨noise, (p.body.reverse.takeWhile isNoise).reverse, by simpa using hall.symm⟩

/-- A path without its last segments is spelled with fewer characters, if one of them is not
empty. -/
theorem length_ofSegments_lt {p : Path} {front noise after : List String} {last : String}
    (hp : p.segments = front ++ (noise ++ last :: after)) (hlast : last ≠ "") :
    (ofSegments front).text.length < p.text.length := by
  have hpos : 0 < last.toList.length := List.length_pos_iff.mpr (by simpa using hlast)
  have hnoise := Text.length_join_le '/' (front.map String.toList) (noise.map String.toList)
  have hrest := Text.length_join_append '/' ((front ++ noise).map String.toList) last.toList
    (after.map String.toList)
  rw [← String.length_toList, ← String.length_toList, toList_text_eq_join p, hp, ofSegments,
    String.toList_ofList]
  simp only [List.map_append, List.map_cons, List.append_assoc] at hnoise hrest ⊢
  omega

/-- A parent is spelled with fewer characters, so going from parent to parent comes to an end. -/
theorem length_lt_of_parent? {p q : Path} (h : p.parent? = some q) :
    q.text.length < p.text.length := by
  unfold parent? at h
  split at h
  next =>
    split at h
    next hhere =>
      cases h
      have hne : p.text.toList ≠ [] := by
        intro he
        simp [startsHere, segments, he, Text.split] at hhere
      rw [← String.length_toList, ← String.length_toList]
      exact List.length_pos_iff.mpr hne
    next => cases h
  next last earlier hbody =>
    obtain ⟨hlast, noise, after, hsplit⟩ := exists_body_eq hbody
    have hsegments := p.lead_append_body.symm
    have hne : last ≠ "" := by
      rintro rfl
      exact absurd hlast (by decide)
    simp only at h
    split at h
    next hroot =>
      cases h
      -- Behind the slash of the root there is at least the last segment.
      rw [hsplit, lead_of_isRooted hroot.1, hroot.2, List.nil_append] at hsegments
      have hpos : 0 < last.toList.length := List.length_pos_iff.mpr (by simpa using hne)
      have hrest := Text.length_join_append '/' (noise.map String.toList) last.toList
        (after.map String.toList)
      have htext : p.text.toList =
          '/' :: Text.join '/' ((noise ++ last :: after).map String.toList) := by
        rw [toList_text_eq_join, hsegments, List.singleton_append, List.map_cons,
          Text.join_cons (by simp)]
        rfl
      rw [← String.length_toList, ← String.length_toList, htext, List.map_append, List.map_cons]
      simp only [List.length_cons]
      change 1 < _
      omega
    next =>
      cases h
      rw [hsplit, ← List.append_assoc] at hsegments
      exact length_ofSegments_lt hsegments hne

/-- The path, its parent, the parent of that, and so on, as long as there is one: what the loop of
`find_manifest` goes through. -/
def ancestors (p : Path) : List Path :=
  match h : p.parent? with
  | none => [p]
  | some q =>
    have := length_lt_of_parent? h
    p :: ancestors q
termination_by p.text.length

/-! ## Folding dots -/

/-- The steps that are left after one more, innermost first: the body of the loop of
`normalize_path`.  Two dots take a name away, and at the root they do nothing; where no name is left
to be taken away, they stay. -/
def fold (rooted : Bool) (steps : List Component) : Component → List Component
  | .root => steps
  | .here => steps
  | .up =>
    match steps with
    | .name _ :: rest => rest
    | _ => if rooted then steps else .up :: steps
  | .name text => .name text :: steps

/-- The steps that are left when all dots have been folded, outermost first. -/
def foldedSteps (p : Path) : List Component :=
  (p.components.foldl (fold p.isRooted) []).reverse

/-- The path with its dots folded away by their spelling: `normalize_path`. Each `.` is dropped,
each `..` takes the name in front of it along, and what is left has single slashes. -/
def normalize (p : Path) : Path :=
  let folded := ofSegments (p.foldedSteps.map Component.text)
  if p.isRooted then ⟨"/" ++ folded.text⟩ else folded

end Path

end ElmManifest
