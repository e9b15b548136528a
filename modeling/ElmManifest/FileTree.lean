import ElmManifest.NameMap
import ElmManifest.Path

/-!
# File trees

A snapshot of the files a program can see: what stands where, and which directory relative paths
start from.  All of loading, locating and resolving is a function of such a snapshot.

## Main Definitions

* `Location` — a place in the tree, the names from the innermost one to the root.
* `FileTree` — files and directories at locations, with a working directory.
* `FileTree.locate` — the location a path leads to.
* `FileTree.read`, `FileTree.isFile`, `FileTree.contains`, `FileTree.isDirectory`,
  `FileTree.childNames` — looking.
* `FileTree.write`, `FileTree.makeDirectory`, `FileTree.remove` — the tree after a change.

## Main Statements

* `FileTree.locate_names` — a path that ends with names leads to a location that starts with them.
* `FileTree.mem_entries_of_isFile` — a file is found where the path leads.

## Design Notes

There are no links, so a path is followed segment by segment and two dots always go to the enclosing
directory.  A location is a directory when something is known to be at it or below it, the working
directory included; a file that something stands below is still a file, and nothing below it is
reached.
-/

namespace ElmManifest

/-- A place in a file tree: the names on the way to it, the innermost one first, so that going up is
taking the tail. -/
abbrev Location := List String

/-- What stands at a location. -/
inductive Node where
  /-- A file with its contents. -/
  | file (bytes : ByteArray)
  /-- A directory. -/
  | directory

/-- A snapshot of files and directories. -/
structure FileTree where
  /-- The files and directories; the first entry of a location counts. -/
  entries : List (Location × Node)
  /-- The working directory. -/
  here : Location

/-- Why a path cannot be read. -/
inductive ReadFault where
  /-- There is nothing at the path. -/
  | notFound
  /-- The path goes on behind a file. -/
  | notADirectory
  /-- The path leads to a directory. -/
  | isADirectory
  /-- A name, or the path as a whole, is too long. -/
  | nameTooLong
  /-- The path holds a NUL. -/
  | invalidPath
  deriving DecidableEq

/-- The wording of a fault. -/
def ReadFault.message : ReadFault → String
  | .notFound => "there is no such file"
  | .notADirectory => "part of the path is not a directory"
  | .isADirectory => "it is a directory"
  | .nameTooLong => "the name is too long"
  | .invalidPath => "the path holds a NUL character"

namespace FileTree

/-! ## Following paths -/

/-- Whether a location is another one or lies below it. -/
def isWithin (place : Location) (top : Location) : Bool :=
  top.isSuffixOf place

/-- What stands at a location.  Directories need no entry of their own: whatever something stands
below is one. -/
def nodeAt (t : FileTree) (place : Location) : Option Node :=
  match t.entries.lookup place with
  | some node => some node
  | none =>
    if (t.here :: t.entries.map Prod.fst).any (isWithin · place) then some .directory else none

/-- Whether a location is a directory. -/
def isDirectoryAt (t : FileTree) (place : Location) : Bool :=
  match t.nodeAt place with
  | some .directory => true
  | _ => false

/-- The greatest length of a name, in bytes, that the operating system takes. -/
def maxNameLength : Nat := 255

/-- The greatest length of a path, in bytes, that the operating system takes.  It is the spelling
that counts, so a longer spelling of a path that can be read may be refused. -/
def maxPathLength : Nat := 4095

/-- Follows segments from a location.  Each of them must be entered from a directory, also those
that say nothing and those that are taken back by two dots; the last one may be a file. -/
def walk (t : FileTree) : Location → List String → Except ReadFault Location
  | place, [] => .ok place
  | place, segment :: rest =>
    if t.isDirectoryAt place = false then .error .notADirectory
    else if Path.isNoise segment then walk t place rest
    else if segment = ".." then walk t place.tail rest
    else if maxNameLength < segment.utf8ByteSize then .error .nameTooLong
    else
      match t.nodeAt (segment :: place) with
      | none => .error .notFound
      | some _ => walk t (segment :: place) rest

/-- The directory that a path starts from. -/
def start (t : FileTree) (p : Path) : Location :=
  if p.isRooted then [] else t.here

/-- The location a path leads to.  What the operating system refuses by its spelling alone is
refused before the first segment is followed. -/
def locate (t : FileTree) (p : Path) : Except ReadFault Location :=
  if p.text.toList.contains '\x00' then .error .invalidPath
  else if p.text = "" then .error .notFound
  else if maxPathLength < p.text.utf8ByteSize then .error .nameTooLong
  else t.walk (t.start p) p.segments

/-! ## Looking -/

/-- The contents of the file at a path: `read_file`. -/
def read (t : FileTree) (p : Path) : Except ReadFault ByteArray := do
  match t.nodeAt (← t.locate p) with
  | some (.file bytes) => return bytes
  | some .directory => throw .isADirectory
  | none => throw .notFound

/-- Whether a path leads to a file: `is_file`, which is no for everything that cannot be looked
at. -/
def isFile (t : FileTree) (p : Path) : Bool :=
  match t.read p with
  | .ok _ => true
  | .error _ => false

/-- Whether a path leads anywhere, be it to a file or a directory. -/
def contains (t : FileTree) (p : Path) : Bool :=
  match t.read p with
  | .ok _ => true
  | .error fault => fault == .isADirectory

/-- Whether a path leads to a directory. -/
def isDirectory (t : FileTree) (p : Path) : Bool :=
  match t.locate p with
  | .ok place => t.isDirectoryAt place
  | .error _ => false

/-- The name by which a location is entered on the way to another one. -/
def nameBelow? (top : Location) : Location → Option String
  | [] => none
  | name :: place => if place = top then some name else nameBelow? top place

/-- The names in the directory that a path leads to, in order; none if it leads to no directory.
Names that no directory can have, which a tree that is written down may hold, are left out. -/
def childNames (t : FileTree) (p : Path) : List String :=
  match t.locate p with
  | .error _ => []
  | .ok top =>
    if t.isDirectoryAt top then
      (NameMap.ofList (((t.here :: t.entries.map Prod.fst).filterMap (nameBelow? top)).map
        fun name => (name, ()))).names.filter Path.isEntryName
    else []

/-- Following a path is following its front and then its back. -/
theorem walk_append (t : FileTree) (place : Location) (front back : List String) :
    t.walk place (front ++ back) = (t.walk place front).bind fun middle => t.walk middle back := by
  induction front generalizing place with
  | nil => rfl
  | cons segment rest ih =>
    simp only [List.cons_append, walk]
    split
    · rfl
    · split
      · exact ih place
      · split
        · exact ih place.tail
        · split
          · rfl
          · split
            · rfl
            · exact ih (segment :: place)

/-- Following names leads to the location of these names. -/
theorem walk_names {t : FileTree} {place found : Location} {names : List String}
    (hn : ∀ name ∈ names, Path.isName name = true) (h : t.walk place names = .ok found) :
    found = names.reverse ++ place := by
  induction names generalizing place with
  | nil => simpa [walk] using h.symm
  | cons name rest ih =>
    have hname := hn name (List.mem_cons_self ..)
    simp only [Path.isName, Bool.and_eq_true, Bool.not_eq_true', bne_iff_ne] at hname
    simp only [walk, hname.1, hname.2, if_false, Bool.false_eq_true] at h
    split at h
    · simp at h
    · split at h
      · simp at h
      · split at h
        · simp at h
        · rw [ih (fun n hm => hn n (List.mem_cons_of_mem _ hm)) h]
          simp

/-- A path that ends with names leads to a location that starts with them. -/
theorem locate_names {t : FileTree} {p : Path} {front names : List String} {found : Location}
    (hp : p.segments = front ++ names) (hn : ∀ name ∈ names, Path.isName name = true)
    (h : t.locate p = .ok found) : ∃ top, found = names.reverse ++ top := by
  unfold locate at h
  split at h
  · simp at h
  · split at h
    · simp at h
    · split at h
      · simp at h
      · rw [hp, walk_append] at h
        cases hw : t.walk (t.start p) front with
        | error => simp [hw, Except.bind] at h
        | ok middle =>
          rw [hw] at h
          exact ⟨middle, walk_names hn h⟩

/-- A file is found where the path leads. -/
theorem mem_entries_of_isFile {t : FileTree} {p : Path} (h : t.isFile p = true) :
    ∃ place bytes, t.locate p = .ok place ∧ (place, .file bytes) ∈ t.entries := by
  unfold isFile read at h
  cases hl : t.locate p with
  | error => simp [hl, bind, Except.bind] at h
  | ok place =>
    simp only [hl, bind, Except.bind, pure, Except.pure] at h
    cases hnode : t.nodeAt place with
    | none => simp [hnode, throw, throwThe, MonadExceptOf.throw] at h
    | some node =>
      cases node with
      | directory => simp [hnode, throw, throwThe, MonadExceptOf.throw] at h
      | file bytes =>
        refine ⟨place, bytes, rfl, ?_⟩
        unfold nodeAt at hnode
        split at hnode
        next found hf =>
          obtain rfl := Option.some.inj hnode
          obtain ⟨l₁, l₂, he, -⟩ := List.lookup_eq_some_iff.mp hf
          rw [he]
          simp
        next => split at hnode <;> simp at hnode

/-! ## Changing -/

/-- The location that segments name, whether or not anything stands there. -/
def follow (place : Location) (segments : List String) : Location :=
  segments.foldl (fun place segment =>
    if Path.isNoise segment then place
    else if segment = ".." then place.tail
    else segment :: place) place

/-- The location that a path names, whether or not anything stands there. -/
def target (t : FileTree) (p : Path) : Location :=
  follow (t.start p) p.segments

/-- The tree with a directory at a location, unless something stands there already. -/
def addDirectory (t : FileTree) (place : Location) : FileTree :=
  match t.nodeAt place with
  | some _ => t
  | none => { t with entries := (place, .directory) :: t.entries }

/-- The tree with a directory at every location that segments lead through.  A name that two dots
take back has been entered all the same, so there is a directory of that name too. -/
def addDirectories (t : FileTree) (place : Location) : List String → FileTree
  | [] => t
  | segment :: rest =>
    if Path.isNoise segment then t.addDirectories place rest
    else if segment = ".." then t.addDirectories place.tail rest
    else (t.addDirectory (segment :: place)).addDirectories (segment :: place) rest

/-- The tree with a directory at a path, and directories on the way to it. -/
def makeDirectory (t : FileTree) (p : Path) : FileTree :=
  t.addDirectories (t.start p) p.segments

/-- The tree with a file at a path, and directories on the way to it. -/
def write (t : FileTree) (p : Path) (bytes : ByteArray) : FileTree :=
  let place := t.target p
  let t := p.parent?.elim t t.makeDirectory
  { t with entries := (place, .file bytes) :: t.entries.filter fun entry => entry.1 != place }

/-- The tree without what stands at a path and below it; the directory above stays. -/
def remove (t : FileTree) (p : Path) : FileTree :=
  match t.locate p with
  | .error _ => t
  | .ok place =>
    { t with
      entries := (place.tail, .directory) :: t.entries.filter fun entry =>
        !isWithin entry.1 place && entry.1 != place.tail }

/-- The tree that holds nothing but its working directory. -/
def empty (here : Location) : FileTree := ⟨[], here⟩

end FileTree

end ElmManifest
