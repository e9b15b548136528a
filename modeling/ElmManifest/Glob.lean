import ElmManifest.FileTree
import ElmManifest.OsPath
import ElmManifest.Pattern

/-!
# Listing by a pattern

A pattern for paths is cut at its slashes, and the listing library enters the tree by one piece
after the other.  A piece with nothing special in it names the one way on, which is taken if it is
there; any other piece selects among the entries of the directory that has been reached.

## Main Definitions

* `FileTree.glob` — the paths in a file tree that match a pattern.
* `Disk` — the files, as a program can ask for them by paths of the operating system.
* `FileTree.disk` — a file tree as a disk.

## Design Notes

The walk starts at the root or at the working directory, and a path is spelled by the way it has
been reached: what is in the working directory goes by its name, and everything else is joined to
the directory it is in.  So empty pieces leave no trace but a slash that is there anyway, and a dot
in front of the pattern leaves none at all.  An empty piece right behind such a dot would be the
empty name in the working directory.  There is nothing of that name, so nothing matches.

The two dots of a directory are none of its entries, so they are entered by a piece that spells them
and by no other one.
-/

namespace ElmManifest

namespace FileTree

/-- A name in the directory that the walk has reached, spelled as the listing library does: in the
working directory a name stands alone, and everywhere else it is joined. -/
def enter (p : Path) (name : String) : Path :=
  if p.text = "." then ⟨name⟩ else p / name

/-- Whether the walk can go on by a name: dots only ask for a directory to be gone on from. -/
def admits (t : FileTree) (p : Path) (name : String) : Bool :=
  if name = "." ∨ name = ".." then t.isDirectory p else t.contains (enter p name)

/-- Where the walk goes by one piece of the pattern: one way at most for a piece that is a name, and
one way for each entry that a piece with something special in it stands for. -/
def globStep (t : FileTree) (p : Path) (pattern : Pattern) : List Path :=
  match pattern.literal? with
  | some name => if t.admits p name then [enter p name] else []
  | none => ((t.childNames p).filter pattern.takes).map (enter p)

/-- Where the walk goes by the pieces of the pattern, the ways by the first entry in front of those
by the next one. -/
def globFrom (t : FileTree) (p : Path) : List Pattern → List Path
  | [] => [p]
  | pattern :: rest => (t.globStep p pattern).flatMap fun q => t.globFrom q rest

/-- The paths that match a pattern, in order of the names they go through: `glob`.  A pattern that
cannot be read matches nothing. -/
def glob (t : FileTree) (pattern : String) : List Path :=
  let spelled : Path := ⟨pattern⟩
  let start : Path := if spelled.isRooted then ⟨"/"⟩ else ⟨"."⟩
  let pieces := if spelled.isRooted then spelled.segments.drop 1 else spelled.segments
  match pieces.mapM Pattern.read? with
  | none => []
  | some patterns => t.globFrom start patterns

theorem contains_of_isFile {t : FileTree} {p : Path} (h : t.isFile p = true) :
    t.contains p = true := by
  unfold isFile at h
  unfold contains
  split at h
  · rfl
  · cases h

end FileTree

/-! ## Disks -/

/-- The files, as a program can ask for them by paths of the operating system, together with the
listing library.  Nothing is said of the library here, so what is assumed of it has to be a
hypothesis where it is used. -/
structure Disk where
  /-- Whether there is anything at a path. -/
  contains : OsPath → Bool
  /-- Whether there is a file at a path. -/
  isFile : OsPath → Bool
  /-- What is a file is there. -/
  contains_of_isFile : ∀ path, isFile path = true → contains path = true
  /-- The paths that are listed by a pattern, in order; none if it is no pattern. -/
  glob : String → List OsPath

/-- A file tree as a disk.  All names in it are texts, so there is nothing at other paths. -/
def FileTree.disk (t : FileTree) : Disk where
  contains path := path.toPath?.any t.contains
  isFile path := path.toPath?.any t.isFile
  contains_of_isFile path := by
    cases path.toPath? with
    | none => exact id
    | some p => exact contains_of_isFile
  glob pattern := (t.glob pattern).map .ofPath

end ElmManifest
