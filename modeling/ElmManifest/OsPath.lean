import ElmManifest.Path
import ElmManifest.Text.Utf8

/-!
# Paths of the operating system

A `Path` is a text.  What the operating system takes for a path is bytes, and the home directory of
the compiler's tools may be any bytes: it comes out of the environment as it is.  Most of the
program never looks at it, but puts names behind it and hands the result back.  Only a listing reads
it, since a pattern is a text.

## Main Definitions

* `OsPath` — a path in bytes, and `OsPath.join` (written `/`), which puts a name behind it.
* `OsPath.ofPath` — a path that is a text, in bytes; `OsPath.toPath?` is the way back.
* `OsPath.lossy` — a text for the path.
* `OsPath.steps` — what the path goes through, without the segments that say nothing.
* `OsPath.parentName?` — the name of the directory that the path ends in.

## Main Statements

* `OsPath.toPath?_ofPath`, `OsPath.eq_ofPath` — a path that is a text is that text.
* `OsPath.lossy_ofPath` — a path that is a text is not changed by reading it.
-/

namespace ElmManifest

/-- A path as the operating system takes it: any bytes. -/
structure OsPath where
  /-- The bytes of the path. -/
  bytes : List UInt8
  deriving DecidableEq

namespace OsPath

/-- The byte of a slash. -/
def slash : UInt8 := 0x2F

/-! ## Paths and texts -/

/-- A path that is a text, in bytes. -/
def ofPath (p : Path) : OsPath := ⟨utf8Bytes p.text⟩

/-- The path as a text, if it is one: `to_str`. -/
def toPath? (p : OsPath) : Option Path :=
  (Text.Utf8.decode? ⟨p.bytes.toArray⟩).map Path.mk

/-- A text for the path, with U+FFFD for what is none: `to_string_lossy`.  Two paths may have one
text, and that text is then the spelling of a third path. -/
def lossy (p : OsPath) : String :=
  Text.Utf8.lossy ⟨p.bytes.toArray⟩

/-- The bytes of a text in an array are that text in UTF-8. -/
theorem mk_utf8Bytes (text : String) : ByteArray.mk (utf8Bytes text).toArray = text.toUTF8 := by
  simp [utf8Bytes]

@[simp] theorem toPath?_ofPath (p : Path) : (ofPath p).toPath? = some p := by
  rw [toPath?, ofPath, mk_utf8Bytes, Text.Utf8.decode?_toUTF8, Option.map_some]

theorem eq_ofPath {p : OsPath} {q : Path} (h : p.toPath? = some q) : p = ofPath q := by
  obtain ⟨text, htext, rfl⟩ := Option.map_eq_some_iff.mp h
  have hbytes := congrArg (·.data.toList) (Text.Utf8.eq_of_decode? htext)
  rw [OsPath.mk.injEq]
  exact hbytes

@[simp] theorem lossy_ofPath (p : Path) : (ofPath p).lossy = p.text := by
  rw [lossy, ofPath, mk_utf8Bytes, Text.Utf8.lossy_toUTF8]

/-! ## Segments -/

/-- Whether the path starts at the root. -/
def isRooted (p : OsPath) : Bool :=
  p.bytes.head? == some slash

/-- The path with a name behind it.  Like `Path.join`, this keeps the spelling of both. -/
def join (p : OsPath) (name : String) : OsPath :=
  let bytes := utf8Bytes name
  if bytes.head? = some slash then ⟨bytes⟩
  else if p.bytes = [] ∨ p.bytes.getLast? = some slash then ⟨p.bytes ++ bytes⟩
  else ⟨p.bytes ++ slash :: bytes⟩

instance : HDiv OsPath String OsPath := ⟨join⟩

/-- What the path goes through: the pieces between its slashes, without those that are empty or a
dot. -/
def steps (p : OsPath) : List (List UInt8) :=
  (Text.split slash p.bytes).filter fun step => step ≠ [] ∧ step ≠ utf8Bytes "."

/-- The name of the directory that the path ends in, if it is a name and a text: `to_str` of the
`file_name` of the `parent`. -/
def parentName? (p : OsPath) : Option String :=
  match p.steps.reverse with
  | _ :: name :: _ =>
    if name = utf8Bytes ".." then none else Text.Utf8.decode? ⟨name.toArray⟩
  | _ => none

end OsPath

end ElmManifest
