import ElmManifest.Text.Digits
import ElmManifest.Text.Quoted
import ElmManifest.Version.Basic

/-!
# Reading versions

A version is written `MAJOR.MINOR.PATCH`, then optionally `-` and pre-release parts, then optionally
`+` and build parts, parts being separated by dots.  The reader goes from left to right and reports
the first thing that is wrong, and where.

## Main Definitions

* `Version.Fault` — what can be wrong, and `Version.Fault.message`, its wording.
* `Version.read` — the reader.
* `InvalidVersion` — a text that is no version, with its fault.
* `Version.parse` — the reader on a `String`.

## Design Notes

The numbers are read before the tags, and a tag is cut into its parts before any of them is looked
at: the longest run of tag characters and dots *is* the tag, since whatever ends that run ends the
tag.
-/

namespace ElmManifest

namespace Version

/-- The parts of a version, as error messages name them. -/
inductive Position where
  | major
  | minor
  | patch
  | preRelease
  | build
  deriving DecidableEq

/-- The name of a part. -/
def Position.text : Position → String
  | .major => "major version number"
  | .minor => "minor version number"
  | .patch => "patch version number"
  | .preRelease => "pre-release identifier"
  | .build => "build metadata"

/-- What can be wrong with a version. -/
inductive Fault where
  /-- The text is empty. -/
  | empty
  /-- A number was due and something else stands there. -/
  | unexpected (c : Char) (position : Position)
  /-- A part is complete and something stands behind it that cannot follow. -/
  | unexpectedAfter (c : Char) (position : Position)
  /-- The text ends where a number or a dot was due. -/
  | unexpectedEnd (position : Position)
  /-- A number is written with a leading zero. -/
  | leadingZero (position : Position)
  /-- A number does not fit in 64 bits. -/
  | tooLarge (position : Position)
  /-- A tag has an empty part. -/
  | emptySegment (position : Position)
  deriving DecidableEq

/-- The wording of a fault. -/
def Fault.message : Fault → String
  | .empty => "empty string, expected a semver version"
  | .unexpected c p => "unexpected character " ++ Text.quoteChar c ++ " while parsing " ++ p.text
  | .unexpectedAfter c p => "unexpected character " ++ Text.quoteChar c ++ " after " ++ p.text
  | .unexpectedEnd p => "unexpected end of input while parsing " ++ p.text
  | .leadingZero p => "invalid leading zero in " ++ p.text
  | .tooLarge p => "value of " ++ p.text ++ " exceeds u64::MAX"
  | .emptySegment p => "empty identifier segment in " ++ p.text

/-- Reads a number: digits without a leading zero, of a value that fits in 64 bits.  A value that
does not fit is a fault of its own and never wraps around. -/
def readNumber (position : Position) (text : List Char) : Except Fault (UInt64 × List Char) :=
  match text.takeWhile Char.isDigit, text.dropWhile Char.isDigit with
  | [], [] => .error (.unexpectedEnd position)
  | [], c :: _ => .error (.unexpected c position)
  | '0' :: _ :: _, _ => .error (.leadingZero position)
  | digits, rest =>
    if Text.digitsValue digits < UInt64.size then .ok (UInt64.ofNat (Text.digitsValue digits), rest)
    else .error (.tooLarge position)

/-- Reads the dot behind a number. -/
def readDot (position : Position) : List Char → Except Fault (List Char)
  | '.' :: rest => .ok rest
  | c :: _ => .error (.unexpectedAfter c position)
  | [] => .error (.unexpectedEnd position)

/-- Reads one part of a tag.  Whether it is a number with a leading zero is not asked here, as that
matters in front of a plus sign only. -/
def readIdentifier (position : Position) (part : List Char) : Except Fault Identifier :=
  if h : part ≠ [] ∧ part.all isTagCharacter = true then
    .ok ⟨String.ofList part, by simpa using h.1, by simpa using h.2⟩
  else .error (.emptySegment position)

/-- The parts of a tag, checked from left to right. -/
def readParts (position : Position) : List (List Char) → Except Fault (List Identifier)
  | [] => .ok []
  | part :: parts => do
    let first ← readIdentifier position part
    if position = .preRelease ∧ first.hasLeadingZero then throw (.leadingZero position)
    return first :: (← readParts position parts)

/-- Whether a character belongs to a tag: it is part of an identifier or separates two. -/
def isTagText (c : Char) : Bool :=
  isTagCharacter c || c == '.'

/-- Reads a tag behind its mark: the parts of the longest run of tag text.  What ends the run is
looked at by the caller. -/
def readTag (position : Position) (text : List Char) :
    Except Fault (List Identifier × List Char) := do
  let parts ← readParts position (Text.split '.' (text.takeWhile isTagText))
  return (parts, text.dropWhile isTagText)

/-- Reads a tag if the text goes on with its mark; without the mark there is no tag, which is no
fault. -/
def readTagAfter (mark : Char) (position : Position) (text : List Char) :
    Except Fault (List Identifier × List Char) :=
  match text with
  | c :: rest => if c = mark then readTag position rest else .ok ([], text)
  | [] => .ok ([], [])

/-- The part that was read last, which a message about a leftover character names. -/
def lastPosition (preRelease build : List Identifier) : Position :=
  if build ≠ [] then .build else if preRelease ≠ [] then .preRelease else .patch

/-- A release with tags, if the pre-release numbers are plain.  Build parts are not ordered by
anyone, so a number among them may have leading zeros. -/
def ofParts (release : Release) (preRelease build : List Identifier) : Except Fault Version :=
  if h : ∀ i ∈ preRelease, i.hasLeadingZero = false then .ok ⟨release, preRelease, build, h⟩
  else .error (.leadingZero .preRelease)

/-- Reads a version: the three numbers with dots between them, then the tags, then the end of the
text. -/
def read (text : List Char) : Except Fault Version := do
  if text = [] then throw .empty
  let (major, text) ← readNumber .major text
  let text ← readDot .major text
  let (minor, text) ← readNumber .minor text
  let text ← readDot .minor text
  let (patch, text) ← readNumber .patch text
  let (preRelease, text) ← readTagAfter '-' .preRelease text
  let (build, text) ← readTagAfter '+' .build text
  match text with
  | [] => ofParts ⟨major, minor, patch⟩ preRelease build
  | c :: _ => throw (.unexpectedAfter c (lastPosition preRelease build))

end Version

/-- A text that is no version. -/
structure InvalidVersion where
  /-- The text. -/
  input : String
  /-- What is wrong with it. -/
  fault : Version.Fault
  deriving DecidableEq

/-- The wording of the error, which repeats the text that was given. -/
def InvalidVersion.message (e : InvalidVersion) : String :=
  "invalid version '" ++ e.input ++ "': " ++ e.fault.message

/-- Reads a version from a text that holds nothing else: `parse`.  The only result besides a version
is an error that holds the text and what is wrong with it. -/
def Version.parse (input : String) : Except InvalidVersion Version :=
  (Version.read input.toList).mapError fun fault => ⟨input, fault⟩

end ElmManifest
