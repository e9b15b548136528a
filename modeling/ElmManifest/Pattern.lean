/-!
# Patterns for names

The versions of a package are listed by a pattern for the paths of their manifests.  Between two
slashes, a pattern is read as the listing library documents it: `?` is any character and `*` any
characters at all, and a pair of brackets is one of the characters in it, where `a-z` is a range and
`!` in front is all others.  To stand for itself, such a character is put into brackets.

## Main Definitions

* `Pattern` — the tokens of a pattern for one name, and `Pattern.takes`.
* `Pattern.read?` — the pattern that a text spells.
* `Pattern.literal?` — the name, for a pattern without anything special.
* `Pattern.escape` — the pattern that stands for a text.

## Design Notes

Inside brackets, the first character is always one of the set, so that `[]]` is a bracket; behind a
`!` this holds of the next one.  Two stars stand for directories of any depth in the library.
Nothing asks for such a pattern here, and it is refused like brackets that are not closed.
-/

namespace ElmManifest

/-- What a place in a pattern stands for. -/
inductive Token where
  /-- The character itself. -/
  | char (c : Char)
  /-- Any character. -/
  | any
  /-- Any number of characters. -/
  | many
  /-- One of the characters between brackets, as they are spelled there. -/
  | among (set : List Char)
  deriving DecidableEq

/-- The character, for a token that stands for one only. -/
def Token.char? : Token → Option Char
  | .char c => some c
  | _ => none

/-- A pattern for the name of a file or directory.  What stands between two slashes is matched by
itself, so no token ever stands for a slash. -/
abbrev Pattern := List Token

namespace Pattern

/-! ## Matching -/

/-- Whether a character is in a list of characters and ranges. -/
def isListed (c : Char) : List Char → Bool
  | first :: '-' :: last :: rest => first ≤ c && c ≤ last || isListed c rest
  | member :: rest => c == member || isListed c rest
  | [] => false

/-- Whether a character is one of those between brackets. -/
def isAmong (c : Char) : List Char → Bool
  | '!' :: set => !isListed c set
  | set => isListed c set

/-- Whether the characters are those that the tokens stand for, one after the other; a token for any
number of characters may stand for none. -/
def takesChars : Pattern → List Char → Bool
  | [], text => text.isEmpty
  | .many :: rest, text =>
    (List.range (text.length + 1)).any fun n => takesChars rest (text.drop n)
  | .char c :: rest, first :: text => first == c && takesChars rest text
  | .any :: rest, _ :: text => takesChars rest text
  | .among set :: rest, first :: text => isAmong first set && takesChars rest text
  | _ :: _, [] => false

/-- Whether a name is one that the pattern stands for. -/
def takes (pattern : Pattern) (name : String) : Bool :=
  takesChars pattern name.toList

/-- The name, for a pattern that stands for one because nothing in it is special.  Brackets are
special even around one character, so a name that was escaped is looked for in the directory. -/
def literal? (pattern : Pattern) : Option String :=
  (pattern.mapM Token.char?).map String.ofList

/-! ## Reading -/

/-- The tokens of a text.  Behind an opening bracket, the first argument is what has been met of the
set; a closing bracket ends the set, unless the set would have nothing in it. -/
def readChars : Option (List Char) → List Char → Option Pattern
  | none, [] => some []
  | some _, [] => none
  | some set, c :: rest =>
    if c = ']' ∧ set ≠ [] ∧ set ≠ ['!'] then (readChars none rest).map (.among set :: ·)
    else readChars (some (set ++ [c])) rest
  | none, '[' :: rest => readChars (some []) rest
  | none, '?' :: rest => (readChars none rest).map (.any :: ·)
  | none, '*' :: '*' :: _ => none
  | none, '*' :: rest => (readChars none rest).map (.many :: ·)
  | none, c :: rest => (readChars none rest).map (.char c :: ·)

/-- The pattern that a text spells, if it spells one. -/
def read? (text : String) : Option Pattern :=
  readChars none text.toList

/-! ## Escaping -/

/-- Whether a character means something in a pattern, other than itself. -/
def isSpecial (c : Char) : Bool :=
  c == '?' || c == '*' || c == '[' || c == ']'

/-- A character as it stands for itself. -/
def escapeChar (c : Char) : List Char :=
  if isSpecial c then ['[', c, ']'] else [c]

/-- The pattern that stands for a text: `Pattern::escape`.  Each special character is put into
brackets, and every other one stands for itself. -/
def escape (text : String) : String :=
  String.ofList (text.toList.flatMap escapeChar)

end Pattern

end ElmManifest
