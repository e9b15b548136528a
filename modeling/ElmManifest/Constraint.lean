import ElmManifest.Text.Blank
import ElmManifest.Version.Reader

/-!
# Version constraints

A package manifest declares which versions of a dependency it accepts as an interval with explicit
ends, `1.0.0 <= v < 2.0.0`.  A second spelling, `>=1.0.0 <2.0.0`, is read as well; only the first
one is ever written.

## Main Definitions

* `Constraint` — an interval of releases, each end included or not.
* `Constraint.contains` — membership.
* `Constraint.selectMinimum` — the smallest member of a list.
* `Constraint.text` and `Constraint.parse` — the written form and its reader.

## Design Notes

The reader deletes blanks and commas before it looks at anything else, so neither can separate two
tokens: `1.0. 0` is read as `1.0.0`.  An interval may be empty (`1.0.0 < v < 1.0.0`); only a lower
end that lies above the upper one is refused, and only by the reader.
-/

namespace ElmManifest

/-- An interval of releases.  The ends are whole versions because they are written back with their
tags, but the tags say nothing about what the interval contains. -/
structure Constraint where
  /-- The lower end. -/
  lower : Version
  /-- Whether the lower end belongs to the interval. -/
  lowerInclusive : Bool
  /-- The upper end. -/
  upper : Version
  /-- Whether the upper end belongs to the interval. -/
  upperInclusive : Bool
  deriving DecidableEq

namespace Constraint

/-- Whether a version lies between the ends: `contains`.  Each end counts or not by its own flag. -/
def contains (c : Constraint) (v : Version) : Bool :=
  (if c.lowerInclusive then decide (c.lower.toRelease ≤ v.toRelease)
    else decide (c.lower.toRelease < v.toRelease)) &&
  (if c.upperInclusive then decide (v.toRelease ≤ c.upper.toRelease)
    else decide (v.toRelease < c.upper.toRelease))

/-- The smallest listed version that the constraint contains; of several with that release, the one
listed first: `select_minimum`. -/
def selectMinimum (c : Constraint) (versions : List Version) : Option Version :=
  match versions.filter c.contains with
  | [] => none
  | v :: rest => some (rest.foldl Version.earlier v)

/-- The ends with their inclusivity, tags aside: all that decides what the constraint contains. -/
def interval (c : Constraint) : (Release × Bool) × (Release × Bool) :=
  ((c.lower.toRelease, c.lowerInclusive), (c.upper.toRelease, c.upperInclusive))

/-- Two constraints with the same ends, tags aside: the `==` of constraints. -/
def SameInterval (a b : Constraint) : Prop :=
  a.interval = b.interval

instance (a b : Constraint) : Decidable (a.SameInterval b) :=
  inferInstanceAs (Decidable (a.interval = b.interval))

/-! ## The written form -/

/-- The comparison sign for an end.  Both ends are written with the smaller side on the left, so
there is one pair of signs for both. -/
def signText (inclusive : Bool) : String :=
  if inclusive then "<=" else "<"

/-- The constraint as manifests write it, whichever of the two spellings it was read from. -/
def text (c : Constraint) : String :=
  c.lower.text ++ " " ++ signText c.lowerInclusive ++ " v " ++ signText c.upperInclusive ++ " " ++
    c.upper.text

instance : ToString Constraint := ⟨text⟩

/-! ## Reading -/

/-- What can be wrong with a constraint. -/
inductive Fault where
  /-- The text starts with `>` and is not of the comparator form. -/
  | notComparators
  /-- The text is not of the form that manifests write. -/
  | notInterval
  /-- An end is no version. -/
  | badEnd (error : InvalidVersion)
  /-- The lower end lies above the upper one. -/
  | reversed
  deriving DecidableEq

/-- The wording of a fault. -/
def Fault.message : Fault → String
  | .notComparators => "expected '>=LOWER <UPPER'"
  | .notInterval => "expected 'LOWER <= v < UPPER'"
  | .badEnd error => error.message
  | .reversed => "lower bound is greater than upper bound"

/-- The texts of the two ends with their inclusivity, before they are read as versions. -/
structure Ends where
  /-- The text of the lower end. -/
  lower : List Char
  /-- Whether the lower end belongs to the interval. -/
  lowerInclusive : Bool
  /-- The text of the upper end. -/
  upper : List Char
  /-- Whether the upper end belongs to the interval. -/
  upperInclusive : Bool

/-- The text without blanks and commas, on which both readers work.  A blank inside a number goes as
well, so digits on its two sides become one number. -/
def compact (text : List Char) : List Char :=
  text.filter fun c => !Text.isBlank c && c != ','

/-- The middles of the interval form with the inclusivity of both ends.  Where one middle is the
start of another, the longer one comes first. -/
def middles : List (List Char × Bool × Bool) :=
  [("<=v<=".toList, true, true), ("<=v<".toList, true, false),
    ("<v<=".toList, false, true), ("<v<".toList, false, false)]

/-- The ends around the first occurrence of the first middle that occurs: `split_elm_form`.  The
middles are tried over the whole text one by one, so what decides is their order and not the place
in the text. -/
def intervalEnds? (text : List Char) : Option Ends :=
  middles.findSome? fun (middle, lowerInclusive, upperInclusive) =>
    (Text.cut middle text).map fun (lower, upper) =>
      ⟨lower, lowerInclusive, upper, upperInclusive⟩

/-- Takes an equals sign off the front, and says whether there was one. -/
def takeEquals : List Char → Bool × List Char
  | '=' :: rest => (true, rest)
  | text => (false, text)

/-- The ends of the comparator form: `split_comparator_form`.  The lower end goes up to the first
sign that opens the upper one. -/
def comparatorEnds? : List Char → Option Ends
  | '>' :: rest => do
    let (lowerInclusive, rest) := takeEquals rest
    let (lower, rest) ← Text.cut ['<'] rest
    let (upperInclusive, upper) := takeEquals rest
    return ⟨lower, lowerInclusive, upper, upperInclusive⟩
  | _ => none

/-- Tells the two forms apart by their first character and finds the ends.  There is no way back: a
text that starts with `>` is refused as a pair of comparators, even where it has a middle. -/
def readEnds (text : List Char) : Except Fault Ends :=
  if text.head? = some '>' then
    match comparatorEnds? text with
    | some ends => .ok ends
    | none => .error .notComparators
  else
    match intervalEnds? text with
    | some ends => .ok ends
    | none => .error .notInterval

/-- Reads an end as a version, tags and all. -/
def readEnd (text : List Char) : Except Fault Version :=
  (Version.parse (String.ofList text)).mapError .badEnd

/-- Reads a constraint: the form first, then the lower end, then the upper one, then their order.
The first of these that is wrong is the fault. -/
def read (text : List Char) : Except Fault Constraint := do
  let ends ← readEnds (compact text)
  let lower ← readEnd ends.lower
  let upper ← readEnd ends.upper
  if upper.toRelease < lower.toRelease then throw .reversed
  return ⟨lower, ends.lowerInclusive, upper, ends.upperInclusive⟩

end Constraint

/-- A text that is no constraint. -/
structure InvalidConstraint where
  /-- The text. -/
  input : String
  /-- What is wrong with it. -/
  fault : Constraint.Fault
  deriving DecidableEq

/-- The wording of the error, which repeats the text as it was given and not as it was compacted. -/
def InvalidConstraint.message (e : InvalidConstraint) : String :=
  "invalid constraint '" ++ e.input ++ "': " ++ e.fault.message

/-- Reads a constraint from a text that holds nothing else: `parse`. -/
def Constraint.parse (input : String) : Except InvalidConstraint Constraint :=
  (Constraint.read input.toList).mapError fun fault => ⟨input, fault⟩

end ElmManifest
