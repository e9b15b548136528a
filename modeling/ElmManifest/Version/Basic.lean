import ElmManifest.Text.Split

/-!
# Versions

A published package carries a *release*, three numbers, and may carry tags behind it: pre-release
identifiers after a `-`, build identifiers after a `+`.  The tags are for display.  What a version
**is**, for ordering, for lookups and for telling two versions apart, is its release alone.

## Main Definitions

* `Release` — the three numbers, in lexicographic order.
* `Identifier` — one dot-separated part of a tag.
* `Version` — a release with its tags.
* `Version.SameRelease` — two spellings of the same version.
* `VersionSet` — versions in ascending order, at most one per release.

## Design Notes

The numbers are 64-bit words: a larger number is refused by the reader and never wraps.  The rules
of the tag grammar are fields of the types, so every `Version` has a spelling that reads back to it,
and a spelling is always a single path segment.
-/

namespace ElmManifest

/-! ## Releases -/

/-- The three numbers of a version: the `triple` that equality, order and hashing look at. -/
structure Release where
  /-- Raised by changes that break callers. -/
  major : UInt64
  /-- Raised by additions. -/
  minor : UInt64
  /-- Raised by fixes. -/
  patch : UInt64
  deriving DecidableEq

namespace Release

/-- Releases compare by major number, then minor, then patch. -/
def cmp (a b : Release) : Ordering :=
  (compare a.major b.major).then ((compare a.minor b.minor).then (compare a.patch b.patch))

instance : LT Release := ⟨fun a b => a.cmp b = .lt⟩

instance : LE Release := ⟨fun a b => a.cmp b ≠ .gt⟩

instance (a b : Release) : Decidable (a < b) := inferInstanceAs (Decidable (a.cmp b = .lt))

instance (a b : Release) : Decidable (a ≤ b) := inferInstanceAs (Decidable (a.cmp b ≠ .gt))

/-- The numbers with dots between them, each without leading zeros. -/
def text (r : Release) : String :=
  toString r.major.toNat ++ "." ++ toString r.minor.toNat ++ "." ++ toString r.patch.toNat

private theorem compare_lt_iff {a b : UInt64} : compare a b = .lt ↔ a.toNat < b.toNat := by
  rw [← UInt64.lt_iff_toNat_lt]
  simp only [compare, compareOfLessAndEq]
  split
  · simp [*]
  · split <;> simp [*]

private theorem compare_eq_iff {a b : UInt64} : compare a b = .eq ↔ a.toNat = b.toNat := by
  rw [UInt64.toNat_inj]
  simp only [compare, compareOfLessAndEq]
  split
  next h => simp; intro e; subst e; exact absurd h (by simp)
  next => split <;> simp [*]

/-- The order of releases, spelled out on their numbers. -/
theorem lt_iff {a b : Release} : a < b ↔
    a.major.toNat < b.major.toNat ∨ a.major.toNat = b.major.toNat ∧
      (a.minor.toNat < b.minor.toNat ∨ a.minor.toNat = b.minor.toNat ∧
        a.patch.toNat < b.patch.toNat) := by
  change a.cmp b = .lt ↔ _
  simp only [cmp, Ordering.then_eq_lt, compare_lt_iff, compare_eq_iff]

theorem ext_toNat {a b : Release} (h₁ : a.major.toNat = b.major.toNat)
    (h₂ : a.minor.toNat = b.minor.toNat) (h₃ : a.patch.toNat = b.patch.toNat) : a = b := by
  cases a; cases b
  simp only [mk.injEq, ← UInt64.toNat_inj]
  exact ⟨h₁, h₂, h₃⟩

private theorem lt_trans {a b c : Release} (h₁ : a < b) (h₂ : b < c) : a < c := by
  rw [lt_iff] at *; omega

/-- Of two releases that are not the same, one comes first. -/
private theorem lt_or_eq_or_gt (a b : Release) : a < b ∨ a = b ∨ b < a := by
  rw [lt_iff, lt_iff]
  by_cases h : a = b
  · exact .inr (.inl h)
  · have : ¬ (a.major.toNat = b.major.toNat ∧ a.minor.toNat = b.minor.toNat ∧
        a.patch.toNat = b.patch.toNat) := fun e => h (ext_toNat e.1 e.2.1 e.2.2)
    omega

end Release

/-! ## Tags -/

/-- The characters of a tag: ASCII letters and digits, and the hyphen. -/
def isTagCharacter (c : Char) : Bool :=
  c.isAlphanum || c == '-'

/-- One part of a tag: one or more tag characters. -/
structure Identifier where
  /-- The part as written. -/
  text : String
  /-- A part is never empty. -/
  nonempty : text.toList ≠ []
  /-- A part holds nothing but tag characters. -/
  tagged : ∀ c ∈ text.toList, isTagCharacter c = true
  deriving DecidableEq

/-- Whether the part is a number written with a leading zero. -/
def Identifier.hasLeadingZero (i : Identifier) : Bool :=
  i.text.toList.all Char.isDigit && 1 < i.text.toList.length && i.text.toList.head? == some '0'

/-! ## Versions -/

/-- A release with its tags.  The tags are kept for display only, so most functions of a version are
functions of its release. -/
structure Version extends Release where
  /-- The parts after the `-`; none when the version has no pre-release tag. -/
  preRelease : List Identifier
  /-- The parts after the `+`; none when the version has no build tag. -/
  build : List Identifier
  /-- A number in a pre-release tag has no leading zero. -/
  plain : ∀ i ∈ preRelease, i.hasLeadingZero = false
  deriving DecidableEq

namespace Version

/-- The version with the given numbers and no tags: `new`. -/
def ofNumbers (major minor patch : UInt64) : Version :=
  ⟨⟨major, minor, patch⟩, [], [], by simp⟩

/-- A tag with its mark in front, or nothing when it has no parts: a mark is never written alone. -/
def tagText (mark : String) (parts : List Identifier) : String :=
  if parts = [] then "" else mark ++ ".".intercalate (parts.map Identifier.text)

/-- The tags as written, marks included: the pre-release part behind a hyphen, then the build part
behind a plus sign. -/
def suffixText (v : Version) : String :=
  tagText "-" v.preRelease ++ tagText "+" v.build

/-- The tags as written, for a version that has any: `suffix`. -/
def suffix? (v : Version) : Option String :=
  if v.preRelease = [] ∧ v.build = [] then none else some v.suffixText

/-- The version as written: its numbers, then its tags.  This is the spelling under which a cache
keeps the version, so here the tags do matter. -/
def text (v : Version) : String :=
  v.toRelease.text ++ v.suffixText

instance : ToString Version := ⟨text⟩

/-- Two spellings of the same version: the tags do not matter.  This is the `==` of versions. -/
def SameRelease (a b : Version) : Prop :=
  a.toRelease = b.toRelease

instance (a b : Version) : Decidable (a.SameRelease b) :=
  inferInstanceAs (Decidable (a.toRelease = b.toRelease))

/-- Versions compare by their releases. -/
def cmp (a b : Version) : Ordering :=
  a.toRelease.cmp b.toRelease

/-- The earlier of two versions; the first when both have the same release, so that a fold over a
list keeps the one that is listed first. -/
def earlier (a b : Version) : Version :=
  if b.toRelease < a.toRelease then b else a

end Version

/-! ## Sets of versions -/

/-- Versions in ascending order, at most one per release.  The order is part of the data, so
whatever goes through the members goes through them from the smallest on. -/
structure VersionSet where
  /-- The members. -/
  toList : List Version
  /-- Each member is released before the next. -/
  ascending : toList.Pairwise fun a b => a.toRelease < b.toRelease

namespace VersionSet

/-- The members after `v` has been put among them; it takes the place of a member with the same
release, and the order is kept. -/
def insertInto (v : Version) : List Version → List Version
  | [] => [v]
  | w :: rest =>
    if v.toRelease < w.toRelease then v :: w :: rest
    else if v.SameRelease w then v :: rest
    else w :: insertInto v rest

/-- Every member afterwards was a member before or is the new one. -/
theorem mem_insertInto {v u : Version} {members : List Version} (h : u ∈ insertInto v members) :
    u = v ∨ u ∈ members := by
  induction members with
  | nil => simpa [insertInto] using h
  | cons w rest ih =>
    unfold insertInto at h
    split at h
    · simpa using h
    · split at h
      · rcases List.mem_cons.mp h with h | h
        · exact .inl h
        · exact .inr (List.mem_cons_of_mem _ h)
      · rcases List.mem_cons.mp h with h | h
        · exact .inr (h ▸ List.mem_cons_self ..)
        · exact (ih h).imp id (List.mem_cons_of_mem _)

theorem pairwise_insertInto {v : Version} {members : List Version}
    (h : members.Pairwise fun a b => a.toRelease < b.toRelease) :
    (insertInto v members).Pairwise fun a b => a.toRelease < b.toRelease := by
  induction members with
  | nil => simp [insertInto]
  | cons w rest ih =>
    obtain ⟨hw, hrest⟩ := List.pairwise_cons.mp h
    unfold insertInto
    split
    next hlt =>
      refine List.pairwise_cons.mpr ⟨fun u hu => ?_, h⟩
      rcases List.mem_cons.mp hu with rfl | hu
      · exact hlt
      · exact Release.lt_trans hlt (hw u hu)
    next hlt =>
      split
      next hs => exact List.pairwise_cons.mpr ⟨fun u hu => hs ▸ hw u hu, hrest⟩
      next hs =>
        refine List.pairwise_cons.mpr ⟨fun u hu => ?_, ih hrest⟩
        rcases mem_insertInto hu with rfl | hu
        · rcases Release.lt_or_eq_or_gt u.toRelease w.toRelease with h' | h' | h'
          · exact absurd h' hlt
          · exact absurd h' hs
          · exact h'
        · exact hw u hu

/-- No versions. -/
def empty : VersionSet := ⟨[], .nil⟩

/-- The set with `v` in it; a member with the same release is replaced, as two such versions are the
same to a set. -/
def insert (s : VersionSet) (v : Version) : VersionSet :=
  ⟨insertInto v s.toList, pairwise_insertInto s.ascending⟩

/-- The set of the listed versions; of several with one release the last listed is the member. -/
def ofList (versions : List Version) : VersionSet :=
  versions.foldl insert empty

end VersionSet

end ElmManifest
