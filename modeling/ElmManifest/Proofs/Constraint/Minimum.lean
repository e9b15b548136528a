import ElmManifest.Proofs.Selection
import Mathlib.Data.List.Forall2
import Mathlib.Order.Interval.Set.Defs

/-!
# The smallest version in a range

A range is an interval of triples of numbers in lexicographic order, with each end in it or not.  It
can be empty: nothing is asked here of the order of its ends.  Versions that differ in their tags
have one triple, so a list can have several smallest versions in the range, and the first of them is
selected.  Which release that is depends on the releases in the list, and on neither their order nor
their number nor the tags.

One comparison carries the rest: where a listed version is in the range, one that is no later is
selected.  Two selections from the same releases compare both ways and so agree.

## Main Definitions

* `Constraint.span` — the triples between the ends of a range.
* `Constraint.IsFirstMinimum` — the first of the smallest listed versions in a range.
* `SameReleases` — two lists of versions with the same releases.

## Main Statements

* `Constraint.contains_iff_mem_span` — a range contains the versions whose triples lie in it.
* `Constraint.selectMinimum_eq_some_iff` — the first smallest version is selected and no other.
* `Constraint.exists_selectMinimum_le_of_wider` — a wider range selects a version that is no later.
* `Constraint.map_toRelease_selectMinimum` — the selected release depends on the releases alone.
* `Constraint.selectMinimum_firstLeast` — all of this, and when nothing is selected.
-/

namespace ElmManifest

namespace Constraint

variable {range other : Constraint} {versions others : List Version} {version : Version}

/-- The triples between the ends, each end taken in or left out as the range says. -/
def span (range : Constraint) : Set (ℕ ×ₗ ℕ ×ₗ ℕ) :=
  match range.lowerInclusive, range.upperInclusive with
  | true, true => Set.Icc range.lower.numbers range.upper.numbers
  | true, false => Set.Ico range.lower.numbers range.upper.numbers
  | false, true => Set.Ioc range.lower.numbers range.upper.numbers
  | false, false => Set.Ioo range.lower.numbers range.upper.numbers

/-- **A range is an interval**: a version is in it exactly if its triple lies between the ends.
Triples compare from the first number on. -/
theorem contains_iff_mem_span :
    range.contains version = true ↔ version.numbers ∈ range.span := by
  unfold contains span
  cases range.lowerInclusive <;> cases range.upperInclusive <;>
    simp [Release.numbers_lt_iff, Release.numbers_le_iff]

/-- Tags decide nothing about membership, neither those of the ends nor those of the version. -/
theorem contains_congr {v w : Version} (hrange : range.SameInterval other)
    (hversion : v.SameRelease w) : range.contains v = other.contains w := by
  simp only [SameInterval, interval, Prod.mk.injEq] at hrange
  obtain ⟨⟨hlower, hlowerInclusive⟩, hupper, hupperInclusive⟩ := hrange
  simp only [contains, hlower, hlowerInclusive, hupper, hupperInclusive,
    show v.toRelease = w.toRelease from hversion]

end Constraint

/-! ## The first of the smallest -/

/-- **The earliest of several versions is the first one of its release.** -/
theorem Version.find?_foldl_earlier (v : Version) (rest : List Version) :
    (v :: rest).find? (fun w => decide (w.SameRelease (rest.foldl earlier v))) =
      some (rest.foldl earlier v) := by
  induction rest generalizing v with
  | nil => simp [SameRelease]
  | cons w rest ih =>
    obtain ⟨-, hle⟩ := foldl_earlier (v.earlier w) rest
    have hfirst := hle _ (List.mem_cons_self ..)
    have hfound := ih (v.earlier w)
    rw [List.foldl_cons]
    generalize rest.foldl earlier (v.earlier w) = least at *
    by_cases hlt : w.toRelease < v.toRelease
    · -- The version in front is later than the next one, so the search passes it by.
      rw [earlier, if_pos hlt] at hfirst hfound
      have hskip : ¬ v.SameRelease least := fun hsame =>
        not_lt.mpr hfirst (hsame ▸ hlt)
      rw [List.find?_cons_of_neg (by simpa using hskip)]
      exact hfound
    · rw [earlier, if_neg hlt] at hfirst hfound
      by_cases hsame : v.SameRelease least
      · rw [List.find?_cons_of_pos (by simpa using hsame)] at hfound ⊢
        exact hfound
      · -- The next version is no earlier than the one in front, which is later than the least.
        have hskip : ¬ w.SameRelease least := fun h =>
          hsame (le_antisymm (h ▸ not_lt.mp hlt) hfirst)
        rw [List.find?_cons_of_neg (by simpa using hsame)] at hfound ⊢
        rw [List.find?_cons_of_neg (by simpa using hskip)]
        exact hfound

namespace Constraint

variable {range other : Constraint} {versions others : List Version} {version : Version}

/-- A smallest version in the range, and of those that are listed with its release the first.  There
is at most one such version. -/
structure IsFirstMinimum (range : Constraint) (versions : List Version) (version : Version) :
    Prop extends range.IsMinimum versions version where
  /-- None of its release is listed before it. -/
  first : versions.find? (fun other => decide (other.SameRelease version)) = some version

/-- There is only one first of the smallest. -/
theorem IsFirstMinimum.unique {v w : Version} (hv : range.IsFirstMinimum versions v)
    (hw : range.IsFirstMinimum versions w) : v = w := by
  have hsame : v.toRelease = w.toRelease := hv.toIsMinimum.sameRelease hw.toIsMinimum
  have hfirst := hv.first
  simp only [Version.SameRelease, hsame] at hfirst
  exact Option.some.inj (hfirst.symm.trans hw.first)

/-- What is selected is the first of the smallest. -/
theorem isFirstMinimum_of_selectMinimum (h : range.selectMinimum versions = some version) :
    range.IsFirstMinimum versions version := by
  refine ⟨isMinimum_of_selectMinimum h, ?_⟩
  have hcontained := (isMinimum_of_selectMinimum h).contained
  unfold selectMinimum at h
  split at h
  · cases h
  next v rest hfilter =>
    cases h
    have hfound := Version.find?_foldl_earlier v rest
    rw [← hfilter, List.find?_filter] at hfound
    rw [← hfound]
    congr 1
    funext w
    -- A version of that release is in the range as well, so none of them was filtered out.
    rw [decide_eq_decide, decide_eq_true_iff]
    refine ⟨fun hsame => ⟨?_, hsame⟩, And.right⟩
    rw [contains_congr rfl hsame, hcontained]

/-- **The first of the smallest is selected, and no other.**  It is `min` that keeps the first of
several that are the same. -/
theorem selectMinimum_eq_some_iff :
    range.selectMinimum versions = some version ↔ range.IsFirstMinimum versions version := by
  refine ⟨isFirstMinimum_of_selectMinimum, fun h => ?_⟩
  obtain ⟨selected, hselected, -⟩ := exists_selectMinimum_le h.listed h.contained
  rw [hselected, (isFirstMinimum_of_selectMinimum hselected).unique h]

/-- **A wider range selects a version that is no later.**  It is enough that it is wider on the
listed versions. -/
theorem exists_selectMinimum_le_of_wider
    (hwider : ∀ v ∈ versions, range.contains v = true → other.contains v = true)
    (h : range.selectMinimum versions = some version) :
    ∃ selected, other.selectMinimum versions = some selected ∧
      selected.toRelease ≤ version.toRelease := by
  have hminimum := isMinimum_of_selectMinimum h
  exact exists_selectMinimum_le hminimum.listed
    (hwider version hminimum.listed hminimum.contained)

end Constraint

/-! ## The same releases -/

/-- The lists have the same releases: in another order, more or fewer times, with other tags. -/
def SameReleases (versions others : List Version) : Prop :=
  ∀ release, release ∈ versions.map Version.toRelease ↔ release ∈ others.map Version.toRelease

namespace SameReleases

variable {versions others third : List Version}

theorem symm (h : SameReleases versions others) : SameReleases others versions :=
  fun release => (h release).symm

theorem trans (h : SameReleases versions others) (h' : SameReleases others third) :
    SameReleases versions third :=
  fun release => (h release).trans (h' release)

/-- The order of the versions and how often one is listed do not matter. -/
theorem of_mem_iff (h : ∀ v, v ∈ versions ↔ v ∈ others) : SameReleases versions others := by
  intro release
  simp only [List.mem_map, h]

/-- The tags of the versions do not matter. -/
theorem of_forall₂ (h : List.Forall₂ Version.SameRelease versions others) :
    SameReleases versions others := by
  have hmap : versions.map Version.toRelease = others.map Version.toRelease := by
    rw [← List.forall₂_eq_eq_eq, List.forall₂_map_left_iff, List.forall₂_map_right_iff]
    exact h
  intro release
  rw [hmap]

/-- Every version has one of its release in the other list. -/
theorem exists_sameRelease (h : SameReleases versions others) {v : Version} (hv : v ∈ versions) :
    ∃ w ∈ others, w.SameRelease v :=
  List.mem_map.mp ((h v.toRelease).mp (List.mem_map_of_mem hv))

end SameReleases

namespace Constraint

variable {range other : Constraint} {versions others : List Version}

/-- A selection from the same releases is no later. -/
theorem exists_selectMinimum_le_of_sameReleases {version : Version}
    (hrange : range.SameInterval other) (hversions : SameReleases versions others)
    (h : range.selectMinimum versions = some version) :
    ∃ selected, other.selectMinimum others = some selected ∧
      selected.toRelease ≤ version.toRelease := by
  have hminimum := isMinimum_of_selectMinimum h
  obtain ⟨w, hw, hsame⟩ := hversions.exists_sameRelease hminimum.listed
  have hcontained : other.contains w = true := by
    rw [← contains_congr hrange hsame.symm, hminimum.contained]
  obtain ⟨selected, hselected, hle⟩ := exists_selectMinimum_le hw hcontained
  rw [show w.toRelease = version.toRelease from hsame] at hle
  exact ⟨selected, hselected, hle⟩

/-- **The selected release depends on the releases alone**, and on the interval. -/
theorem map_toRelease_selectMinimum (hrange : range.SameInterval other)
    (hversions : SameReleases versions others) :
    (range.selectMinimum versions).map Version.toRelease =
      (other.selectMinimum others).map Version.toRelease := by
  cases h : range.selectMinimum versions with
  | some v =>
    obtain ⟨w, hw, hle⟩ := exists_selectMinimum_le_of_sameReleases hrange hversions h
    obtain ⟨v', hv', hge⟩ := exists_selectMinimum_le_of_sameReleases hrange.symm hversions.symm hw
    cases h.symm.trans hv'
    rw [hw]
    exact congrArg some (le_antisymm hge hle)
  | none =>
    cases h' : other.selectMinimum others with
    | none => rfl
    | some w =>
      obtain ⟨v, hv, -⟩ := exists_selectMinimum_le_of_sameReleases hrange.symm hversions.symm h'
      cases h.symm.trans hv

/-- **What is selected within a range.**  Releases compare as their triples, and the range is an
interval of triples.  Nothing is selected if no listed version is in it, and else the first of the
smallest ones.  The same releases, listed in whatever way, and the same interval give the same
release; and a range that has every listed version of another one selects a version that is no
later.  For a set of versions, as `available_versions` returns it, there is one version of each
release, and then the version itself is settled by the set. -/
theorem selectMinimum_firstLeast (range : Constraint) (versions : List Version) :
    (∀ a b : Release, a ≤ b ↔ a.numbers ≤ b.numbers) ∧
    (∀ v, range.contains v = true ↔ v.numbers ∈ range.span) ∧
    (range.selectMinimum versions = none ↔ ∀ v ∈ versions, range.contains v = false) ∧
    (∀ v, range.selectMinimum versions = some v ↔ range.IsFirstMinimum versions v) ∧
    (∀ (other : Constraint) (others : List Version),
      range.SameInterval other → SameReleases versions others →
      (range.selectMinimum versions).map Version.toRelease =
        (other.selectMinimum others).map Version.toRelease) ∧
    ∀ (narrow : Constraint) (v : Version),
      (∀ w ∈ versions, narrow.contains w = true → range.contains w = true) →
      narrow.selectMinimum versions = some v →
        ∃ selected, range.selectMinimum versions = some selected ∧
          selected.toRelease ≤ v.toRelease := by
  refine ⟨fun a b => Release.numbers_le_iff.symm, fun v => contains_iff_mem_span,
    selectMinimum_eq_none_iff, fun v => selectMinimum_eq_some_iff,
    fun other others hrange hversions => ?_, fun narrow v hwider hselected => ?_⟩
  · exact map_toRelease_selectMinimum hrange hversions
  · exact exists_selectMinimum_le_of_wider hwider hselected

end Constraint

/-! ## One release with a tag and without it -/

/-- A version before its release. -/
def candidateVersion : Version :=
  ⟨⟨1, 9, 0⟩, [⟨"rc", by decide, List.all_eq_true.mp (by decide)⟩], [], by decide⟩

/-- Versions in no order, with one release twice. -/
def listedVersions : List Version :=
  [.ofNumbers 2 0 0, .ofNumbers 1 10 0, candidateVersion, .ofNumbers 1 9 0, .ofNumbers 0 9 0]

/-- The same releases back and forth, without tags. -/
def relistedVersions : List Version :=
  (listedVersions.reverse ++ listedVersions).map fun v => .ofNumbers v.major v.minor v.patch

theorem sameReleases_relistedVersions : SameReleases listedVersions relistedVersions := by
  have hlisted : SameReleases listedVersions (listedVersions.reverse ++ listedVersions) :=
    .of_mem_iff fun v => by simp
  refine hlisted.trans (.of_forall₂ ?_)
  rw [relistedVersions, List.forall₂_map_right_iff, List.forall₂_same]
  exact fun _ _ => rfl

/-- The versions from `lower` on and before 2.0.0, with `lower` or without it. -/
def firstMajor (lower : Version) (lowerInclusive : Bool) : Constraint :=
  ⟨lower, lowerInclusive, .ofNumbers 2 0 0, false⟩

/-- The candidate is selected, for it is listed before its release; from the other list its release
is selected.  A range that begins behind both leaves the next release, and one with its ends in the
wrong order leaves nothing. -/
theorem selectMinimum_firstLeast_listedVersions :
    candidateVersion.numbers ∈ (firstMajor (.ofNumbers 1 9 0) true).span ∧
    (firstMajor (.ofNumbers 1 9 0) true).selectMinimum listedVersions = some candidateVersion ∧
    ((firstMajor (.ofNumbers 1 9 0) true).SameInterval (firstMajor candidateVersion true) ∧
      SameReleases listedVersions relistedVersions ∧
      ((firstMajor candidateVersion true).selectMinimum relistedVersions).map Version.toRelease =
        some ⟨1, 9, 0⟩) ∧
    ((∀ w ∈ listedVersions, (firstMajor candidateVersion false).contains w = true →
        (firstMajor (.ofNumbers 1 9 0) true).contains w = true) ∧
      (firstMajor candidateVersion false).selectMinimum listedVersions =
        some (.ofNumbers 1 10 0) ∧
      ∃ selected,
        (firstMajor (.ofNumbers 1 9 0) true).selectMinimum listedVersions = some selected ∧
          selected.toRelease ≤ ⟨1, 10, 0⟩) ∧
    (firstMajor (.ofNumbers 3 0 0) true).selectMinimum listedVersions = none := by
  obtain ⟨-, hspan, -, hselects, halike, hwider⟩ :=
    Constraint.selectMinimum_firstLeast (firstMajor (.ofNumbers 1 9 0) true) listedVersions
  obtain ⟨-, -, -, hbehind, -⟩ :=
    Constraint.selectMinimum_firstLeast (firstMajor candidateVersion false) listedVersions
  obtain ⟨-, -, hnone, -⟩ :=
    Constraint.selectMinimum_firstLeast (firstMajor (.ofNumbers 3 0 0) true) listedVersions
  have hselected := (hselects candidateVersion).mpr ⟨⟨by decide, by decide, by decide⟩, by decide⟩
  have hlater := (hbehind (.ofNumbers 1 10 0)).mpr ⟨⟨by decide, by decide, by decide⟩, by decide⟩
  have hrelisted := halike (firstMajor candidateVersion true) relistedVersions rfl
    sameReleases_relistedVersions
  rw [hselected] at hrelisted
  exact ⟨(hspan candidateVersion).mp (by decide), hselected,
    ⟨rfl, sameReleases_relistedVersions, hrelisted.symm⟩,
    ⟨by decide, hlater, hwider _ _ (by decide) hlater⟩, hnone.mpr (by decide)⟩

end ElmManifest
