import ElmManifest.Constraint
import ElmManifest.Proofs.Version.Order

/-!
# Selecting versions

Of the versions in a range, the smallest one is selected.

## Main Definitions

* `Constraint.IsMinimum` — a smallest version in a range.

## Main Statements

* `Constraint.isMinimum_of_selectMinimum` — what is selected is a smallest version in the range.
* `Constraint.selectMinimum_eq_none_iff` — nothing is selected exactly if no version is in the
  range.
* `Constraint.exists_selectMinimum_le` — if a version is in the range, one that is no later is
  selected.
* `Constraint.IsMinimum.selectMinimum_eq_some` — in a set of versions there is one smallest version
  in the range, and it is selected.
-/

namespace ElmManifest

namespace Version

/-- The earlier of two versions is one of them. -/
theorem earlier_eq_or (a b : Version) : a.earlier b = a ∨ a.earlier b = b := by
  unfold earlier
  split
  · exact .inr rfl
  · exact .inl rfl

/-- The earlier of two versions is released after neither. -/
theorem earlier_le (a b : Version) :
    (a.earlier b).toRelease ≤ a.toRelease ∧ (a.earlier b).toRelease ≤ b.toRelease := by
  unfold earlier
  split
  next h => exact ⟨le_of_lt h, le_refl _⟩
  next h => exact ⟨le_refl _, not_lt.mp h⟩

/-- The earliest of several versions is one of them and released after none of them. -/
theorem foldl_earlier (v : Version) (rest : List Version) :
    rest.foldl earlier v ∈ v :: rest ∧
      ∀ w ∈ v :: rest, (rest.foldl earlier v).toRelease ≤ w.toRelease := by
  induction rest generalizing v with
  | nil => simp
  | cons w rest ih =>
      obtain ⟨hmem, hle⟩ := ih (v.earlier w)
      have hfirst := hle _ (List.mem_cons_self ..)
      rw [List.foldl_cons]
      constructor
      · rcases List.mem_cons.mp hmem with h | h
        · rw [h]
          rcases earlier_eq_or v w with h | h <;> simp [h]
        · exact List.mem_cons_of_mem _ (List.mem_cons_of_mem _ h)
      · intro u hu
        rcases List.mem_cons.mp hu with rfl | hu
        · exact le_trans hfirst (earlier_le u w).1
        · rcases List.mem_cons.mp hu with rfl | hu
          · exact le_trans hfirst (earlier_le v u).2
          · exact hle u (List.mem_cons_of_mem _ hu)

end Version

namespace Constraint

/-- A listed version that is in the range, such that none that is in the range is smaller. -/
structure IsMinimum (range : Constraint) (versions : List Version) (version : Version) :
    Prop where
  /-- It is listed. -/
  listed : version ∈ versions
  /-- It is in the range. -/
  contained : range.contains version = true
  /-- No listed version in the range is smaller. -/
  least : ∀ other ∈ versions, range.contains other = true →
    version.toRelease ≤ other.toRelease

/-- What is selected is a smallest version in the range. -/
theorem isMinimum_of_selectMinimum {range : Constraint} {versions : List Version}
    {version : Version} (h : range.selectMinimum versions = some version) :
    range.IsMinimum versions version := by
  unfold selectMinimum at h
  split at h
  · cases h
  next first rest hfilter =>
    cases h
    obtain ⟨hmem, hle⟩ := Version.foldl_earlier first rest
    rw [← hfilter] at hmem hle
    obtain ⟨hlisted, hcontained⟩ := List.mem_filter.mp hmem
    exact ⟨hlisted, hcontained, fun other hother hin =>
      hle other (List.mem_filter.mpr ⟨hother, hin⟩)⟩

/-- Nothing is selected exactly if no version is in the range. -/
theorem selectMinimum_eq_none_iff {range : Constraint} {versions : List Version} :
    range.selectMinimum versions = none ↔
      ∀ version ∈ versions, range.contains version = false := by
  have hfilter : range.selectMinimum versions = none ↔ versions.filter range.contains = [] := by
    unfold selectMinimum
    split <;> simp [*]
  rw [hfilter, List.filter_eq_nil_iff]
  simp

/-- If a listed version is in the range, one that is no later is selected. -/
theorem exists_selectMinimum_le {range : Constraint} {versions : List Version} {version : Version}
    (hlisted : version ∈ versions) (hcontained : range.contains version = true) :
    ∃ selected, range.selectMinimum versions = some selected ∧
      selected.toRelease ≤ version.toRelease := by
  cases h : range.selectMinimum versions with
  | none =>
      have hnone := selectMinimum_eq_none_iff.mp h version hlisted
      rw [hcontained] at hnone
      cases hnone
  | some selected =>
      exact ⟨selected, rfl, (isMinimum_of_selectMinimum h).least version hlisted hcontained⟩

/-- Two smallest versions in a range have one release. -/
theorem IsMinimum.sameRelease {range : Constraint} {versions : List Version} {v w : Version}
    (hv : range.IsMinimum versions v) (hw : range.IsMinimum versions w) : v.SameRelease w :=
  le_antisymm (hv.least w hw.listed hw.contained) (hw.least v hv.listed hv.contained)

end Constraint

/-! ## Sets of versions -/

/-- A set has one version for a release. -/
theorem VersionSet.eq_of_toRelease_eq {versions : VersionSet} {v w : Version}
    (hv : v ∈ versions.toList) (hw : w ∈ versions.toList) (h : v.toRelease = w.toRelease) :
    v = w := by
  obtain ⟨members, hascending⟩ := versions
  induction members with
  | nil => exact absurd hv List.not_mem_nil
  | cons first rest ih =>
      obtain ⟨hfirst, hrest⟩ := List.pairwise_cons.mp hascending
      rcases List.mem_cons.mp hv with hv | hv
      · rcases List.mem_cons.mp hw with hw | hw
        · exact hv.trans hw.symm
        · exact absurd (hfirst w hw) (hv ▸ h ▸ lt_irrefl _)
      · rcases List.mem_cons.mp hw with hw | hw
        · exact absurd (hfirst v hv) (hw ▸ h ▸ lt_irrefl _)
        · exact ih hrest hv hw

/-- A smallest version in the range is the one that is selected from a set. -/
theorem Constraint.IsMinimum.selectMinimum_eq_some {range : Constraint} {versions : VersionSet}
    {version : Version} (h : range.IsMinimum versions.toList version) :
    range.selectMinimum versions.toList = some version := by
  obtain ⟨selected, hselected, -⟩ := exists_selectMinimum_le h.listed h.contained
  have hminimum := isMinimum_of_selectMinimum hselected
  rw [hselected, VersionSet.eq_of_toRelease_eq hminimum.listed h.listed (hminimum.sameRelease h)]

end ElmManifest
