import ElmManifest.Proofs.Constraint.Acceptance
import ElmManifest.Proofs.Manifest.Accepted
import ElmManifest.Proofs.Project.Legacy
import ElmManifest.Proofs.Selection

/-!
# Compilers of a project in the older layout

The manifest of such a project has a range of compiler versions, and the application that it stands
for has one version, the lower end of the range.  So the application says yes to that version and to
no other, whatever tags it is asked with.  The range itself may be without its lower end: the end
can be excluded, and a range whose ends are one release has it only if both ends are included.
Nothing else can go wrong, since a range whose ends are not in order is not read.

## Main Definitions

* `Constraint.HasLowerEnd` — the ranges that their lower end belongs to.
* `Project.StandsFor` — a project that was made of a manifest in the older layout.

## Main Statements

* `Constraint.contains_iff_hasLowerEnd` — whether a range has its lower end.
* `acceptsCompiler_legacy` — which compilers a project in the older layout accepts, and when its
  manifest has them.
* `accepts_excluded_lower` — a project that accepts a compiler which its manifest excludes.
-/

namespace ElmManifest

/-! ## Lower ends -/

namespace Constraint

/-- The lower end belongs to the range: it is included, and the range is not cut off at it. -/
def HasLowerEnd (c : Constraint) : Prop :=
  c.lowerInclusive = true ∧ (c.upperInclusive = true ∨ ¬ c.lower.SameRelease c.upper)

instance (c : Constraint) : Decidable c.HasLowerEnd :=
  inferInstanceAs (Decidable (_ ∧ _))

/-- **A range contains its lower end**, with whatever tags, exactly if that end is included and
either lies below the upper one or comes with it.  The tags do not matter, as a range contains
releases. -/
theorem contains_iff_hasLowerEnd {c : Constraint} {v : Version}
    (horder : c.lower.toRelease ≤ c.upper.toRelease) (hv : v.SameRelease c.lower) :
    c.contains v = true ↔ c.HasLowerEnd := by
  have habove : (if c.lowerInclusive then decide (c.lower.toRelease ≤ v.toRelease)
      else decide (c.lower.toRelease < v.toRelease)) = c.lowerInclusive := by
    rw [hv]
    cases c.lowerInclusive <;> simp
  have hbelow : (if c.upperInclusive then decide (v.toRelease ≤ c.upper.toRelease)
      else decide (v.toRelease < c.upper.toRelease)) = true ↔
        c.upperInclusive = true ∨ ¬ c.lower.SameRelease c.upper := by
    rw [hv]
    cases c.upperInclusive with
    | true => simp [horder]
    | false =>
      -- The ends are in order, so the lower one lies below the other if they differ.
      have hlt : c.lower.toRelease < c.upper.toRelease ↔ ¬ c.lower.SameRelease c.upper := by
        refine ⟨fun hlt hsame => lt_irrefl _ (hsame ▸ hlt), fun hne => ?_⟩
        by_contra hnot
        exact hne (le_antisymm horder (not_lt.mp hnot))
      simpa using hlt
  rw [contains, habove, Bool.and_eq_true, hbelow, HasLowerEnd]

end Constraint

/-! ## Projects that stand for a manifest -/

/-- The project was made of the manifest, with whatever exact versions stand beside it. -/
def Project.StandsFor (p : Project) (m : LegacyManifest) : Prop :=
  ∃ pins, p.declaration = .application { m with exactDependencies := pins }.toApplication

section

variable {path : Path} {bytes : ByteArray} {declared : LegacyManifest}

/-- The range of a manifest in the older layout has been read from a text. -/
theorem Manifest.exists_parse_of_decode_legacy
    (h : decode path bytes = .ok (.legacy declared)) :
    ∃ text, Constraint.parse text = .ok declared.elmVersion := by
  obtain ⟨entries, hentries⟩ := exists_entries_of_decode h
  rw [decode_eq_ok_iff hentries] at h
  split at h
  next =>
    obtain ⟨m, hm, heq⟩ := h
    cases heq
    obtain ⟨text, -, -, -, -, -, -, -, hparse, -⟩ := LegacyManifest.ofEntries_eq_ok_iff.mp hm
    exact ⟨text, readText_eq_ok_iff.mp hparse⟩
  next =>
    rcases ofEntries_eq_ok_iff.mp h with ⟨-, _, -, hm⟩ | ⟨-, _, -, hm⟩ <;> cases hm

/-- The ends of its range are in order. -/
theorem Manifest.lower_le_upper_of_decode_legacy
    (h : decode path bytes = .ok (.legacy declared)) :
    declared.elmVersion.lower.toRelease ≤ declared.elmVersion.upper.toRelease := by
  obtain ⟨text, hparse⟩ := exists_parse_of_decode_legacy h
  exact (Constraint.parse_eq_ok_iff.mp hparse).1

/-- What is loaded from the manifest was made of it. -/
theorem standsFor_of_loadProject {files : FileTree} {repository : Repository} {project : Project}
    (hread : files.read path = .ok bytes)
    (hdecode : Manifest.decode path bytes = .ok (.legacy declared))
    (hproject : (loadProject files repository path).result = .ok project) :
    project.StandsFor declared := by
  cases hexact : readExactDependencies files (exactDependenciesPath path) with
  | error error =>
    rw [loadProject_of_loadProject? (loadProject?_legacy_of_error hread hdecode hexact)] at hproject
    cases hproject
  | ok pins =>
    rw [loadProject_of_loadProject? (loadProject?_legacy_of_ok hread hdecode hexact)] at hproject
    cases hproject
    exact ⟨pins, rfl⟩

/-- **Which compilers a project in the older layout accepts**: the lower end of the range in its
manifest, with whatever tags, and no other version.  The range contains that version exactly if it
has its lower end, and then no compiler is accepted that the manifest excludes.  This is said of
every project that a manifest stands for, and what is loaded from the manifest is one.  The cause is
that `into_application` takes the lower end for the compiler version and drops its inclusivity. -/
theorem acceptsCompiler_legacy (hdecode : Manifest.decode path bytes = .ok (.legacy declared)) :
    (∀ project : Project, project.StandsFor declared → ∀ compiler,
      (project.acceptsCompiler compiler = true ↔
        compiler.SameRelease declared.elmVersion.lower) ∧
      (project.acceptsCompiler compiler = true →
        (declared.elmVersion.contains compiler = true ↔ declared.elmVersion.HasLowerEnd))) ∧
    ∀ (files : FileTree) (repository : Repository) (project : Project),
      files.read path = .ok bytes → (loadProject files repository path).result = .ok project →
        project.StandsFor declared := by
  refine ⟨fun project hproject compiler => ?_, fun files repository project hread hproject =>
    standsFor_of_loadProject hread hdecode hproject⟩
  obtain ⟨pins, hdeclaration⟩ := hproject
  have haccepts : project.acceptsCompiler compiler = true ↔
      compiler.SameRelease declared.elmVersion.lower := by
    rw [Project.acceptsCompiler, hdeclaration, decide_eq_true_iff]
    exact eq_comm
  refine ⟨haccepts, fun haccepted => ?_⟩
  exact Constraint.contains_iff_hasLowerEnd (Manifest.lower_le_upper_of_decode_legacy hdecode)
    (haccepts.mp haccepted)

end

/-! ## A range with its lower end and one without it -/

/-- A manifest in the older layout that declares nothing but the range. -/
def rangedText (range : String) : String :=
  "\x7b\"elm-version\":\"" ++ range ++ "\"\x7d"

/-- The manifest in a directory of its own. -/
def rangeFiles (range : String) : FileTree :=
  ⟨[(["elm-package.json", "app"], .file (rangedText range).toUTF8)], []⟩

/-- What it declares. -/
def rangeManifest (range : Constraint) : LegacyManifest where
  elmVersion := range
  sourceDirectories := ["."]
  exposedModules := []
  dependencies := .empty
  exactDependencies := .empty

/-- What it is loaded as. -/
def rangeProject (range : Constraint) : Project :=
  ⟨⟨"app/elm-package.json"⟩, .application (rangeManifest range).toApplication, [], []⟩

/-- The versions between two others, with the lower one or without it. -/
def elm18 (lowerInclusive : Bool) : Constraint :=
  ⟨.ofNumbers 0 18 0, lowerInclusive, .ofNumbers 0 19 0, false⟩

theorem read_rangeFiles (range : String) :
    (rangeFiles range).read ⟨"app/elm-package.json"⟩ = .ok (rangedText range).toUTF8 :=
  FileTree.read_eq_ok_iff.mpr ⟨["elm-package.json", "app"], rfl, rfl⟩

/-- There are no exact versions beside the manifest. -/
theorem loadProject_rangeFiles {text : String} {range : Constraint}
    (hdecode : Manifest.decode ⟨"app/elm-package.json"⟩ (rangedText text).toUTF8 =
      .ok (.legacy (rangeManifest range))) :
    (loadProject (rangeFiles text) (.ofTable [] .empty) ⟨"app/elm-package.json"⟩).result =
      .ok (rangeProject range) := by
  have hexact : readExactDependencies (rangeFiles text)
      (exactDependenciesPath ⟨"app/elm-package.json"⟩) = .ok .empty :=
    FileTree.readExactDependencies_of_not_isFile rfl
  rw [loadProject_of_loadProject? (loadProject?_legacy_of_ok (read_rangeFiles text) hdecode hexact)]
  rfl

/-- A project that is loaded from a manifest with a range accepts the lower end of the range, and
this is in the range if the range has it. -/
theorem acceptsCompiler_legacy_rangeFiles :
    Manifest.decode ⟨"app/elm-package.json"⟩ (rangedText "0.18.0 <= v < 0.19.0").toUTF8 =
        .ok (.legacy (rangeManifest (elm18 true))) ∧
      (rangeProject (elm18 true)).StandsFor (rangeManifest (elm18 true)) ∧
      (rangeProject (elm18 true)).acceptsCompiler (.ofNumbers 0 18 0) = true ∧
      (elm18 true).contains (.ofNumbers 0 18 0) = true := by
  have hdecode : Manifest.decode ⟨"app/elm-package.json"⟩
      (rangedText "0.18.0 <= v < 0.19.0").toUTF8 = .ok (.legacy (rangeManifest (elm18 true))) :=
    eq_ok_of_toOption (by decide +kernel)
  obtain ⟨hstands, hloaded⟩ := acceptsCompiler_legacy hdecode
  have hproject := hloaded _ _ _ (read_rangeFiles _) (loadProject_rangeFiles hdecode)
  obtain ⟨haccepts, hcontains⟩ := hstands _ hproject (.ofNumbers 0 18 0)
  have haccepted := haccepts.mpr rfl
  exact ⟨hdecode, hproject, haccepted, (hcontains haccepted).mpr (by decide)⟩

/-- **A compiler that the manifest excludes is accepted**: the application is for the version that
the range begins behind.  `into_application` does not look at whether the end is included. -/
theorem accepts_excluded_lower :
    Manifest.decode ⟨"app/elm-package.json"⟩ (rangedText "0.18.0 < v < 0.19.0").toUTF8 =
        .ok (.legacy (rangeManifest (elm18 false))) ∧
      (loadProject (rangeFiles "0.18.0 < v < 0.19.0") (.ofTable [] .empty)
        ⟨"app/elm-package.json"⟩).result = .ok (rangeProject (elm18 false)) ∧
      (rangeProject (elm18 false)).acceptsCompiler (.ofNumbers 0 18 0) = true ∧
      (elm18 false).contains (.ofNumbers 0 18 0) = false := by
  have hdecode : Manifest.decode ⟨"app/elm-package.json"⟩
      (rangedText "0.18.0 < v < 0.19.0").toUTF8 = .ok (.legacy (rangeManifest (elm18 false))) :=
    eq_ok_of_toOption (by decide +kernel)
  exact ⟨hdecode, loadProject_rangeFiles hdecode, by decide, by decide⟩

end ElmManifest
