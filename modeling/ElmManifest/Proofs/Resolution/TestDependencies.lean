import ElmManifest.Proofs.Resolution.Sharing
import ElmManifest.Proofs.Resolution.Termination

/-!
# Test dependencies of dependencies

What the manifest of a dependency declares for its tests has no influence on a run.  Two runs that
read manifests which differ there and nowhere else go side by side: they ask the same questions,
give the same warnings, and end with the same error or with trees that differ in those declarations
only.  The same is true of the test dependencies of the manifest itself when they are ignored.

One run determines the other step by step, so a single induction on a call that ends is enough
(`Sources.SameButTests.loadAll`); it shows that the other call ends, too, and it is used in both
directions.  Two runs that do not end cannot be compared by their outcomes.  They are compared by
the points that they pass (`Sources.Shows`).

## Main Definitions

* `Package.SameButTests`, `Manifest.SameButTests`, `Project.SameButTests` — declarations, manifests
  and trees that are the same, declared test dependencies aside.
* `Sources.SameButTests` — one repository, and files that are the same up to the test dependencies
  of packages.
* `Manifest.LoadsAlike` — two manifests that a run loads the same packages for.
* `SameResult`, `Outcome.SameUpTo` — the same error or related results, after the same questions and
  warnings.
* `Sources.Shows` — what a run has asked and warned of at a point that it passes.
* `RunsAlike` — two runs that show the same, and end with related outcomes if they end.

## Main Statements

* `resolve?_sameButTests` — test dependencies of dependencies never matter.
-/

namespace ElmManifest

/-! ## The same, test dependencies aside -/

/-- Two packages that declare the same, test dependencies aside.  Everything else that a package
declares is shown somewhere. -/
def Package.SameButTests (a b : Package) : Prop :=
  { a with testDependencies := b.testDependencies } = b

/-- Two applications that declare the same, test dependencies aside. -/
def Application.SameButTests (a b : Application) : Prop :=
  { a with testDependencies := b.testDependencies } = b

/-- Two declarations of one kind that are the same, test dependencies aside. -/
inductive Declaration.SameButTests : Declaration → Declaration → Prop where
  | application {a b : Application} (h : a.SameButTests b) :
      SameButTests (.application a) (.application b)
  | package {a b : Package} (h : a.SameButTests b) : SameButTests (.package a) (.package b)

/-- Two manifests of one kind that declare the same, test dependencies aside; in the older layout
there are none. -/
inductive Manifest.SameButTests : Manifest → Manifest → Prop where
  | application {a b : Application} (h : a.SameButTests b) :
      SameButTests (.application a) (.application b)
  | package {a b : Package} (h : a.SameButTests b) : SameButTests (.package a) (.package b)
  | legacy (a : LegacyManifest) : SameButTests (.legacy a) (.legacy a)

/-- Two trees that are the same, apart from what their nodes declare for tests. -/
inductive Project.SameButTests : Project → Project → Prop where
  | intro {path : Path} {declaration declaration' : Declaration}
      {dependencies dependencies' tests tests' : List Project}
      (declaration_same : declaration.SameButTests declaration')
      (dependencies_same : List.Forall₂ SameButTests dependencies dependencies')
      (tests_same : List.Forall₂ SameButTests tests tests') :
      SameButTests ⟨path, declaration, dependencies, tests⟩
        ⟨path, declaration', dependencies', tests'⟩

/-- One repository, and files that are the same wherever it finds the manifest of a package, or that
declare packages which are the same, test dependencies aside.  What the repository never finds may
differ in any way. -/
structure Sources.SameButTests (a b : Sources) : Prop where
  /-- The repository is the same. -/
  repository : a.repository = b.repository
  /-- So are the files, test dependencies aside. -/
  files : ∀ name version path, a.repository.find name version = some path →
    a.read path = b.read path ∨
    ∃ declared declared', a.readManifest path = .ok (.package declared) ∧
      b.readManifest path = .ok (.package declared') ∧ declared.SameButTests declared'

/-- The same error, or results that are related. -/
inductive SameResult {α β : Type} (R : α → β → Prop) :
    Except LoadError α → Except LoadError β → Prop where
  | error (error : LoadError) : SameResult R (.error error) (.error error)
  | ok {a : α} {b : β} (h : R a b) : SameResult R (.ok a) (.ok b)

/-- Two outcomes after the same questions and the same warnings, with the same error or with
projects that are related. -/
structure Outcome.SameUpTo (R : Project → Project → Prop) (a b : Outcome) : Prop where
  /-- The questions are the same. -/
  calls : a.calls = b.calls
  /-- The warnings are the same. -/
  warnings : a.warnings = b.warnings
  /-- So is the error, or the projects are related. -/
  result : SameResult R a.result b.result

/-- At some point of a run, finished or not, these are the questions and warnings so far. -/
def Sources.Shows (sources : Sources) (ignoreTests : Bool) (manifest : Manifest)
    (calls : List Query) (warnings : List Warning) : Prop :=
  ∃ opened s, sources.Passes ignoreTests manifest opened s ∧ s.calls = calls ∧
    s.warnings = warnings

/-- The runs that resolve one manifest with one set of files and another manifest with another set
of files go side by side. -/
structure RunsAlike (R : Project → Project → Prop) (a b : Sources) (ignoreTests : Bool)
    (path : Path) (manifest manifest' : Manifest) : Prop where
  /-- One run ends if the other does, and their outcomes are related. -/
  outcome : Option.Rel (Outcome.SameUpTo R) (resolve? a ignoreTests path manifest)
    (resolve? b ignoreTests path manifest')
  /-- Whether they end or not, they ask and warn of the same on the way. -/
  shows : ∀ calls warnings, a.Shows ignoreTests manifest calls warnings ↔
    b.Shows ignoreTests manifest' calls warnings

namespace Package.SameButTests

variable {a b : Package}

theorem refl (a : Package) : a.SameButTests a := rfl

theorem symm (h : a.SameButTests b) : b.SameButTests a := by
  unfold SameButTests at h ⊢
  rw [← h]

theorem dependencies (h : a.SameButTests b) : b.dependencies = a.dependencies := by
  unfold SameButTests at h
  rw [← h]

theorem name_version (h : a.SameButTests b) : b.name = a.name ∧ b.version = a.version := by
  unfold SameButTests at h
  rw [← h]
  exact ⟨rfl, rfl⟩

end Package.SameButTests

theorem Application.SameButTests.symm {a b : Application} (h : a.SameButTests b) :
    b.SameButTests a := by
  unfold SameButTests at h ⊢
  rw [← h]

theorem Application.SameButTests.dependencies {a b : Application} (h : a.SameButTests b) :
    b.dependencies = a.dependencies := by
  unfold SameButTests at h
  rw [← h]

theorem Declaration.SameButTests.refl (a : Declaration) : a.SameButTests a := by
  cases a with
  | application a => exact .application rfl
  | package a => exact .package rfl

theorem Declaration.SameButTests.symm {a b : Declaration} (h : a.SameButTests b) :
    b.SameButTests a := by
  cases h with
  | application h => exact .application h.symm
  | package h => exact .package h.symm

namespace SameResult

variable {α β : Type} {R : α → β → Prop}

theorem eq_error {e : LoadError} {y : Except LoadError β} (h : SameResult R (.error e) y) :
    y = .error e := by
  cases h
  rfl

theorem exists_ok {a : α} {y : Except LoadError β} (h : SameResult R (.ok a) y) :
    ∃ b, y = .ok b ∧ R a b := by
  cases h with
  | ok hab => exact ⟨_, rfl, hab⟩

theorem imp {R' : α → β → Prop} {x : Except LoadError α} {y : Except LoadError β}
    (h : SameResult R x y) (hR : ∀ a b, R a b → R' a b) : SameResult R' x y := by
  cases h with
  | error e => exact .error e
  | ok hab => exact .ok (hR _ _ hab)

theorem map {α' β' : Type} {R' : α' → β' → Prop} {f : α → α'} {g : β → β'}
    {x : Except LoadError α} {y : Except LoadError β} (h : SameResult R x y)
    (hfg : ∀ {a b}, R a b → R' (f a) (g b)) : SameResult R' (x.map f) (y.map g) := by
  cases h with
  | error e => exact .error e
  | ok hab => exact .ok (hfg hab)

end SameResult

/-! ## Sessions of the two runs -/

/-- Two sessions that are the same, apart from what the kept results declare for tests. -/
structure Session.SameButTests (s t : Session) : Prop where
  /-- The packages under way are the same. -/
  inProgress : t.inProgress = s.inProgress
  /-- Results are kept for the same packages, and are the same, test dependencies aside. -/
  resolved : List.Forall₂ (fun a b => b.1 = a.1 ∧ a.2.SameButTests b.2) s.resolved t.resolved
  /-- The questions are the same. -/
  calls : t.calls = s.calls
  /-- The warnings are the same. -/
  warnings : t.warnings = s.warnings

namespace Session.SameButTests

variable {s t : Session}

theorem refl_empty : Session.empty.SameButTests .empty :=
  ⟨rfl, .nil, rfl, rfl⟩

theorem exists_kept? (h : s.SameButTests t) {request : String × Version} {project : Project}
    (hkept : kept? s.resolved request = some project) :
    ∃ project', kept? t.resolved request = some project' ∧ project.SameButTests project' := by
  have hresolved := h.resolved
  revert hkept
  generalize s.resolved = done at hresolved ⊢
  generalize t.resolved = done' at hresolved ⊢
  intro hkept
  induction hresolved with
  | nil => cases hkept
  | @cons entry entry' done done' hentry _ ih =>
      rw [kept?_cons] at hkept ⊢
      rw [hentry.1]
      by_cases hkey : packageKey entry.1 = packageKey request
      · rw [if_pos hkey] at hkept ⊢
        cases hkept
        exact ⟨entry'.2, rfl, hentry.2⟩
      · rw [if_neg hkey] at hkept ⊢
        exact ih hkept

theorem doneKeys_eq (h : s.SameButTests t) : doneKeys t.resolved = doneKeys s.resolved := by
  have hresolved := h.resolved
  generalize s.resolved = done at hresolved ⊢
  generalize t.resolved = done' at hresolved ⊢
  induction hresolved with
  | nil => rfl
  | cons hentry _ ih => rw [doneKeys_cons, doneKeys_cons, hentry.1, ih]

theorem kept?_eq_none (h : s.SameButTests t) {request : String × Version}
    (hkept : kept? s.resolved request = none) : kept? t.resolved request = none := by
  rw [kept?_eq_none_iff, h.doneKeys_eq]
  exact kept?_eq_none_iff.mp hkept

theorem lacks (h : s.SameButTests t) {request : String × Version} (hnew : s.Lacks request) :
    t.Lacks request := by
  refine ⟨?_, ?_⟩
  · rw [h.doneKeys_eq]
    exact hnew.notDone
  · rw [Session.underWay, h.inProgress]
    exact hnew.notUnderWay

theorem ask (h : s.SameButTests t) (query : Query) : (s.ask query).SameButTests (t.ask query) :=
  ⟨h.inProgress, h.resolved, congrArg (· ++ [query]) h.calls, h.warnings⟩

theorem askFor (h : s.SameButTests t) (demand : Demand) :
    (s.askFor demand).SameButTests (t.askFor demand) := by
  obtain ⟨name, requirement⟩ := demand
  cases requirement with
  | pinned version => exact h
  | within range => exact h.ask _

/-- The manifests declare one package, so both are warned of or neither is. -/
theorem check (h : s.SameButTests t) (request : String × Version) (path : Path)
    {declared declared' : Package} (hsame : declared.SameButTests declared') :
    (s.check request path declared).SameButTests (t.check request path declared') := by
  obtain ⟨hname, hversion⟩ := hsame.name_version
  unfold Session.check
  rw [hname, hversion]
  split
  · exact h
  · exact ⟨h.inProgress, h.resolved, h.calls, congrArg (· ++ [_]) h.warnings⟩

theorem start (h : s.SameButTests t) (request : String × Version) (path : Path)
    {declared declared' : Package} (hsame : declared.SameButTests declared') :
    (s.start request path declared).SameButTests (t.start request path declared') := by
  have hchecked := (h.ask (.find request.1 request.2)).check request path hsame
  exact ⟨congrArg (· ++ [request]) hchecked.inProgress, hchecked.resolved, hchecked.calls,
    hchecked.warnings⟩

theorem leave (h : s.SameButTests t) : s.leave.SameButTests t.leave :=
  ⟨congrArg List.dropLast h.inProgress, h.resolved, h.calls, h.warnings⟩

theorem finish (h : s.SameButTests t) (request : String × Version) {project project' : Project}
    (hsame : project.SameButTests project') :
    (s.finish request project).SameButTests (t.finish request project') :=
  ⟨h.inProgress, .cons ⟨rfl, hsame⟩ h.resolved, h.calls, h.warnings⟩

end Session.SameButTests

/-! ## The two runs -/

namespace Sources.SameButTests

variable {a b : Sources}

theorem symm (h : a.SameButTests b) : b.SameButTests a := by
  refine ⟨h.repository.symm, fun name version path hfind => ?_⟩
  rw [← h.repository] at hfind
  rcases h.files name version path hfind with hread |
    ⟨declared, declared', hdeclared, hdeclared', hsame⟩
  · exact .inl hread.symm
  · exact .inr ⟨declared', declared, hdeclared', hdeclared, hsame.symm⟩

/-- Versions are selected by what the repository answers. -/
theorem select_eq (h : a.SameButTests b) (name : String) (requirement : Requirement) :
    b.select name requirement = a.select name requirement := by
  unfold select
  rw [h.repository]

/-- The manifests that are fetched are the same, test dependencies aside, and so are the errors. -/
theorem fetch (h : a.SameButTests b) (name : String) (version : Version)
    (requirement : Requirement) :
    SameResult (fun found found' => found'.1 = found.1 ∧ found.2.SameButTests found'.2)
      (a.fetch name version requirement) (b.fetch name version requirement) := by
  unfold Sources.fetch
  rw [← h.repository]
  cases hfind : a.repository.find name version with
  | none => exact .error _
  | some path =>
      dsimp only
      rcases h.files name version path hfind with hread |
        ⟨declared, declared', hdeclared, hdeclared', hsame⟩
      · have hpackage : b.readPackage name path = a.readPackage name path := by
          unfold readPackage readManifest
          rw [hread]
        rw [hpackage]
        cases a.readPackage name path with
        | error error => exact .error error
        | ok declared => exact .ok ⟨rfl, .refl declared⟩
      · rw [readPackage_of_readManifest hdeclared, readPackage_of_readManifest hdeclared']
        exact .ok ⟨rfl, hsame⟩

theorem fetch_eq_error (h : a.SameButTests b) {name : String} {version : Version}
    {requirement : Requirement} {error : LoadError}
    (hfetch : a.fetch name version requirement = .error error) :
    b.fetch name version requirement = .error error := by
  have hsame := h.fetch name version requirement
  rw [hfetch] at hsame
  exact hsame.eq_error

theorem exists_fetch (h : a.SameButTests b) {name : String} {version : Version}
    {requirement : Requirement} {path : Path} {declared : Package}
    (hfetch : a.fetch name version requirement = .ok (path, declared)) :
    ∃ declared', b.fetch name version requirement = .ok (path, declared') ∧
      declared.SameButTests declared' := by
  have hsame := h.fetch name version requirement
  rw [hfetch] at hsame
  obtain ⟨⟨path', declared'⟩, hfetch', hpath, hdeclared⟩ := hsame.exists_ok
  cases hpath
  exact ⟨declared', hfetch', hdeclared⟩

private theorem runInvariant_sameButTests (h : a.SameButTests b) : a.RunInvariant
    (fun name version requirement s outcome t => ∀ s', s.SameButTests s' →
      ∃ outcome' t', b.load name version requirement s' = some (outcome', t') ∧
        SameResult Project.SameButTests outcome outcome' ∧ t.SameButTests t')
    (fun demands s outcome t => ∀ s', s.SameButTests s' →
      ∃ outcome' t', b.loadAll demands s' = some (outcome', t') ∧
        SameResult (List.Forall₂ Project.SameButTests) outcome outcome' ∧ t.SameButTests t') := by
  constructor
  case recalled =>
    intro name version requirement s project hdone s' hs
    obtain ⟨project', hdone', hsame⟩ := hs.exists_kept? hdone
    exact ⟨_, s', b.load_of_kept? requirement hdone', .ok hsame, hs⟩
  case cyclic =>
    intro name version requirement s chain hdone hchain s' hs
    rw [← hs.inProgress] at hchain
    exact ⟨_, s', b.load_of_closedChain? requirement (hs.kept?_eq_none hdone) hchain, .error _, hs⟩
  case unfetched =>
    intro name version requirement s error hnew hfetch s' hs
    exact ⟨_, _, b.load_of_fetch_error (hs.lacks hnew) (h.fetch_eq_error hfetch), .error error,
      hs.ask _⟩
  case failed =>
    intro name version requirement s path declared error t hnew hfetch _ ih s' hs
    -- The two manifests have the same runtime dependencies, so the call below is for the same
    -- demands.
    obtain ⟨declared', hfetch', hsame⟩ := h.exists_fetch hfetch
    obtain ⟨outcome', t', hrun', hresult, ht⟩ := ih _ (hs.start (name, version) path hsame)
    cases hresult.eq_error
    refine ⟨.error error, t'.leave, ?_, .error error, ht.leave⟩
    rw [b.load_of_fetch_ok (hs.lacks hnew) hfetch', hsame.dependencies, hrun']
    rfl
  case loaded =>
    intro name version requirement s path declared dependencies t hnew hfetch _ ih s' hs
    obtain ⟨declared', hfetch', hsame⟩ := h.exists_fetch hfetch
    obtain ⟨outcome', t', hrun', hresult, ht⟩ := ih _ (hs.start (name, version) path hsame)
    obtain ⟨dependencies', rfl, hdependencies⟩ := hresult.exists_ok
    -- The node has no test dependencies of its own in either run.
    have hproject : Project.SameButTests ⟨path, .package declared, dependencies, []⟩
        ⟨path, .package declared', dependencies', []⟩ := .intro (.package hsame) hdependencies .nil
    refine ⟨.ok ⟨path, .package declared', dependencies', []⟩, _, ?_, .ok hproject,
      ht.leave.finish (name, version) hproject⟩
    rw [b.load_of_fetch_ok (hs.lacks hnew) hfetch', hsame.dependencies, hrun']
    rfl
  case nil =>
    intro s s' hs
    exact ⟨_, s', b.loadAll_nil s', .ok .nil, hs⟩
  case unselected =>
    intro name requirement rest s error hselect s' hs
    rw [← h.select_eq] at hselect
    exact ⟨_, _, b.loadAll_of_select_error rest s' hselect, .error error, hs.askFor _⟩
  case headFailed =>
    intro name requirement rest s version error t hselect _ ih s' hs
    rw [← h.select_eq] at hselect
    obtain ⟨outcome', t', hload', hresult, ht⟩ := ih _ (hs.askFor (name, requirement))
    cases hresult.eq_error
    exact ⟨_, t', b.loadAll_of_load_error rest hselect hload', .error error, ht⟩
  case tail =>
    intro name requirement rest s version project t outcome u hselect _ ih _ ihRest s' hs
    rw [← h.select_eq] at hselect
    obtain ⟨outcome', t', hload', hresult, ht⟩ := ih _ (hs.askFor (name, requirement))
    obtain ⟨project', rfl, hproject⟩ := hresult.exists_ok
    obtain ⟨others, u', hrest', hothers, hu⟩ := ihRest t' ht
    refine ⟨others.map (project' :: ·), u', ?_, hothers.map fun hsame => .cons hproject hsame, hu⟩
    rw [b.loadAll_of_load_ok rest hselect hload', hrest']
    rfl

/-- What one run loads, the other loads as well, test dependencies aside. -/
theorem load (h : a.SameButTests b) {name : String} {version : Version}
    {requirement : Requirement} {s t s' : Session} {outcome : Except LoadError Project}
    (hrun : a.load name version requirement s = some (outcome, t)) (hs : s.SameButTests s') :
    ∃ outcome' t', b.load name version requirement s' = some (outcome', t') ∧
      SameResult Project.SameButTests outcome outcome' ∧ t.SameButTests t' :=
  h.runInvariant_sameButTests.load hrun s' hs

/-- **What one run loads for demands, the other loads as well**, test dependencies aside.  The
sessions differ in what the kept results declare for tests, which nothing looks at. -/
theorem loadAll (h : a.SameButTests b) {demands : List Demand} {s t s' : Session}
    {outcome : Except LoadError (List Project)}
    (hrun : a.loadAll demands s = some (outcome, t)) (hs : s.SameButTests s') :
    ∃ outcome' t', b.loadAll demands s' = some (outcome', t') ∧
      SameResult (List.Forall₂ Project.SameButTests) outcome outcome' ∧ t.SameButTests t' :=
  h.runInvariant_sameButTests.loadAll hrun s' hs

end Sources.SameButTests

/-! ## Manifests that load the same -/

/-- Two manifests that a run loads the same packages for, and that declare the same, test
dependencies aside. -/
structure Manifest.LoadsAlike (ignoreTests : Bool) (a b : Manifest) : Prop where
  /-- The runtime dependencies are the same. -/
  demands : b.demands = a.demands
  /-- The test dependencies are the same, or they are ignored. -/
  tests : (if ignoreTests then [] else b.testDemands) = if ignoreTests then [] else a.testDemands
  /-- The declarations are the same, test dependencies aside. -/
  declaration : a.declaration.SameButTests b.declaration

namespace Manifest.LoadsAlike

variable {ignoreTests : Bool} {manifest manifest' : Manifest}

theorem refl (ignoreTests : Bool) (manifest : Manifest) :
    manifest.LoadsAlike ignoreTests manifest :=
  ⟨rfl, rfl, .refl _⟩

theorem symm (h : manifest.LoadsAlike ignoreTests manifest') :
    manifest'.LoadsAlike ignoreTests manifest :=
  ⟨h.demands.symm, h.tests.symm, h.declaration.symm⟩

end Manifest.LoadsAlike

/-- When test dependencies are ignored, those of the manifest do not matter. -/
theorem Manifest.SameButTests.loadsAlike {manifest manifest' : Manifest}
    (h : manifest.SameButTests manifest') : manifest.LoadsAlike true manifest' := by
  cases h with
  | @application a b hsame =>
      refine ⟨?_, rfl, .application hsame⟩
      show pinDemands b.dependencies = pinDemands a.dependencies
      rw [hsame.dependencies]
  | @package a b hsame =>
      refine ⟨?_, rfl, .package hsame⟩
      show rangeDemands b.dependencies = rangeDemands a.dependencies
      rw [hsame.dependencies]
  | legacy a => exact .refl _ _

namespace Sources.SameButTests

variable {a b : Sources} {ignoreTests : Bool} {path : Path} {manifest manifest' : Manifest}

/-! ## Points of the two runs -/

/-- Every call of one run is made by the other as well, test dependencies aside. -/
theorem exists_calls (h : a.SameButTests b) (hroot : manifest.LoadsAlike ignoreTests manifest')
    {opened : List (String × Version)} {task : Task} {s : Session}
    (hcall : a.Calls ignoreTests manifest opened task s) :
    ∃ s', b.Calls ignoreTests manifest' opened task s' ∧ s.SameButTests s' := by
  induction hcall with
  | runtime =>
      refine ⟨.empty, ?_, .refl_empty⟩
      rw [← hroot.demands]
      exact .runtime
  | tests hruntime =>
      obtain ⟨_, t', hruntime', hresult, ht⟩ := h.loadAll hruntime .refl_empty
      obtain ⟨dependencies', rfl, -⟩ := hresult.exists_ok
      rw [← hroot.demands] at hruntime'
      rw [← hroot.tests]
      exact ⟨t', .tests hruntime', ht⟩
  | first _ hselect ih =>
      obtain ⟨s', hcall', hs⟩ := ih
      rw [← h.select_eq] at hselect
      exact ⟨_, .first hcall' hselect, hs.askFor _⟩
  | rest _ hselect hload ih =>
      obtain ⟨s', hcall', hs⟩ := ih
      rw [← h.select_eq] at hselect
      obtain ⟨_, t', hload', hresult, ht⟩ := h.load hload (hs.askFor _)
      obtain ⟨project', rfl, -⟩ := hresult.exists_ok
      exact ⟨t', .rest hcall' hselect hload', ht⟩
  | inside _ hnew hfetch ih =>
      obtain ⟨s', hcall', hs⟩ := ih
      obtain ⟨declared', hfetch', hsame⟩ := h.exists_fetch hfetch
      rw [← hsame.dependencies]
      exact ⟨_, .inside hcall' (hs.lacks hnew) hfetch', hs.start _ _ hsame⟩

/-- Every point of one run is passed by the other as well, test dependencies aside. -/
theorem exists_passes (h : a.SameButTests b) (hroot : manifest.LoadsAlike ignoreTests manifest')
    {opened : List (String × Version)} {s : Session}
    (hpoint : a.Passes ignoreTests manifest opened s) :
    ∃ s', b.Passes ignoreTests manifest' opened s' ∧ s.SameButTests s' := by
  -- Each point lies in a call, and the other run makes that call as well; what has happened in it
  -- so far is the same.
  cases hpoint with
  | begins hcall =>
      obtain ⟨s', hcall', hs⟩ := h.exists_calls hroot hcall
      exact ⟨s', .begins hcall', hs⟩
  | asked hcall =>
      obtain ⟨s', hcall', hs⟩ := h.exists_calls hroot hcall
      exact ⟨_, .asked hcall', hs.askFor _⟩
  | lookedUp hcall hnew =>
      obtain ⟨s', hcall', hs⟩ := h.exists_calls hroot hcall
      exact ⟨_, .lookedUp hcall' (hs.lacks hnew), hs.ask _⟩
  | found hcall hnew hfind =>
      obtain ⟨s', hcall', hs⟩ := h.exists_calls hroot hcall
      rw [h.repository] at hfind
      exact ⟨_, .found hcall' (hs.lacks hnew) hfind, hs.ask _⟩
  | checked hcall hnew hfetch =>
      obtain ⟨s', hcall', hs⟩ := h.exists_calls hroot hcall
      obtain ⟨declared', hfetch', hsame⟩ := h.exists_fetch hfetch
      exact ⟨_, .checked hcall' (hs.lacks hnew) hfetch', (hs.ask _).check _ _ hsame⟩
  | left hcall hnew hfetch hinside =>
      obtain ⟨s', hcall', hs⟩ := h.exists_calls hroot hcall
      obtain ⟨declared', hfetch', hsame⟩ := h.exists_fetch hfetch
      obtain ⟨outcome', t', hinside', -, ht⟩ := h.loadAll hinside (hs.start _ _ hsame)
      rw [← hsame.dependencies] at hinside'
      exact ⟨_, .left hcall' (hs.lacks hnew) hfetch' hinside', ht.leave⟩
  | returns hcall hload =>
      obtain ⟨s', hcall', hs⟩ := h.exists_calls hroot hcall
      obtain ⟨outcome', t', hload', -, ht⟩ := h.load hload hs
      exact ⟨t', .returns hcall' hload', ht⟩
  | returnsAll hcall hload =>
      obtain ⟨s', hcall', hs⟩ := h.exists_calls hroot hcall
      obtain ⟨outcome', t', hload', -, ht⟩ := h.loadAll hload hs
      exact ⟨t', .returnsAll hcall' hload', ht⟩

/-- What one run shows on the way, the other shows as well. -/
theorem shows (h : a.SameButTests b) (hroot : manifest.LoadsAlike ignoreTests manifest')
    {calls : List Query} {warnings : List Warning}
    (hshows : a.Shows ignoreTests manifest calls warnings) :
    b.Shows ignoreTests manifest' calls warnings := by
  obtain ⟨opened, s, hpoint, rfl, rfl⟩ := hshows
  obtain ⟨s', hpoint', hs⟩ := h.exists_passes hroot hpoint
  exact ⟨opened, s', hpoint', hs.calls, hs.warnings⟩

/-! ## Whole runs -/

/-- What one run makes of a manifest, the other makes of a manifest that loads the same. -/
theorem exists_resolve? (h : a.SameButTests b) (hroot : manifest.LoadsAlike ignoreTests manifest')
    {outcome : Outcome} (hrun : resolve? a ignoreTests path manifest = some outcome) :
    ∃ outcome', resolve? b ignoreTests path manifest' = some outcome' ∧
      outcome.SameUpTo (fun project project' => project.declaration = manifest.declaration ∧
        project'.declaration = manifest'.declaration ∧ project.SameButTests project') outcome' := by
  rcases resolve?_cases hrun with ⟨error, t, hruntime, rfl⟩ |
    ⟨dependencies, t, error, u, hruntime, hrest, rfl⟩ |
    ⟨dependencies, t, tests, u, hruntime, hrest, rfl⟩
  · obtain ⟨_, t', hruntime', hresult, ht⟩ := h.loadAll hruntime .refl_empty
    cases hresult.eq_error
    rw [← hroot.demands] at hruntime'
    exact ⟨_, resolve?_of_loadAll_error ignoreTests path hruntime', ht.calls.symm,
      ht.warnings.symm, .error error⟩
  · obtain ⟨_, t', hruntime', hresult, ht⟩ := h.loadAll hruntime .refl_empty
    obtain ⟨dependencies', rfl, -⟩ := hresult.exists_ok
    obtain ⟨_, u', hrest', hresult', hu⟩ := h.loadAll hrest ht
    cases hresult'.eq_error
    rw [← hroot.demands] at hruntime'
    rw [← hroot.tests] at hrest'
    exact ⟨_, resolve?_of_loadAll_ok ignoreTests path hruntime' hrest', hu.calls.symm,
      hu.warnings.symm, .error error⟩
  · obtain ⟨_, t', hruntime', hresult, ht⟩ := h.loadAll hruntime .refl_empty
    obtain ⟨dependencies', rfl, hdependencies⟩ := hresult.exists_ok
    obtain ⟨_, u', hrest', hresult', hu⟩ := h.loadAll hrest ht
    obtain ⟨tests', rfl, htests'⟩ := hresult'.exists_ok
    rw [← hroot.demands] at hruntime'
    rw [← hroot.tests] at hrest'
    exact ⟨_, resolve?_of_loadAll_ok ignoreTests path hruntime' hrest', hu.calls.symm,
      hu.warnings.symm, .ok ⟨rfl, rfl, .intro hroot.declaration hdependencies htests'⟩⟩

end Sources.SameButTests

/-- Runs that resolve manifests which load the same go side by side. -/
theorem Sources.SameButTests.runsAlike {a b : Sources} (h : a.SameButTests b) {ignoreTests : Bool}
    {manifest manifest' : Manifest} (hroot : manifest.LoadsAlike ignoreTests manifest')
    (path : Path) :
    RunsAlike (fun project project' => project.declaration = manifest.declaration ∧
      project'.declaration = manifest'.declaration ∧ project.SameButTests project')
      a b ignoreTests path manifest manifest' := by
  refine ⟨rel_of_exists (fun _ hrun => h.exists_resolve? hroot hrun) fun _ hrun => ?_,
    fun calls warnings => ⟨h.shows hroot, h.symm.shows hroot.symm⟩⟩
  obtain ⟨outcome, hrun', -⟩ := h.symm.exists_resolve? hroot.symm hrun
  exact ⟨outcome, hrun'⟩

theorem RunsAlike.imp {R R' : Project → Project → Prop} {a b : Sources} {ignoreTests : Bool}
    {path : Path} {manifest manifest' : Manifest}
    (h : RunsAlike R a b ignoreTests path manifest manifest')
    (hR : ∀ project project', R project project' → R' project project') :
    RunsAlike R' a b ignoreTests path manifest manifest' := by
  refine ⟨?_, h.shows⟩
  have houtcome := h.outcome
  revert houtcome
  generalize resolve? a ignoreTests path manifest = x
  generalize resolve? b ignoreTests path manifest' = y
  intro houtcome
  cases houtcome with
  | none => exact .none
  | some hsame => exact .some ⟨hsame.calls, hsame.warnings, hsame.result.imp hR⟩

/-- **Test dependencies of dependencies never matter.**  Take one repository and two sets of files
in which the manifests that it finds are the same, or declare packages that are the same but for
their test dependencies.  Whatever is resolved, one run ends exactly if the other does, after the
same questions and warnings, and with the same error or with trees that differ in what nodes below
the root declare for their tests; and if they do not end, they ask and warn of the same for ever.
When test dependencies are ignored, those of the manifest itself may be any others as well; then the
root of the trees may differ in them, too.  The reason is that `load_package` resolves what it has
found with `true` for `ignore_test_deps`. -/
theorem resolve?_sameButTests {a b : Sources} (h : a.SameButTests b) :
    (∀ ignoreTests path manifest,
      RunsAlike (fun project project' =>
          project.declaration = project'.declaration ∧ project.SameButTests project')
        a b ignoreTests path manifest manifest) ∧
    (∀ path manifest manifest', manifest.SameButTests manifest' →
      RunsAlike Project.SameButTests a b true path manifest manifest') := by
  refine ⟨?below, ?root⟩
  case below =>
    intro ignoreTests path manifest
    refine (h.runsAlike (.refl ignoreTests manifest) path).imp ?_
    rintro project project' ⟨hproject, hproject', hsame⟩
    exact ⟨hproject.trans hproject'.symm, hsame⟩
  case root =>
    intro path manifest manifest' hmanifest
    refine (h.runsAlike hmanifest.loadsAlike path).imp ?_
    rintro project project' ⟨-, -, hsame⟩
    exact hsame

/-! ## A package that declares test dependencies -/

/-- The manifest of the package without dependencies, with a test dependency added. -/
def testedLeafText : String :=
  "\x7b\"type\":\"package\",\"name\":\"a/leaf\",\"version\":\"1.0.0\"," ++
    "\"elm-version\":\"0.19.0 <= v < 0.20.0\"," ++
    "\"test-dependencies\":\x7b\"a/none\":\"1.0.0 <= v < 2.0.0\"\x7d\x7d"

/-- What `testedLeafText` declares. -/
def testedLeafPackage : Package :=
  { leafPackage with testDependencies := .ofList [("a/none", leafRange)] }

/-- The same repository, with the test dependency in the manifest that it finds.  What the test
dependency names is in no repository. -/
def testedLeafSources : Sources :=
  { leafSources with read := fun _ => .ok testedLeafText.toUTF8 }

theorem readManifest_testedLeaf :
    testedLeafSources.readManifest ⟨"leaf/elm.json"⟩ = .ok (.package testedLeafPackage) := by
  have h : (testedLeafSources.readManifest ⟨"leaf/elm.json"⟩).toOption =
      some (.package testedLeafPackage) := by decide +kernel
  cases hread : testedLeafSources.readManifest ⟨"leaf/elm.json"⟩ with
  | error error => rw [hread] at h; cases h
  | ok declared => rw [hread] at h; cases h; rfl

/-- The runs that resolve an application differ in what its dependency declares for tests, and when
test dependencies are ignored it may have others itself. -/
theorem resolve?_sameButTests_testedLeaf :
    leafSources.SameButTests testedLeafSources ∧
      resolve? leafSources false ⟨"elm.json"⟩ (.application aliasRoot) =
        some ⟨.ok aliasProject, [.find "a/leaf" leafVersion, .find "b/leaf" leafVersion],
          [aliasWarning]⟩ ∧
      RunsAlike (fun project project' =>
          project.declaration = project'.declaration ∧ project.SameButTests project')
        leafSources testedLeafSources false ⟨"elm.json"⟩ (.application aliasRoot)
        (.application aliasRoot) ∧
      Manifest.SameButTests (.application aliasRoot)
        (.application { aliasRoot with testDependencies := .empty }) ∧
      RunsAlike Project.SameButTests leafSources testedLeafSources true ⟨"elm.json"⟩
        (.application aliasRoot) (.application { aliasRoot with testDependencies := .empty }) := by
  have hsources : leafSources.SameButTests testedLeafSources := by
    refine ⟨rfl, fun name version path hfind => .inr ?_⟩
    cases hfind
    exact ⟨leafPackage, testedLeafPackage,
      Sources.readManifest_of_readPackage readPackage_leaf, readManifest_testedLeaf, rfl⟩
  have hmanifest : Manifest.SameButTests (.application aliasRoot)
      (.application { aliasRoot with testDependencies := .empty }) := .application rfl
  obtain ⟨hbelow, hroot⟩ := resolve?_sameButTests hsources
  exact ⟨hsources, resolve?_aliasRoot, hbelow false ⟨"elm.json"⟩ (.application aliasRoot),
    hmanifest, hroot ⟨"elm.json"⟩ _ _ hmanifest⟩

end ElmManifest
