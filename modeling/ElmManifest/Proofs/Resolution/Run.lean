import ElmManifest.Proofs.Resolution.Steps
import ElmManifest.Proofs.Success
import Mathlib.Data.List.Forall2
import Mathlib.Data.List.Infix

/-!
# Runs

What a resolving run does, once for all that is said about it: what a call leaves behind, what the
results are that are kept, and how a whole run ends.

## Main Definitions

* `Session.LeadsTo` — what is left of a session in a later one.
* `Sources.Meets`, `Sources.Settled` — kept results in which every dependency was settled before.
* `Session.Sound` — every key at most once, and settled results.

## Main Statements

* `Sources.load_leadsTo`, `Sources.loadAll_leadsTo` — a call leaves the packages under way as it
  found them, and forgets nothing.
* `Sources.load_sound`, `Sources.loadAll_sound` — a call keeps the session sound.
* `Sources.kept?_of_load`, `Sources.meets_of_loadAll` — and its results in the session.
* `resolve?_cases` — how a whole run ends.
-/

namespace ElmManifest

/-! ## What a call leaves behind -/

/-- A later session in which the same packages are under way and nothing is forgotten.  Every call
ends in such a session. -/
structure Session.LeadsTo (s t : Session) : Prop where
  /-- The packages under way are the same. -/
  inProgress : t.inProgress = s.inProgress
  /-- Packages that are done stay done. -/
  resolved : s.resolved <:+ t.resolved
  /-- Questions that have been asked stay asked. -/
  calls : s.calls <+: t.calls

namespace Session.LeadsTo

variable {s t u : Session}

theorem refl (s : Session) : s.LeadsTo s :=
  ⟨rfl, List.suffix_rfl, List.prefix_rfl⟩

theorem trans (h₁ : s.LeadsTo t) (h₂ : t.LeadsTo u) : s.LeadsTo u :=
  ⟨h₂.inProgress.trans h₁.inProgress, h₁.resolved.trans h₂.resolved, h₁.calls.trans h₂.calls⟩

theorem ask (s : Session) (query : Query) : s.LeadsTo (s.ask query) :=
  ⟨rfl, List.suffix_rfl, List.prefix_append _ _⟩

theorem askFor (s : Session) (demand : Demand) : s.LeadsTo (s.askFor demand) := by
  obtain ⟨name, requirement⟩ := demand
  cases requirement with
  | pinned version => exact refl s
  | within range => exact ask s _

/-- Leaving takes back what entering put under way. -/
theorem leave {request : String × Version} {path : Path} {declared : Package}
    (h : (s.start request path declared).LeadsTo t) : s.LeadsTo t.leave where
  inProgress := by rw [inProgress_leave, h.inProgress]; simp
  resolved := by simpa using h.resolved
  calls := (List.prefix_append s.calls _).trans (by simpa using h.calls)

theorem finish (h : s.LeadsTo t) (request : String × Version) (project : Project) :
    s.LeadsTo (t.finish request project) :=
  ⟨h.inProgress, h.resolved.trans (List.suffix_cons _ _), h.calls⟩

theorem underWay (h : s.LeadsTo t) : t.underWay = s.underWay := by
  rw [Session.underWay, h.inProgress, Session.underWay]

end Session.LeadsTo

namespace Sources

variable (sources : Sources)

private theorem runInvariant_leadsTo :
    sources.RunInvariant (fun _ _ _ s _ t => s.LeadsTo t) (fun _ s _ t => s.LeadsTo t) := by
  constructor
  case recalled => exact fun _ => .refl _
  case cyclic => exact fun _ _ => .refl _
  case unfetched => exact fun _ _ => .ask _ _
  case failed => exact fun _ _ _ ih => ih.leave
  case loaded => exact fun _ _ _ ih => ih.leave.finish _ _
  case nil => exact .refl _
  case unselected => exact fun _ => .askFor _ _
  case headFailed => exact fun _ _ ih => (Session.LeadsTo.askFor _ _).trans ih
  case tail => exact fun _ _ ih _ ihRest => (Session.LeadsTo.askFor _ _).trans (ih.trans ihRest)

variable {sources}

/-- **Loading a package leaves the packages under way as it found them**, whether it fails or not,
and forgets nothing.  So whoever calls it finds `in_progress` as it was. -/
theorem load_leadsTo {name : String} {version : Version} {requirement : Requirement}
    {s t : Session} {outcome : Except LoadError Project}
    (h : sources.load name version requirement s = some (outcome, t)) : s.LeadsTo t :=
  sources.runInvariant_leadsTo.load h

/-- Loading several packages leaves the packages under way as it found them, too. -/
theorem loadAll_leadsTo {demands : List Demand} {s t : Session}
    {outcome : Except LoadError (List Project)}
    (h : sources.loadAll demands s = some (outcome, t)) : s.LeadsTo t :=
  sources.runInvariant_leadsTo.loadAll h

end Sources

/-! ## Kept results -/

/-- Of two lists that agree one by one, each item of the second has its item of the first. -/
theorem exists_left_of_forall₂ {α β : Type} {R : α → β → Prop} {as : List α} {bs : List β}
    (h : List.Forall₂ R as bs) {b : β} (hb : b ∈ bs) : ∃ a ∈ as, R a b := by
  induction h with
  | nil => exact absurd hb List.not_mem_nil
  | @cons a _ as _ hab _ ih =>
      rcases List.mem_cons.mp hb with rfl | hb
      · exact ⟨a, List.mem_cons_self .., hab⟩
      · obtain ⟨a, ha, hab⟩ := ih hb
        exact ⟨a, List.mem_cons_of_mem _ ha, hab⟩

/-- Two values of which each is there if the other is, and which are related then. -/
theorem rel_of_exists {α β : Type} {R : α → β → Prop} {x : Option α} {y : Option β}
    (hleft : ∀ a, x = some a → ∃ b, y = some b ∧ R a b)
    (hright : ∀ b, y = some b → ∃ a, x = some a) : Option.Rel R x y := by
  cases hx : x with
  | some a =>
      obtain ⟨b, hy, hab⟩ := hleft a hx
      rw [hy]
      exact .some hab
  | none =>
      cases hy : y with
      | none => exact .none
      | some b =>
          obtain ⟨a, ha⟩ := hright b hy
          rw [hx] at ha
          cases ha

namespace Sources

variable {sources : Sources}

/-- What fetching comes to: a look-up, and reading what was found. -/
theorem fetch_eq_ok_iff {name : String} {version : Version} {requirement : Requirement}
    {path : Path} {declared : Package} :
    sources.fetch name version requirement = .ok (path, declared) ↔
      sources.repository.find name version = some path ∧
        sources.readPackage name path = .ok declared := by
  cases hfind : sources.repository.find name version with
  | none => simp [fetch, hfind]
  | some found =>
      rw [fetch, hfind]
      constructor
      · intro h
        cases hread : sources.readPackage name found with
        | error error =>
            simp only [hread] at h
            cases h
        | ok package =>
            simp only [hread] at h
            cases h
            exact ⟨rfl, hread⟩
      · rintro ⟨hpath, hread⟩
        cases hpath
        simp only [hread]
        rfl

/-- The project is kept as the result for a version that is selected for the demand.  The version is
the one that `load_exact` or `load_constrained` would ask for. -/
def Meets (sources : Sources) (done : List ((String × Version) × Project)) (demand : Demand)
    (project : Project) : Prop :=
  ∃ version, sources.select demand.1 demand.2 = .ok version ∧
    kept? done (demand.1, version) = some project

/-- Kept results, the newest first: each is for a package that was not done before, and is made of
the manifest that was found for the package and of older results, one for each dependency.  It says
where every entry of `resolved` comes from, so that a statement about a kept result can be proved
for it when it is settled. -/
inductive Settled (sources : Sources) : List ((String × Version) × Project) → Prop where
  | nil : Settled sources []
  | cons {done : List ((String × Version) × Project)} {name : String} {version : Version}
      {path : Path} {declared : Package} {dependencies : List Project}
      (earlier : Settled sources done)
      (fresh : packageKey (name, version) ∉ doneKeys done)
      (found : sources.repository.find name version = some path)
      (read : sources.readPackage name path = .ok declared)
      (met : List.Forall₂ (sources.Meets done) (rangeDemands declared.dependencies)
        dependencies) :
      Settled sources (((name, version), ⟨path, .package declared, dependencies, []⟩) :: done)

theorem Settled.nodup {done : List ((String × Version) × Project)} (h : sources.Settled done) :
    (doneKeys done).Nodup := by
  induction h with
  | nil => exact List.nodup_nil
  | cons _ fresh _ _ _ ih => exact List.nodup_cons.mpr ⟨fresh, ih⟩

/-- How a kept result was settled: from what was found for its package and from older results. -/
theorem Settled.exists_of_mem {done : List ((String × Version) × Project)}
    (h : sources.Settled done) {entry : (String × Version) × Project} (hentry : entry ∈ done) :
    ∃ newer earlier path declared, done = newer ++ entry :: earlier ∧
      entry.2.manifestPath = path ∧ entry.2.declaration = .package declared ∧
      sources.repository.find entry.1.1 entry.1.2 = some path ∧
      sources.readPackage entry.1.1 path = .ok declared ∧
      List.Forall₂ (sources.Meets earlier) (rangeDemands declared.dependencies)
        entry.2.dependencies := by
  induction h with
  | nil => exact absurd hentry List.not_mem_nil
  | @cons done name version path declared dependencies _ _ found read met ih =>
      rcases List.mem_cons.mp hentry with rfl | hentry
      · exact ⟨[], done, path, declared, rfl, rfl, rfl, found, read, met⟩
      · obtain ⟨newer, earlier, path, declared, rfl, hrest⟩ := ih hentry
        exact ⟨_ :: newer, earlier, path, declared, rfl, hrest⟩

/-- What met a demand still meets it when more is done. -/
theorem Meets.mono {earlier done : List ((String × Version) × Project)} {demand : Demand}
    {project : Project} (h : sources.Meets earlier demand project) (hdone : sources.Settled done)
    (hsuffix : earlier <:+ done) : sources.Meets done demand project := by
  obtain ⟨version, hselect, hkept⟩ := h
  obtain ⟨newer, rfl⟩ := hsuffix
  exact ⟨version, hselect, kept?_append hdone.nodup hkept⟩

end Sources

/-- A session in which every key is there at most once and the kept results are settled, each after
a look-up. -/
structure Session.Sound (sources : Sources) (s : Session) : Prop where
  /-- No two packages under way have one key. -/
  distinct : s.underWay.Nodup
  /-- No package under way is done. -/
  apart : s.underWay.Disjoint (doneKeys s.resolved)
  /-- The kept results are settled. -/
  settled : sources.Settled s.resolved
  /-- Packages that are done have been looked up. -/
  logged : ∀ entry ∈ s.resolved, Query.find entry.1.1 entry.1.2 ∈ s.calls

namespace Session.Sound

variable {sources : Sources} {s t : Session}

theorem empty (sources : Sources) : Session.empty.Sound sources :=
  ⟨List.nodup_nil, List.disjoint_nil_left _, .nil, fun _ h => absurd h List.not_mem_nil⟩

theorem ask (h : s.Sound sources) (query : Query) : (s.ask query).Sound sources :=
  ⟨h.distinct, h.apart, h.settled, fun entry hentry =>
    List.mem_append_left _ (h.logged entry hentry)⟩

theorem askFor (h : s.Sound sources) (demand : Demand) : (s.askFor demand).Sound sources := by
  obtain ⟨name, requirement⟩ := demand
  cases requirement with
  | pinned version => exact h
  | within range => exact h.ask _

theorem check (h : s.Sound sources) (request : String × Version) (path : Path)
    (declared : Package) : (s.check request path declared).Sound sources := by
  unfold Session.check
  split
  · exact h
  · exact ⟨h.distinct, h.apart, h.settled, h.logged⟩

/-- A package that is neither done nor under way may be put under way. -/
theorem start {request : String × Version} (h : s.Sound sources) (hnew : s.Lacks request)
    (path : Path) (declared : Package) : (s.start request path declared).Sound sources where
  distinct := by
    simp only [underWay, inProgress_start, List.map_append, List.map_cons, List.map_nil]
    rw [← List.concat_eq_append]
    exact List.Nodup.concat hnew.notUnderWay h.distinct
  apart := by
    simp only [underWay, inProgress_start, resolved_start, List.map_append, List.map_cons,
      List.map_nil, List.disjoint_append_left, List.singleton_disjoint]
    exact ⟨h.apart, hnew.notDone⟩
  settled := by simpa using h.settled
  logged := by
    intro entry hentry
    rw [resolved_start] at hentry
    rw [calls_start]
    exact List.mem_append_left _ (h.logged entry hentry)

/-- The package that was put under way last may be taken back. -/
theorem leave (h : t.Sound sources) : t.leave.Sound sources := by
  have hsub : t.leave.underWay.Sublist t.underWay := (List.dropLast_sublist _).map _
  exact ⟨h.distinct.sublist hsub, fun _ hmem => h.apart (hsub.subset hmem), h.settled,
    h.logged⟩

/-- A package whose dependencies have been loaded below it is done. -/
theorem finish {name : String} {version : Version} {path : Path} {declared : Package}
    {dependencies : List Project} (h : t.Sound sources)
    (hstart : (s.start (name, version) path declared).LeadsTo t)
    (found : sources.repository.find name version = some path)
    (read : sources.readPackage name path = .ok declared)
    (met : List.Forall₂ (sources.Meets t.resolved) (rangeDemands declared.dependencies)
      dependencies) :
    (t.leave.finish (name, version) ⟨path, .package declared, dependencies, []⟩).Sound sources where
  distinct := h.leave.distinct
  apart := by
    have hstack : t.underWay = s.underWay ++ [packageKey (name, version)] := by
      rw [hstart.underWay, underWay, inProgress_start, List.map_append]
      rfl
    have hleft : t.leave.underWay = s.underWay := hstart.leave.underWay
    have hnodup := h.distinct
    rw [hstack, List.nodup_append] at hnodup
    intro key hkey hdone
    rcases List.mem_cons.mp hdone with rfl | hdone
    -- The package itself was the last under way, and no other package there has its key.
    · exact hnodup.2.2 _ (hleft ▸ hkey) _ (List.mem_singleton_self _) rfl
    · exact h.leave.apart hkey hdone
  settled := by
    -- What is under way is not done, and the package was under way until now.
    refine .cons h.settled (fun hdone => h.apart ?_ hdone) found read met
    rw [hstart.underWay, underWay, inProgress_start, List.map_append]
    exact List.mem_append_right _ (List.mem_singleton_self _)
  logged := by
    intro entry hentry
    rcases List.mem_cons.mp hentry with rfl | hentry
    · exact hstart.calls.subset (by simp)
    · exact h.logged entry hentry

end Session.Sound

namespace Sources

variable (sources : Sources)

private theorem runInvariant_sound : sources.RunInvariant
    (fun name version _ s outcome t => s.Sound sources →
      t.Sound sources ∧ ∀ project, outcome = .ok project →
        kept? t.resolved (name, version) = some project)
    (fun demands s outcome t => s.Sound sources →
      t.Sound sources ∧ ∀ projects, outcome = .ok projects →
        List.Forall₂ (sources.Meets t.resolved) demands projects) := by
  constructor
  case recalled =>
    intro name version requirement s project hdone hs
    exact ⟨hs, fun _ h => by cases h; exact hdone⟩
  case cyclic =>
    intro name version requirement s chain _ _ hs
    exact ⟨hs, fun _ h => by cases h⟩
  case unfetched =>
    intro name version requirement s error _ _ hs
    exact ⟨hs.ask _, fun _ h => by cases h⟩
  case failed =>
    intro name version requirement s path declared error t hnew _ _ ih hs
    exact ⟨(ih (hs.start hnew _ _)).1.leave, fun _ h => by cases h⟩
  case loaded =>
    intro name version requirement s path declared dependencies t hnew hfetch hrun ih hs
    obtain ⟨ht, hmet⟩ := ih (hs.start hnew _ _)
    obtain ⟨hfound, hread⟩ := fetch_eq_ok_iff.mp hfetch
    refine ⟨ht.finish (loadAll_leadsTo hrun) hfound hread (hmet _ rfl), ?_⟩
    rintro project ⟨⟩
    simp [kept?_cons]
  case nil =>
    intro s hs
    exact ⟨hs, fun _ h => by cases h; exact .nil⟩
  case unselected =>
    intro name requirement rest s error _ hs
    exact ⟨hs.askFor _, fun _ h => by cases h⟩
  case headFailed =>
    intro name requirement rest s version error t _ _ ih hs
    exact ⟨(ih (hs.askFor _)).1, fun _ h => by cases h⟩
  case tail =>
    intro name requirement rest s version project t outcome u hselect _ ih hrest ihRest hs
    obtain ⟨ht, hproject⟩ := ih (hs.askFor _)
    obtain ⟨hu, hprojects⟩ := ihRest ht
    refine ⟨hu, ?_⟩
    cases outcome with
    | error error => exact fun _ h => by cases h
    | ok projects =>
        rintro _ ⟨⟩
        -- The first result is still kept when the others have been loaded.
        have hmeets : sources.Meets t.resolved (name, requirement) project :=
          ⟨version, hselect, hproject _ rfl⟩
        exact .cons (hmeets.mono hu.settled (loadAll_leadsTo hrest).resolved) (hprojects _ rfl)

variable {sources}

theorem load_sound {name : String} {version : Version} {requirement : Requirement}
    {s t : Session} {outcome : Except LoadError Project}
    (h : sources.load name version requirement s = some (outcome, t)) (hs : s.Sound sources) :
    t.Sound sources :=
  (sources.runInvariant_sound.load h hs).1

theorem loadAll_sound {demands : List Demand} {s t : Session}
    {outcome : Except LoadError (List Project)}
    (h : sources.loadAll demands s = some (outcome, t)) (hs : s.Sound sources) :
    t.Sound sources :=
  (sources.runInvariant_sound.loadAll h hs).1

/-- The result of loading a package is kept. -/
theorem kept?_of_load {name : String} {version : Version} {requirement : Requirement}
    {s t : Session} {project : Project}
    (h : sources.load name version requirement s = some (.ok project, t))
    (hs : s.Sound sources) : kept? t.resolved (name, version) = some project :=
  (sources.runInvariant_sound.load h hs).2 _ rfl

/-- The results of loading several packages are kept. -/
theorem meets_of_loadAll {demands : List Demand} {s t : Session} {projects : List Project}
    (h : sources.loadAll demands s = some (.ok projects, t)) (hs : s.Sound sources) :
    List.Forall₂ (sources.Meets t.resolved) demands projects :=
  (sources.runInvariant_sound.loadAll h hs).2 _ rfl

end Sources

/-! ## Whole runs -/

/-- A run fails with the first runtime dependency that fails. -/
theorem resolve?_of_loadAll_error {sources : Sources} (ignoreTests : Bool) (path : Path)
    {manifest : Manifest} {error : LoadError} {t : Session}
    (h : sources.loadAll manifest.demands .empty = some (.error error, t)) :
    resolve? sources ignoreTests path manifest = some ⟨.error error, t.calls, t.warnings⟩ := by
  rw [resolve?, Sources.loadManifest, h]
  rfl

/-- After the runtime dependencies come the test dependencies. -/
theorem resolve?_of_loadAll_ok {sources : Sources} (ignoreTests : Bool) (path : Path)
    {manifest : Manifest} {dependencies : List Project} {t u : Session}
    {outcome : Except LoadError (List Project)}
    (hruntime : sources.loadAll manifest.demands .empty = some (.ok dependencies, t))
    (htests : sources.loadAll (if ignoreTests then [] else manifest.testDemands) t =
      some (outcome, u)) :
    resolve? sources ignoreTests path manifest =
      some ⟨outcome.map fun tests => ⟨path, manifest.declaration, dependencies, tests⟩, u.calls,
        u.warnings⟩ := by
  rw [resolve?, Sources.loadManifest, hruntime]
  simp only [Option.bind_eq_bind, Option.bind_some, htests]
  rfl

/-- **How a whole run ends**: a runtime dependency fails, a test dependency fails, or all of them
are loaded, the test dependencies in the session that the others leave behind.  The cases are those
of `resolve_manifest` on the root. -/
theorem resolve?_cases {sources : Sources} {ignoreTests : Bool} {path : Path}
    {manifest : Manifest} {outcome : Outcome}
    (h : resolve? sources ignoreTests path manifest = some outcome) :
    (∃ error t, sources.loadAll manifest.demands .empty = some (.error error, t) ∧
      outcome = ⟨.error error, t.calls, t.warnings⟩) ∨
    (∃ dependencies t error u,
      sources.loadAll manifest.demands .empty = some (.ok dependencies, t) ∧
      sources.loadAll (if ignoreTests then [] else manifest.testDemands) t =
        some (.error error, u) ∧
      outcome = ⟨.error error, u.calls, u.warnings⟩) ∨
    (∃ dependencies t tests u,
      sources.loadAll manifest.demands .empty = some (.ok dependencies, t) ∧
      sources.loadAll (if ignoreTests then [] else manifest.testDemands) t =
        some (.ok tests, u) ∧
      outcome = ⟨.ok ⟨path, manifest.declaration, dependencies, tests⟩, u.calls,
        u.warnings⟩) := by
  rw [resolve?, Sources.loadManifest] at h
  obtain ⟨r, hr, rfl⟩ := Option.map_eq_some_iff.mp h
  obtain ⟨⟨runtime, t⟩, hruntime, hr⟩ := Option.bind_eq_some_iff.mp hr
  cases runtime with
  | error error =>
      cases hr
      exact .inl ⟨error, t, hruntime, rfl⟩
  | ok dependencies =>
      obtain ⟨⟨tests, u⟩, htests, hr⟩ := Option.bind_eq_some_iff.mp hr
      cases hr
      cases tests with
      | error error => exact .inr (.inl ⟨dependencies, t, error, u, hruntime, htests, rfl⟩)
      | ok tests => exact .inr (.inr ⟨dependencies, t, tests, u, hruntime, htests, rfl⟩)

/-- What a run that succeeds leaves behind: a sound session in which nothing is under way, and the
results that the project is made of. -/
theorem exists_session_of_resolve? {sources : Sources} {ignoreTests : Bool} {path : Path}
    {manifest : Manifest} {outcome : Outcome} {project : Project}
    (h : resolve? sources ignoreTests path manifest = some outcome)
    (hproject : outcome.result = .ok project) :
    ∃ (dependencies tests : List Project) (t u : Session),
      sources.loadAll manifest.demands .empty = some (.ok dependencies, t) ∧
      sources.loadAll (if ignoreTests then [] else manifest.testDemands) t =
        some (.ok tests, u) ∧
      u.Sound sources ∧ u.inProgress = [] ∧ u.calls = outcome.calls ∧
      project = ⟨path, manifest.declaration, dependencies, tests⟩ ∧
      List.Forall₂ (sources.Meets u.resolved) manifest.demands dependencies ∧
      List.Forall₂ (sources.Meets u.resolved) (if ignoreTests then [] else manifest.testDemands)
        tests := by
  rcases resolve?_cases h with ⟨_, _, _, rfl⟩ | ⟨_, _, _, _, _, _, rfl⟩ |
    ⟨dependencies, t, tests, u, hruntime, htests, rfl⟩
  · cases hproject
  · cases hproject
  · cases hproject
    have ht : t.Sound sources := Sources.loadAll_sound hruntime (.empty sources)
    have hu : u.Sound sources := Sources.loadAll_sound htests ht
    have hleads := (Sources.loadAll_leadsTo hruntime).trans (Sources.loadAll_leadsTo htests)
    refine ⟨dependencies, tests, t, u, hruntime, htests, hu, hleads.inProgress, rfl, rfl, ?_,
      Sources.meets_of_loadAll htests ht⟩
    exact (Sources.meets_of_loadAll hruntime (.empty sources)).imp fun _ _ hmeets =>
      hmeets.mono hu.settled (Sources.loadAll_leadsTo htests).resolved

/-! ## A package without dependencies -/

/-- The manifest of a package without dependencies. -/
def leafText : String :=
  "\x7b\"type\":\"package\",\"name\":\"a/leaf\",\"version\":\"1.0.0\"," ++
    "\"elm-version\":\"0.19.0 <= v < 0.20.0\"\x7d"

/-- The version of the package. -/
def leafVersion : Version := .ofNumbers 1 0 0

/-- What `leafText` declares. -/
def leafPackage : Package where
  name := "a/leaf"
  version := leafVersion
  summary := none
  license := none
  elmVersion := ⟨.ofNumbers 0 19 0, true, .ofNumbers 0 20 0, false⟩
  exposedModules := []
  dependencies := .empty
  testDependencies := .empty

/-- The package, resolved. -/
def leafProject : Project := ⟨⟨"leaf/elm.json"⟩, .package leafPackage, [], []⟩

/-- A repository that has the package and nothing else. -/
def leafSources : Sources where
  repository := ⟨fun _ _ => some ⟨"leaf/elm.json"⟩, fun _ => .ofList [leafVersion]⟩
  read _ := .ok leafText.toUTF8

theorem readPackage_leaf :
    leafSources.readPackage "a/leaf" ⟨"leaf/elm.json"⟩ = .ok leafPackage :=
  eq_ok_of_toOption (by decide +kernel)

/-- The package is looked up when it is loaded for the first time. -/
theorem load_leaf (requirement : Requirement) (calls : List Query) :
    leafSources.load "a/leaf" leafVersion requirement ⟨[], [], calls, []⟩ =
      some (.ok leafProject, ⟨[], [(("a/leaf", leafVersion), leafProject)],
        calls ++ [.find "a/leaf" leafVersion], []⟩) := by
  have hfetch : leafSources.fetch "a/leaf" leafVersion requirement =
      .ok (⟨"leaf/elm.json"⟩, leafPackage) :=
    Sources.fetch_eq_ok_iff.mpr ⟨rfl, readPackage_leaf⟩
  have hnew : Session.Lacks ⟨[], [], calls, []⟩ ("a/leaf", leafVersion) :=
    ⟨List.not_mem_nil, List.not_mem_nil⟩
  exact leafSources.load_of_no_demands hnew hfetch rfl

end ElmManifest
