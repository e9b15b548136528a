import ElmManifest.Proofs.Resolution.Sharing
import ElmManifest.Proofs.Resolution.Termination

/-!
# Ignored test dependencies

A run that ignores the test dependencies of the manifest is the first part of the run that does not.
The runtime dependencies come first in both, in sessions that are the same, so nothing that is
loaded for tests can have an influence on them; and whatever comes after them only adds questions
and warnings.

## Main Definitions

* `Session.Extends` — a later session, with more questions and more warnings.

## Main Statements

* `Sources.extends_of_loadAll` — loading packages only adds questions and warnings.
* `resolve?_extends` — the run with test dependencies goes on where the one that ignores them ends.
-/

namespace ElmManifest

/-! ## Questions and warnings only become more -/

/-- The questions and warnings of one session are the first ones of the other. -/
structure Session.Extends (s t : Session) : Prop where
  /-- The questions come first. -/
  calls : s.calls <+: t.calls
  /-- So do the warnings. -/
  warnings : s.warnings <+: t.warnings

namespace Session.Extends

variable {s t u : Session}

theorem refl (s : Session) : s.Extends s :=
  ⟨List.prefix_rfl, List.prefix_rfl⟩

theorem trans (h₁ : s.Extends t) (h₂ : t.Extends u) : s.Extends u :=
  ⟨h₁.calls.trans h₂.calls, h₁.warnings.trans h₂.warnings⟩

theorem ask (h : s.Extends t) (query : Query) : s.Extends (t.ask query) :=
  ⟨h.calls.trans (List.prefix_append _ _), h.warnings⟩

theorem askFor (h : s.Extends t) (demand : Demand) : s.Extends (t.askFor demand) := by
  obtain ⟨name, requirement⟩ := demand
  cases requirement with
  | pinned version => exact h
  | within range => exact h.ask _

theorem check (h : s.Extends t) (request : String × Version) (path : Path) (declared : Package) :
    s.Extends (t.check request path declared) := by
  unfold Session.check
  split
  · exact h
  · exact ⟨h.calls, h.warnings.trans (List.prefix_append _ _)⟩

theorem start (h : s.Extends t) (request : String × Version) (path : Path) (declared : Package) :
    s.Extends (t.start request path declared) := by
  have hchecked := (h.ask (.find request.1 request.2)).check request path declared
  exact ⟨hchecked.calls, hchecked.warnings⟩

theorem leave (h : s.Extends t) : s.Extends t.leave :=
  ⟨h.calls, h.warnings⟩

theorem finish (h : s.Extends t) (request : String × Version) (project : Project) :
    s.Extends (t.finish request project) :=
  ⟨h.calls, h.warnings⟩

end Session.Extends

namespace Sources

variable {sources : Sources}

private theorem runInvariant_extends (sources : Sources) :
    sources.RunInvariant (fun _ _ _ s _ t => s.Extends t) (fun _ s _ t => s.Extends t) := by
  constructor
  case recalled => exact fun _ => .refl _
  case cyclic => exact fun _ _ => .refl _
  case unfetched => exact fun _ _ => (Session.Extends.refl _).ask _
  case failed =>
    intro name version requirement s path declared error t _ _ _ ih
    exact (((Session.Extends.refl s).start _ path declared).trans ih).leave
  case loaded =>
    intro name version requirement s path declared dependencies t _ _ _ ih
    exact (((Session.Extends.refl s).start _ path declared).trans ih).leave.finish _ _
  case nil => exact .refl _
  case unselected => exact fun _ => (Session.Extends.refl _).askFor _
  case headFailed =>
    intro name requirement rest s version error t _ _ ih
    exact ((Session.Extends.refl s).askFor _).trans ih
  case tail =>
    intro name requirement rest s version project t outcome u _ _ ih _ ihRest
    exact (((Session.Extends.refl s).askFor _).trans ih).trans ihRest

/-- Loading a package only adds questions and warnings, whether it fails or not. -/
theorem extends_of_load {name : String} {version : Version} {requirement : Requirement}
    {s t : Session} {outcome : Except LoadError Project}
    (h : sources.load name version requirement s = some (outcome, t)) : s.Extends t :=
  (runInvariant_extends sources).load h

/-- Loading several packages only adds questions and warnings, too. -/
theorem extends_of_loadAll {demands : List Demand} {s t : Session}
    {outcome : Except LoadError (List Project)}
    (h : sources.loadAll demands s = some (outcome, t)) : s.Extends t :=
  (runInvariant_extends sources).loadAll h

/-! ## Points of the two runs -/

section Points

variable {manifest : Manifest} {dependencies : List Project} {t : Session}

/-- Every call of the run with test dependencies is one of the run that ignores them, or comes after
all runtime dependencies have been loaded. -/
theorem Calls.ignoring_or_extends
    (hruntime : sources.loadAll manifest.demands .empty = some (.ok dependencies, t))
    {opened : List (String × Version)} {task : Task} {s : Session}
    (h : sources.Calls false manifest opened task s) :
    sources.Calls true manifest opened task s ∨ t.Extends s := by
  induction h with
  | runtime => exact .inl .runtime
  | tests hruntime' =>
      cases hruntime.symm.trans hruntime'
      exact .inr (.refl t)
  | first _ hselect ih =>
      rcases ih with hcall | hextends
      · exact .inl (.first hcall hselect)
      · exact .inr (hextends.askFor _)
  | rest _ hselect hload ih =>
      rcases ih with hcall | hextends
      · exact .inl (.rest hcall hselect hload)
      · exact .inr ((hextends.askFor _).trans (extends_of_load hload))
  | inside _ hnew hfetch ih =>
      rcases ih with hcall | hextends
      · exact .inl (.inside hcall hnew hfetch)
      · exact .inr (hextends.start _ _ _)

/-- A point belongs to a call: it comes after the call has begun, and any run that makes this call
passes it, test dependencies or not. -/
theorem Passes.exists_call {ignoreTests : Bool} {opened : List (String × Version)} {s : Session}
    (h : sources.Passes ignoreTests manifest opened s) :
    ∃ around task s₀, sources.Calls ignoreTests manifest around task s₀ ∧ s₀.Extends s ∧
      ∀ ignoreTests', sources.Calls ignoreTests' manifest around task s₀ →
        sources.Passes ignoreTests' manifest opened s := by
  have here : ∀ s₀ : Session, s₀.Extends s₀ := .refl
  cases h with
  | begins hcall => exact ⟨_, _, _, hcall, here _, fun _ => .begins⟩
  | asked hcall => exact ⟨_, _, _, hcall, (here _).askFor _, fun _ => .asked⟩
  | lookedUp hcall hnew =>
      exact ⟨_, _, _, hcall, (here _).ask _, fun _ hcall => .lookedUp hcall hnew⟩
  | found hcall hnew hfind =>
      exact ⟨_, _, _, hcall, (here _).ask _, fun _ hcall => .found hcall hnew hfind⟩
  | checked hcall hnew hfetch =>
      exact ⟨_, _, _, hcall, ((here _).ask _).check _ _ _,
        fun _ hcall => .checked hcall hnew hfetch⟩
  | left hcall hnew hfetch hinside =>
      exact ⟨_, _, _, hcall, (((here _).start _ _ _).trans (extends_of_loadAll hinside)).leave,
        fun _ hcall => .left hcall hnew hfetch hinside⟩
  | returns hcall hload =>
      exact ⟨_, _, _, hcall, extends_of_load hload, fun _ hcall => .returns hcall hload⟩
  | returnsAll hcall hload =>
      exact ⟨_, _, _, hcall, extends_of_loadAll hload, fun _ hcall => .returnsAll hcall hload⟩

/-- Every point that the run passes, whether it ends or not, is a point of the run that ignores test
dependencies, or comes after all of its questions and warnings. -/
theorem Passes.ignoring_or_extends
    (hruntime : sources.loadAll manifest.demands .empty = some (.ok dependencies, t))
    {opened : List (String × Version)} {s : Session}
    (h : sources.Passes false manifest opened s) :
    sources.Passes true manifest opened s ∨ t.Extends s := by
  obtain ⟨around, task, s₀, hcall, hextends, hpasses⟩ := h.exists_call
  rcases hcall.ignoring_or_extends hruntime with hcall | hbefore
  · exact .inl (hpasses true hcall)
  · exact .inr (hbefore.trans hextends)

end Points

end Sources

/-! ## Whole runs -/

section Root

variable {sources : Sources} {path : Path} {manifest : Manifest} {outcome : Outcome}

/-- How a run that ignores test dependencies ends: with the runtime dependencies. -/
theorem resolve?_ignoring_cases (h : resolve? sources true path manifest = some outcome) :
    (∃ error t, sources.loadAll manifest.demands .empty = some (.error error, t) ∧
      outcome = ⟨.error error, t.calls, t.warnings⟩) ∨
    (∃ dependencies t, sources.loadAll manifest.demands .empty = some (.ok dependencies, t) ∧
      outcome = ⟨.ok ⟨path, manifest.declaration, dependencies, []⟩, t.calls, t.warnings⟩) := by
  rcases resolve?_cases h with hfailed | ⟨dependencies, t, error, u, -, hrest, -⟩ |
    ⟨dependencies, t, tests, u, hruntime, hrest, rfl⟩
  · exact .inl hfailed
  · rw [if_pos rfl, Sources.loadAll_nil] at hrest
    cases hrest
  · rw [if_pos rfl, Sources.loadAll_nil] at hrest
    cases hrest
    exact .inr ⟨dependencies, t, hruntime, rfl⟩

/-- When the runtime dependencies have been loaded, a run only adds questions and warnings to
theirs, and it puts them into the project. -/
theorem extends_of_resolve? {dependencies : List Project} {t : Session} {ignoreTests : Bool}
    (hruntime : sources.loadAll manifest.demands .empty = some (.ok dependencies, t))
    (h : resolve? sources ignoreTests path manifest = some outcome) :
    t.calls <+: outcome.calls ∧ t.warnings <+: outcome.warnings ∧
      ∀ project, outcome.result = .ok project →
        project = ⟨path, manifest.declaration, dependencies, project.testDependencies⟩ := by
  rcases resolve?_cases h with ⟨error, t', hrun, -⟩ |
    ⟨dependencies', t', error, u, hrun, hrest, rfl⟩ |
    ⟨dependencies', t', tests, u, hrun, hrest, rfl⟩
  · rw [hruntime] at hrun
    cases hrun
  · rw [hruntime] at hrun
    cases hrun
    have hextends := Sources.extends_of_loadAll hrest
    exact ⟨hextends.calls, hextends.warnings, fun project hproject => by cases hproject⟩
  · rw [hruntime] at hrun
    cases hrun
    have hextends := Sources.extends_of_loadAll hrest
    refine ⟨hextends.calls, hextends.warnings, fun project hproject => ?_⟩
    cases hproject
    rfl

/-- **The run with test dependencies extends the run that ignores them.**  If the run that ignores
them fails, the other one fails in the same way, after the same questions and warnings.  If it
succeeds, the questions and warnings of the other one start with its questions and warnings, and if
the other one succeeds as well, the two projects differ in the resolved test dependencies of the
root only.  As the other run need not end, the same is said of the points that it passes: they are
points of the run that ignores test dependencies, or come after all of its questions and warnings.
This is what `ignore_test_deps` promises: it leaves something out at the end, and changes nothing in
front of that. -/
theorem resolve?_extends (h : resolve? sources true path manifest = some outcome) :
    (∀ error, outcome.result = .error error →
      resolve? sources false path manifest = some outcome) ∧
    (∀ project, outcome.result = .ok project →
      (∀ full, resolve? sources false path manifest = some full →
        outcome.calls <+: full.calls ∧ outcome.warnings <+: full.warnings ∧
          ∀ project', full.result = .ok project' →
            project' = { project with testDependencies := project'.testDependencies }) ∧
      (∀ opened s, sources.Passes false manifest opened s →
        sources.Passes true manifest opened s ∨
          outcome.calls <+: s.calls ∧ outcome.warnings <+: s.warnings)) := by
  rcases resolve?_ignoring_cases h with ⟨error, t, hruntime, rfl⟩ |
    ⟨dependencies, t, hruntime, rfl⟩
  · refine ⟨fun _ _ => resolve?_of_loadAll_error false path hruntime, fun project hproject => ?_⟩
    cases hproject
  · refine ⟨fun error herror => ?_, fun project hproject => ⟨fun full hfull => ?_, ?points⟩⟩
    · cases herror
    · cases hproject
      exact extends_of_resolve? hruntime hfull
    case points =>
      intro opened s hpoint
      refine (hpoint.ignoring_or_extends hruntime).imp_right fun hextends => ?_
      exact ⟨hextends.calls, hextends.warnings⟩

end Root

/-- The application that needs a package for its tests looks it up after the others, and is warned
of it then.  The application whose package cannot be read fails with and without test dependencies.
-/
theorem resolve?_extends_aliasRoot :
    let ignoring : Outcome := ⟨.ok { aliasProject with testDependencies := [] },
      [.find "a/leaf" leafVersion], []⟩
    let full : Outcome := ⟨.ok aliasProject,
      [.find "a/leaf" leafVersion, .find "b/leaf" leafVersion], [aliasWarning]⟩
    let failed : Outcome := ⟨.error (ReadFault.notFound.at ⟨"leaf/elm.json"⟩),
      [.find "a/leaf" (.ofNumbers 1 0 0)], []⟩
    resolve? leafSources true ⟨"elm.json"⟩ (.application aliasRoot) = some ignoring ∧
      resolve? leafSources false ⟨"elm.json"⟩ (.application aliasRoot) = some full ∧
      ignoring.calls <+: full.calls ∧ ignoring.warnings <+: full.warnings ∧
      (∀ opened s, leafSources.Passes false (.application aliasRoot) opened s →
        leafSources.Passes true (.application aliasRoot) opened s ∨
          ignoring.calls <+: s.calls ∧ ignoring.warnings <+: s.warnings) ∧
      resolve? tableSources true ⟨"elm.json"⟩ (.application tableRoot) = some failed ∧
      resolve? tableSources false ⟨"elm.json"⟩ (.application tableRoot) = some failed := by
  intro ignoring full failed
  have hignoring : resolve? leafSources true ⟨"elm.json"⟩ (.application aliasRoot) =
      some ignoring := by
    rw [resolve?_of_loadAll_ok true ⟨"elm.json"⟩ loadAll_aliasRoot
      (Sources.loadAll_nil leafSources aliasSession)]
    rfl
  have hfailed : resolve? tableSources true ⟨"elm.json"⟩ (.application tableRoot) =
      some failed := by
    have hfetch : tableSources.fetch "a/leaf" (.ofNumbers 1 0 0) (.pinned (.ofNumbers 1 0 0)) =
        .error (ReadFault.notFound.at ⟨"leaf/elm.json"⟩) := rfl
    have hload := tableSources.load_of_fetch_error (s := .empty)
      ⟨List.not_mem_nil, List.not_mem_nil⟩ hfetch
    have hruntime : tableSources.loadAll (Manifest.application tableRoot).demands .empty =
        some (.error (ReadFault.notFound.at ⟨"leaf/elm.json"⟩),
          Session.empty.ask (.find "a/leaf" (.ofNumbers 1 0 0))) :=
      tableSources.loadAll_of_load_error [] rfl hload
    exact resolve?_of_loadAll_error true ⟨"elm.json"⟩ hruntime
  obtain ⟨hfull, hpoints⟩ := (resolve?_extends hignoring).2 _ rfl
  obtain ⟨hcalls, hwarnings, -⟩ := hfull full resolve?_aliasRoot
  exact ⟨hignoring, resolve?_aliasRoot, hcalls, hwarnings, hpoints, hfailed,
    (resolve?_extends hfailed).1 _ rfl⟩

end ElmManifest
