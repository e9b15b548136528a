import ElmManifest.Proofs.Resolution.Cycle
import ElmManifest.Proofs.Resolution.Termination
import ElmManifest.Proofs.Resolution.Tree

/-!
# Failures

What an error of a run says about the repository.  A call fails at the first thing that goes wrong
in it, and every call around it fails with it, so nothing is asked any more: the last question of
the run is the one that the error is about (`Sources.Explains`).  Where a chain of dependencies
closes, no question is asked at all; but there the package is demanded by one that is under way, and
such demands are ranges, so the last question was which versions of the package there are.

## Main Definitions

* `Requirement.Allows` — the versions that a requirement can be met by.
* `LoadError.file?` — the manifest that an error is about.
* `Sources.Explains` — a question, and the errors that its answer accounts for.
* `Sources.Fails` — calls that fail.

## Main Statements

* `Sources.Calls.resolve?_of_fails` — a call that fails is the end of the run.
* `explains_of_resolve?` — every error is explained by the last question of the run, and nothing is
  asked after a failure.
-/

namespace ElmManifest

/-! ## Errors and what explains them -/

/-- The version can meet the requirement.  A pinned version allows itself only, and not other
spellings. -/
def Requirement.Allows : Requirement → Version → Prop
  | .pinned required, version => version = required
  | .within range, version => range.contains version = true

/-- The manifest that an error is about, if it is about a file.  The other errors are about a
package, a requirement or a chain of packages. -/
def LoadError.file? : LoadError → Option Path
  | .fileNotFound path => some path
  | .unreadable path _ => some path
  | .malformedJson path _ => some path
  | .unknownType path _ => some path
  | .schemaMismatch path _ => some path
  | .unresolvedDependency .. => none
  | .dependencyCycle _ => none

/-- A text that does not start like another one is not the other one. -/
theorem append_ne_of_not_prefix {front text : String} (rest : String)
    (h : ¬ front.toList <+: text.toList) : front ++ rest ≠ text := by
  rintro rfl
  rw [String.toList_append] at h
  exact h (List.prefix_append _ _)

/-- The wording of a shortage tells whether there are versions at all. -/
theorem Shortage.message_eq_iff {shortage : Shortage} :
    shortage.message = "no versions available" ↔ shortage = .noVersions := by
  cases shortage with
  | noVersions => exact iff_of_true rfl rfl
  | noneSatisfies available =>
      refine iff_of_false ?_ (fun h => by cases h)
      show "no available version satisfies it (available: " ++ _ ++ ")" ≠ _
      rw [String.append_assoc]
      exact append_ne_of_not_prefix _ (by decide)
  | noManifest selected =>
      refine iff_of_false ?_ (fun h => by cases h)
      exact append_ne_of_not_prefix selected.text (by decide)

/-- The answer to the question accounts for the error.  There is one constructor for each place in
`load_constrained` and `load_package` that an error comes from. -/
inductive Sources.Explains (sources : Sources) : Query → LoadError → Prop where
  /-- None of the versions is in the range, and the error says whether there are any. -/
  | noVersion {name : String} {range : Constraint} {shortage : Shortage}
      (houtside : ∀ version ∈ (sources.repository.versions name).toList,
        range.contains version = false)
      (hreason : shortage.message = "no versions available" ↔
        (sources.repository.versions name).toList = []) :
      Explains sources (.versions name) (.unresolvedDependency name (.within range) shortage)
  /-- There is no manifest for a version that would meet the requirement. -/
  | noManifest {name : String} {version : Version} {requirement : Requirement}
      (hallows : requirement.Allows version)
      (hfind : sources.repository.find name version = none) :
      Explains sources (.find name version)
        (.unresolvedDependency name requirement (.noManifest version))
  /-- The manifest that is found cannot be read as that of a package. -/
  | badManifest {name : String} {version : Version} {path : Path} {error : LoadError}
      (hfind : sources.repository.find name version = some path)
      (hfile : error.file? = some path) : Explains sources (.find name version) error
  /-- The version that is selected closes a cycle. -/
  | cycle {chain : List (String × Version)} {name : String} {version : Version} :
      Explains sources (.versions name) (.dependencyCycle (chain ++ [(name, version)]))

namespace Sources

variable {sources : Sources}

/-! ## Failures of single steps -/

/-- What is selected for a requirement can meet it. -/
theorem allows_of_select {name : String} {requirement : Requirement} {version : Version}
    (h : sources.select name requirement = .ok version) : requirement.Allows version := by
  cases requirement with
  | pinned pinned =>
      cases h
      exact rfl
  | within range => exact (isMinimum_of_select h).contained

/-- Only in a range can there be no version to select. -/
theorem exists_of_select_error {name : String} {requirement : Requirement} {error : LoadError}
    (h : sources.select name requirement = .error error) :
    ∃ range, requirement = .within range ∧
      (∀ version ∈ (sources.repository.versions name).toList, range.contains version = false) ∧
      error = .unresolvedDependency name requirement
        (if (sources.repository.versions name).toList = [] then .noVersions
          else .noneSatisfies (sources.repository.versions name).toList) := by
  cases requirement with
  | pinned required => cases h
  | within range =>
      unfold select at h
      dsimp only at h
      split at h
      · cases h
      next hnone =>
        cases h
        exact ⟨range, rfl, Constraint.selectMinimum_eq_none_iff.mp hnone, rfl⟩

/-- The question which versions there are explains why none is selected. -/
theorem explains_of_select_error {name : String} {requirement : Requirement} {error : LoadError}
    (h : sources.select name requirement = .error error) (s : Session) :
    ∃ query, (s.askFor (name, requirement)).calls.getLast? = some query ∧
      sources.Explains query error := by
  obtain ⟨range, rfl, houtside, rfl⟩ := exists_of_select_error h
  refine ⟨.versions name, by simp [Session.askFor], .noVersion houtside ?_⟩
  rw [Shortage.message_eq_iff]
  split <;> simp [*]

/-- A manifest that cannot be read is named in the error. -/
theorem file?_of_readManifest_error {path : Path} {error : LoadError}
    (h : sources.readManifest path = .error error) : error.file? = some path := by
  unfold readManifest at h
  cases hread : sources.read path with
  | error fault =>
      simp only [hread, Except.mapError, bind, Except.bind, Except.error.injEq] at h
      subst h
      unfold ReadFault.at
      split <;> rfl
  | ok bytes =>
      simp only [hread, Except.mapError, bind, Except.bind] at h
      unfold Manifest.decode at h
      cases hdecode : Manifest.ofBytes (Manifest.isLegacyPath path) bytes with
      | error fault =>
          simp only [hdecode, Except.mapError, Except.error.injEq] at h
          subst h
          cases fault <;> rfl
      | ok manifest =>
          rw [hdecode] at h
          cases h

/-- A manifest that is not that of a package is an error about the file that holds it, like one that
cannot be read. -/
theorem file?_of_readPackage_error {name : String} {path : Path} {error : LoadError}
    (h : sources.readPackage name path = .error error) : error.file? = some path := by
  unfold readPackage at h
  cases hread : sources.readManifest path with
  | error fault =>
      rw [hread] at h
      cases h
      exact file?_of_readManifest_error hread
  | ok manifest =>
      rw [hread] at h
      cases manifest <;> cases h <;> rfl

/-- A look-up explains why a package cannot be fetched. -/
theorem explains_of_fetch_error {name : String} {version : Version} {requirement : Requirement}
    {error : LoadError} (hallows : requirement.Allows version)
    (h : sources.fetch name version requirement = .error error) :
    sources.Explains (.find name version) error := by
  unfold fetch at h
  split at h
  next hfind =>
    cases h
    exact .noManifest hallows hfind
  next path hfind =>
    cases hread : sources.readPackage name path with
    | error fault =>
        rw [hread] at h
        cases h
        exact .badManifest hfind (file?_of_readPackage_error hread)
    | ok declared =>
        rw [hread] at h
        cases h

/-! ## The last question -/

/-- Below a package that is under way, only ranges are demanded.  Only packages are put under way,
and packages have no pins. -/
def RangesBelow (s : Session) (demands : List Demand) : Prop :=
  s.inProgress ≠ [] → ∀ demand ∈ demands, ∃ range, demand.2 = .within range

theorem rangesBelow_rangeDemands (s : Session) (ranges : NameMap Constraint) :
    RangesBelow s (rangeDemands ranges) := by
  intro _ demand hdemand
  obtain ⟨entry, -, rfl⟩ := List.mem_map.mp hdemand
  exact ⟨entry.2, rfl⟩

theorem RangesBelow.of_inProgress_eq {s t : Session} {demand : Demand} {rest : List Demand}
    (h : RangesBelow s (demand :: rest)) (ht : t.inProgress = s.inProgress) :
    RangesBelow t rest := by
  intro hbelow other hother
  rw [ht] at hbelow
  exact h hbelow other (List.mem_cons_of_mem _ hother)

/-- Which versions there are is asked before a version is selected for a package that is under
way. -/
theorem RangesBelow.getLast?_askFor {s : Session} {name : String} {requirement : Requirement}
    {rest : List Demand} (h : RangesBelow s ((name, requirement) :: rest))
    (hbelow : (s.askFor (name, requirement)).inProgress ≠ []) :
    (s.askFor (name, requirement)).calls.getLast? = some (.versions name) := by
  rw [Session.inProgress_askFor] at hbelow
  obtain ⟨range, hrange⟩ := h hbelow _ (List.mem_cons_self ..)
  change requirement = .within range at hrange
  subst hrange
  simp [Session.askFor]

private theorem runInvariant_explains (sources : Sources) : sources.RunInvariant
    (fun name version requirement s outcome t => ∀ error, outcome = .error error →
      requirement.Allows version →
      (s.inProgress ≠ [] → s.calls.getLast? = some (.versions name)) →
        ∃ query, t.calls.getLast? = some query ∧ sources.Explains query error)
    (fun demands s outcome t => ∀ error, outcome = .error error → RangesBelow s demands →
      ∃ query, t.calls.getLast? = some query ∧ sources.Explains query error) := by
  constructor
  case recalled => exact fun _ _ h => by cases h
  case cyclic =>
    intro name version requirement s chain _ hchain _ herror _ hlast
    cases herror
    -- Something is under way, so the package was demanded by a range and its versions were asked
    -- for last.
    obtain ⟨before, first, rest, hstack, -, rfl⟩ := exists_of_closedChain? hchain
    have hbelow : s.inProgress ≠ [] := by
      rw [hstack]
      simp
    refine ⟨.versions name, hlast hbelow, ?_⟩
    rw [← List.cons_append]
    exact .cycle
  case unfetched =>
    intro name version requirement s _ _ hfetch _ herror hallows _
    cases herror
    exact ⟨.find name version, by simp, explains_of_fetch_error hallows hfetch⟩
  case failed =>
    intro name version requirement s path declared _ t _ _ _ ih _ herror _ _
    cases herror
    exact ih _ rfl (rangesBelow_rangeDemands _ _)
  case loaded => exact fun _ _ _ _ _ h => by cases h
  case nil => exact fun _ h => by cases h
  case unselected =>
    intro name requirement rest s _ hselect _ herror _
    cases herror
    exact explains_of_select_error hselect s
  case headFailed =>
    intro name requirement rest s version _ t hselect _ ih _ herror hranges
    cases herror
    exact ih _ rfl (allows_of_select hselect) hranges.getLast?_askFor
  case tail =>
    intro name requirement rest s version project t outcome u _ hload _ _ ihRest error herror
      hranges
    cases outcome with
    | ok projects => cases herror
    | error fault =>
        cases herror
        refine ihRest _ rfl (hranges.of_inProgress_eq ?_)
        rw [(load_leadsTo hload).inProgress, Session.inProgress_askFor]

/-- **The last question explains the error**, when packages are loaded with nothing under way.
Every call ends where its last question was answered in a way that does not let it go on. -/
theorem explains_of_loadAll {demands : List Demand} {s t : Session} {error : LoadError}
    (h : sources.loadAll demands s = some (.error error, t)) (hidle : s.inProgress = []) :
    ∃ query, t.calls.getLast? = some query ∧ sources.Explains query error :=
  (runInvariant_explains sources).loadAll h error rfl fun hbelow => absurd hidle hbelow

/-! ## After a failure -/

/-- The call fails with the error and leaves the session behind. -/
def Fails (sources : Sources) : Task → Session → LoadError → Session → Prop
  | .one name version requirement, s, error, t =>
    sources.load name version requirement s = some (.error error, t)
  | .all demands, s, error, t => sources.loadAll demands s = some (.error error, t)

/-- **A call that fails is the end of the run**: the run fails with the error of the call, and asks
and warns of nothing any more.  The induction is on the calls around the one that fails. -/
theorem Calls.resolve?_of_fails {ignoreTests : Bool} {manifest : Manifest}
    {opened : List (String × Version)} {task : Task} {s t : Session} {error : LoadError}
    (hcall : sources.Calls ignoreTests manifest opened task s)
    (h : sources.Fails task s error t) (path : Path) :
    resolve? sources ignoreTests path manifest = some ⟨.error error, t.calls, t.warnings⟩ := by
  induction hcall generalizing t with
  | runtime => exact resolve?_of_loadAll_error ignoreTests path h
  | tests hruntime => exact resolve?_of_loadAll_ok ignoreTests path hruntime h
  | first _ hselect ih => exact ih (sources.loadAll_of_load_error _ hselect h)
  | @rest _ _ _ rest _ _ _ _ _ hselect hload ih =>
      refine ih ((sources.loadAll_of_load_ok rest hselect hload).trans ?_)
      change sources.loadAll rest _ = _ at h
      rw [h]
      rfl
  | @inside _ name version requirement s path declared _ hnew hfetch ih =>
      refine ih (t := t.leave) ((sources.load_of_fetch_ok hnew hfetch).trans ?_)
      change sources.loadAll (rangeDemands declared.dependencies) _ = _ at h
      rw [h]
      rfl

end Sources

/-! ## Whole runs -/

/-- **Every error is explained by the last question of the run, and nothing is asked after a
failure**: whichever call of the run fails, the run fails with its error and asks what had been
asked when it failed.  Every `?` on the way returns at once, so there is neither a second error nor
a later question. -/
theorem explains_of_resolve? {sources : Sources} {ignoreTests : Bool} {path : Path}
    {manifest : Manifest} {outcome : Outcome}
    (h : resolve? sources ignoreTests path manifest = some outcome) :
    (∀ error, outcome.result = .error error →
      ∃ query, outcome.calls.getLast? = some query ∧ sources.Explains query error) ∧
    (∀ opened task s error t, sources.Calls ignoreTests manifest opened task s →
      sources.Fails task s error t → outcome = ⟨.error error, t.calls, t.warnings⟩) := by
  refine ⟨?explained, ?last⟩
  case explained =>
    intro error herror
    rcases resolve?_cases h with ⟨_, t, hruntime, rfl⟩ | ⟨_, t, _, u, hruntime, htests, rfl⟩ |
      ⟨_, _, _, _, _, _, rfl⟩
    · cases herror
      exact Sources.explains_of_loadAll hruntime rfl
    · cases herror
      exact Sources.explains_of_loadAll htests (Sources.loadAll_leadsTo hruntime).inProgress
    · cases herror
  case last =>
    intro opened task s error t hcall hfails
    exact Option.some.inj (h.symm.trans (hcall.resolve?_of_fails hfails path))

/-- A repository that has the package which depends on itself, but lists no version of it. -/
def unlistedSources : Sources where
  repository := ⟨loopSources.repository.find, fun _ => .empty⟩
  read := loopSources.read

/-- The failure inside the package is the end of the run, and the list without versions explains
it. -/
theorem explains_of_resolve?_unlisted :
    let calls : List Query := [.find "a/loop" loopVersion, .versions "a/loop"]
    let error : LoadError := .unresolvedDependency "a/loop" (.within loopRange) .noVersions
    let outcome : Outcome := ⟨.error error, calls, []⟩
    resolve? unlistedSources false ⟨"elm.json"⟩ (.application loopRoot) = some outcome ∧
      (∃ query, calls.getLast? = some query ∧ unlistedSources.Explains query error) ∧
      ∀ opened task s error t, unlistedSources.Calls false (.application loopRoot) opened task s →
        unlistedSources.Fails task s error t → outcome = ⟨.error error, t.calls, t.warnings⟩ := by
  intro calls error outcome
  have hselect : unlistedSources.select "a/loop" (.within loopRange) = .error error := rfl
  have hfetch : unlistedSources.fetch "a/loop" loopVersion (.pinned loopVersion) =
      .ok (⟨"loop/elm.json"⟩, loopPackage) :=
    Sources.fetch_eq_ok_iff.mpr ⟨rfl, readPackage_loop⟩
  have hnew : Session.empty.Lacks ("a/loop", loopVersion) :=
    ⟨List.not_mem_nil, List.not_mem_nil⟩
  have hload : unlistedSources.load "a/loop" loopVersion (.pinned loopVersion) .empty =
      some (.error error, ⟨[], [], calls, []⟩) := by
    rw [unlistedSources.load_of_fetch_ok hnew hfetch,
      show rangeDemands loopPackage.dependencies = [("a/loop", .within loopRange)] from rfl,
      unlistedSources.loadAll_of_select_error [] _ hselect]
    rfl
  have hruntime : unlistedSources.loadAll (Manifest.application loopRoot).demands .empty =
      some (.error error, ⟨[], [], calls, []⟩) :=
    unlistedSources.loadAll_of_load_error [] rfl hload
  have hrun := resolve?_of_loadAll_error false ⟨"elm.json"⟩ hruntime
  obtain ⟨hexplained, hlast⟩ := explains_of_resolve? hrun
  exact ⟨hrun, hexplained error rfl, hlast⟩

end ElmManifest
