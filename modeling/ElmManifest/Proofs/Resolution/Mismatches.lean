import ElmManifest.Proofs.Resolution.Lookups
import ElmManifest.Proofs.Resolution.Termination

/-!
# Mismatches

A manifest may declare another package than the one it was found for.  A run warns of that and goes
on: what is looked up decides where the manifest is, and what the manifest calls itself decides
nothing.  So the warnings of a run can be read off the questions it asked, one after the other
(`Session.Warned`), whether the run fails later or not.  A package is looked up at most once, so it
is warned of at most once.

## Main Definitions

* `Sources.mismatch?` — what there is to warn of after a question.
* `Warning.requested?` — the package that a warning was given for.
* `Sources.IsFoundFor` — a project that was found for a package, whatever it declares.
* `Session.Warned` — a session whose warnings are those that its questions call for.

## Main Statements

* `Sources.warnings_start` — a package that is looked up is warned of if there is a mismatch.
* `warnings_of_resolve?` — the warnings of a run are the mismatches among its look-ups, and whatever
  a manifest declares, its package is the one that was requested.
-/

namespace ElmManifest

/-! ## What there is to warn of -/

/-- What there is to warn of after a question: the manifest that the repository has for the package
declares a package of another name or of another release.  It is what `load_package` compares after
it has decoded the manifest. -/
def Sources.mismatch? (sources : Sources) : Query → Option Warning
  | .versions _ => none
  | .find name version =>
    match sources.repository.find name version with
    | none => none
    | some path =>
      match sources.readManifest path with
      | .ok (.package declared) =>
        if declared.name = name ∧ declared.version.SameRelease version then none
        else some (.otherPackage (name, version) (declared.name, declared.version) path)
      | _ => none

/-- The package that a warning was given for, if it was given for one. -/
def Warning.requested? : Warning → Option (String × Release)
  | .ignoredSidecar .. => none
  | .otherPackage requested _ _ => some (packageKey requested)

/-- The project is the one that was found for the package: its manifest is where the repository has
that of the package, and it declares what is read there, be it of the same name and release or
not. -/
def Sources.IsFoundFor (sources : Sources) (calls : List Query) (name : String) (version : Version)
    (project : Project) : Prop :=
  sources.repository.Found calls name version project ∧
    ∃ declared, sources.readManifest project.manifestPath = .ok (.package declared) ∧
      project.declaration = .package declared

namespace Sources

variable {sources : Sources} {name : String} {version : Version} {requirement : Requirement}
  {path : Path} {declared : Package} {s t : Session}

/-- A package that cannot be fetched is not warned of. -/
theorem mismatch?_of_fetch_error {error : LoadError}
    (h : sources.fetch name version requirement = .error error) :
    sources.mismatch? (.find name version) = none := by
  cases hfind : sources.repository.find name version with
  | none => simp [mismatch?, hfind]
  | some path =>
      cases hread : sources.readManifest path with
      | error fault => simp [mismatch?, hfind, hread]
      | ok manifest =>
          cases manifest with
          | application declared => simp [mismatch?, hfind, hread]
          | legacy declared => simp [mismatch?, hfind, hread]
          | package declared =>
              have hfetched : sources.fetch name version requirement = .ok (path, declared) :=
                fetch_eq_ok_iff.mpr ⟨hfind, readPackage_of_readManifest hread name⟩
              cases h.symm.trans hfetched

/-- A package that is fetched is warned of unless the manifest declares that very package. -/
theorem mismatch?_of_fetch_ok
    (h : sources.fetch name version requirement = .ok (path, declared)) :
    sources.mismatch? (.find name version) =
      if samePackage (declared.name, declared.version) (name, version) then none
      else some (.otherPackage (name, version) (declared.name, declared.version) path) := by
  obtain ⟨hfind, hread⟩ := fetch_eq_ok_iff.mp h
  have hsame : samePackage (declared.name, declared.version) (name, version) = true ↔
      declared.name = name ∧ declared.version.SameRelease version := by
    simp [packageKey, Version.SameRelease]
  simp only [mismatch?, hfind, readManifest_of_readPackage hread]
  by_cases h : declared.name = name ∧ declared.version.SameRelease version
  · rw [if_pos h, if_pos (hsame.mpr h)]
  · rw [if_neg h, if_neg (mt hsame.mp h)]

/-- A warning is given for the package that was looked up. -/
theorem requested?_of_mismatch? {query : Query} {warning : Warning}
    (h : sources.mismatch? query = some warning) : warning.requested? = query.lookUp? := by
  unfold mismatch? at h
  split at h
  · cases h
  · split at h
    · cases h
    · split at h
      · split at h <;> cases h
        rfl
      · cases h

/-- The packages that are warned of are looked up, in the same order. -/
theorem requested?_mismatch?_sublist (sources : Sources) (calls : List Query) :
    ((calls.filterMap sources.mismatch?).filterMap Warning.requested?).Sublist (lookUps calls) := by
  induction calls with
  | nil => exact List.Sublist.slnil
  | cons query rest ih =>
      cases hwarned : sources.mismatch? query with
      | none =>
          rw [List.filterMap_cons_none hwarned]
          exact ih.trans ((List.sublist_cons_self query rest).filterMap _)
      | some warning =>
          rw [List.filterMap_cons_some hwarned]
          unfold lookUps
          rw [List.filterMap_cons, List.filterMap_cons, requested?_of_mismatch? hwarned]
          cases query.lookUp? with
          | none => exact ih
          | some key => exact ih.cons_cons key

/-! ## One step -/

/-- **A package that is looked up is warned of if there is a mismatch.** -/
theorem warnings_start (h : sources.fetch name version requirement = .ok (path, declared)) :
    (s.start (name, version) path declared).warnings =
      s.warnings ++ (sources.mismatch? (.find name version)).toList := by
  rw [mismatch?_of_fetch_ok h]
  unfold Session.start Session.check
  split <;> simp [Session.enter, Session.ask]

end Sources

/-- The warnings that have been given are those that the questions call for, in their order. -/
def Session.Warned (sources : Sources) (s : Session) : Prop :=
  s.warnings = s.calls.filterMap sources.mismatch?

namespace Session.Warned

variable {sources : Sources} {s : Session} {name : String} {version : Version}
  {requirement : Requirement} {path : Path} {declared : Package}

theorem empty (sources : Sources) : Session.empty.Warned sources := rfl

/-- A question that calls for no warning may be asked. -/
theorem ask (h : s.Warned sources) {query : Query} (hquiet : sources.mismatch? query = none) :
    (s.ask query).Warned sources := by
  unfold Warned at *
  rw [calls_ask, List.filterMap_append, List.filterMap_cons_none hquiet, List.filterMap_nil,
    List.append_nil, ← h]
  rfl

theorem askFor (h : s.Warned sources) (demand : Demand) : (s.askFor demand).Warned sources := by
  obtain ⟨name, requirement⟩ := demand
  cases requirement with
  | pinned version => exact h
  | within range => exact h.ask rfl

theorem start (h : s.Warned sources)
    (hfetch : sources.fetch name version requirement = .ok (path, declared)) :
    (s.start (name, version) path declared).Warned sources := by
  unfold Warned at *
  rw [Sources.warnings_start hfetch, calls_start, List.filterMap_append, ← h]
  cases hwarned : sources.mismatch? (.find name version) with
  | none => simp [hwarned]
  | some warning => simp [hwarned]

end Session.Warned

/-! ## Calls -/

namespace Sources

variable {sources : Sources} {s t : Session}

private theorem runInvariant_warned (sources : Sources) : sources.RunInvariant
    (fun _ _ _ s _ t => s.Warned sources → t.Warned sources)
    (fun _ s _ t => s.Warned sources → t.Warned sources) := by
  constructor
  case recalled => exact fun _ hs => hs
  case cyclic => exact fun _ _ hs => hs
  case unfetched => exact fun _ hfetch hs => hs.ask (mismatch?_of_fetch_error hfetch)
  case failed => exact fun _ hfetch _ ih hs => ih (hs.start hfetch)
  case loaded => exact fun _ hfetch _ ih hs => ih (hs.start hfetch)
  case nil => exact fun hs => hs
  case unselected => exact fun _ hs => hs.askFor _
  case headFailed => exact fun _ _ ih hs => ih (hs.askFor _)
  case tail => exact fun _ _ ih _ ihRest hs => ihRest (ih (hs.askFor _))

/-- Loading packages warns of the mismatches among their look-ups, and of nothing else. -/
theorem warned_of_loadAll {demands : List Demand} {outcome : Except LoadError (List Project)}
    (h : sources.loadAll demands s = some (outcome, t)) (hs : s.Warned sources) :
    t.Warned sources :=
  (runInvariant_warned sources).loadAll h hs

/-- **What is kept for a request is what was found for it.** -/
theorem isFoundFor_of_kept? (hs : s.Sound sources) {name : String} {version : Version}
    {node : Project} (h : kept? s.resolved (name, version) = some node) :
    sources.IsFoundFor s.calls name version node := by
  obtain ⟨entry, hentry, -, hnode⟩ := exists_mem_of_kept? h
  obtain ⟨declared, hdeclares, hread, -⟩ := hs.settled.exists_met_of_mem hentry
  rw [hnode] at hdeclares hread
  exact ⟨hs.settled.found_of_kept? hs.logged h, declared, hread, hdeclares⟩

end Sources

/-! ## Whole runs -/

/-- **The warnings of a run are the mismatches among its look-ups**, in the order of the look-ups
and one for each package at most, however the run ends.  What a manifest declares makes no other
difference: a call that loads a package keeps under the requested name and release the project that
was found for them, and the node that stands in the tree for a request is that project.  In
particular a mismatch is no error, and what `resolved` has under a key need not be the package that
the key names. -/
theorem warnings_of_resolve? {sources : Sources} {ignoreTests : Bool} {path : Path}
    {manifest : Manifest} {outcome : Outcome}
    (h : resolve? sources ignoreTests path manifest = some outcome) :
    outcome.warnings = outcome.calls.filterMap sources.mismatch? ∧
    (outcome.warnings.filterMap Warning.requested?).Nodup ∧
    (∀ opened name version requirement s node t,
      sources.Calls ignoreTests manifest opened (.one name version requirement) s →
      sources.load name version requirement s = some (.ok node, t) →
        kept? t.resolved (name, version) = some node ∧
          sources.IsFoundFor t.calls name version node) ∧
    (∀ project, outcome.result = .ok project → ∀ name version node,
      sources.Requested ignoreTests manifest project (packageKey (name, version)) node →
        sources.IsFoundFor outcome.calls name version node) := by
  have hwarnings : outcome.warnings = outcome.calls.filterMap sources.mismatch? := by
    obtain ⟨result, t, hrun, hcalls, hwarned⟩ := exists_loadAll_of_resolve? h
    rw [hcalls, hwarned]
    exact Sources.warned_of_loadAll hrun (.empty sources)
  refine ⟨hwarnings, ?once, ?kept, ?nodes⟩
  case once =>
    rw [hwarnings]
    exact (nodup_lookUps_of_resolve? h).sublist
      (sources.requested?_mismatch?_sublist outcome.calls)
  case kept =>
    intro opened name version requirement s node t hcall hload
    have hkept := Sources.kept?_of_load hload hcall.sound
    exact ⟨hkept, Sources.isFoundFor_of_kept? (Sources.load_sound hload hcall.sound) hkept⟩
  case nodes =>
    intro project hproject name version node hnode
    obtain ⟨dependencies, tests, t, u, -, -, hu, -, hcalls, rfl, hdependencies, htests⟩ :=
      exists_session_of_resolve? h hproject
    rw [← hcalls]
    have hmet : List.Forall₂ (sources.Meets u.resolved) (rootDemands ignoreTests manifest)
        (dependencies ++ tests) := List.rel_append hdependencies htests
    exact Sources.isFoundFor_of_kept? hu (hu.settled.kept?_of_requests hnode hmet rfl)

/-- The application is warned of the manifest that is found under a name it does not declare, and of
nothing else; the node for that name is the package all the same. -/
theorem warnings_of_resolve?_aliasRoot :
    let calls : List Query := [.find "a/leaf" leafVersion, .find "b/leaf" leafVersion]
    resolve? leafSources false ⟨"elm.json"⟩ (.application aliasRoot) =
        some ⟨.ok aliasProject, calls, [aliasWarning]⟩ ∧
      [aliasWarning] = calls.filterMap leafSources.mismatch? ∧
      ([aliasWarning].filterMap Warning.requested?).Nodup ∧
      (∀ opened name version requirement s node t,
        leafSources.Calls false (.application aliasRoot) opened
          (.one name version requirement) s →
        leafSources.load name version requirement s = some (.ok node, t) →
          kept? t.resolved (name, version) = some node ∧
            leafSources.IsFoundFor t.calls name version node) ∧
      (∀ name version node,
        leafSources.Requested false (.application aliasRoot) aliasProject
          (packageKey (name, version)) node →
          leafSources.IsFoundFor calls name version node) := by
  intro calls
  obtain ⟨hwarnings, honce, hkept, hnodes⟩ := warnings_of_resolve? resolve?_aliasRoot
  exact ⟨resolve?_aliasRoot, hwarnings, honce, hkept, hnodes aliasProject rfl⟩

end ElmManifest
