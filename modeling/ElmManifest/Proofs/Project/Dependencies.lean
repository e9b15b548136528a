import ElmManifest.Proofs.Resolution.Mismatches
import ElmManifest.Proofs.Resolution.Tags

/-!
# The packages of a resolved project

A package that a project needs for itself and for its tests is among its dependencies twice, and in
the list of all its packages once, where it comes first.  What tells packages apart there is what
their manifests call them.  The repository finds them by what they are requested as, and the two are
the same where a run has nothing to warn of; so the list of an application has the distinct pins of
its manifest, each where it comes first.

## Main Definitions

* `Project.KeepsFirst` — projects that are kept of others, the first one of each identity.

## Main Statements

* `Project.map_identity_dropRepeated` — the identities that are kept, in their order.
* `Project.keepsFirst_allDependencies` — of all dependencies, the first ones are kept.
* `Sources.IsFoundFor.identity` — a project that was found for a package is that package, if there
  is nothing to warn of.
* `allDependencies_distinct` — the packages of a project, and those of an application.
-/

namespace ElmManifest

theorem List.nodup_eraseDups {α : Type} [BEq α] [LawfulBEq α] (xs : List α) :
    xs.eraseDups.Nodup := by
  induction hlength : xs.length using Nat.strong_induction_on generalizing xs with
  | _ length ih =>
    cases xs with
    | nil => simp
    | cons x rest =>
      rw [List.eraseDups_cons, List.nodup_cons, List.mem_eraseDups]
      have hshorter := List.length_filter_le (fun y => !y == x) rest
      rw [List.length_cons] at hlength
      exact ⟨by simp, ih _ (by omega) _ rfl⟩

namespace Project

/-! ## Keeping the first ones -/

/-- Of several projects with one identity the first one is kept, and nothing else is lost.  The
order is that of the list. -/
structure KeepsFirst (all kept : List Project) : Prop where
  /-- Nothing is added, and the order is the same. -/
  sublist : kept.Sublist all
  /-- No two that are kept have one identity. -/
  distinct : (kept.map identity).Nodup
  /-- Every project has a kept one of its identity. -/
  represented : ∀ p ∈ all, ∃ q ∈ kept, q.identity = p.identity
  /-- What is kept is the first project of its identity. -/
  first : ∀ q ∈ kept, ∃ before after, all = before ++ q :: after ∧
    ∀ p ∈ before, p.identity ≠ q.identity
  /-- The identities come in the order in which they first appear. -/
  ordered : kept.map identity = (all.map identity).eraseDups

variable {seen : List (Option (String × Release))}

theorem dropRepeated_sublist (seen : List (Option (String × Release))) (all : List Project) :
    (dropRepeated seen all).Sublist all := by
  fun_induction dropRepeated seen all with
  | case1 => exact .slnil
  | case2 seen p rest _ ih => exact ih.cons p
  | case3 seen p rest _ ih => exact ih.cons_cons p

/-- **The identities that are kept** are those that were not seen before, without repetitions.  The
induction is on the projects, for any identities that were seen before. -/
theorem map_identity_dropRepeated (seen : List (Option (String × Release))) (all : List Project) :
    (dropRepeated seen all).map identity =
      ((all.map identity).filter fun key => decide (key ∉ seen)).eraseDups := by
  fun_induction dropRepeated seen all with
  | case1 => rfl
  | case2 seen p rest hseen ih =>
    rw [ih, List.map_cons, List.filter_cons_of_neg (by simpa using hseen)]
  | case3 seen p rest hnew ih =>
    rw [List.map_cons, ih, List.map_cons, List.filter_cons_of_pos (by simpa using hnew),
      List.eraseDups_cons, List.filter_filter]
    congr 3
    funext key
    rw [Bool.eq_iff_iff]
    simp [and_comm]

/-- What is kept is the first project of its identity, which was not seen before. -/
theorem first_of_mem_dropRepeated {all : List Project} {q : Project}
    (h : q ∈ dropRepeated seen all) : q.identity ∉ seen ∧ ∃ before after,
      all = before ++ q :: after ∧ ∀ p ∈ before, p.identity ≠ q.identity := by
  fun_induction dropRepeated seen all with
  | case1 => cases h
  | case2 seen p rest hseen ih =>
    obtain ⟨hnew, before, after, rfl, hbefore⟩ := ih h
    refine ⟨hnew, p :: before, after, rfl, List.forall_mem_cons.mpr ⟨?_, hbefore⟩⟩
    exact fun heq => hnew (heq ▸ hseen)
  | case3 seen p rest hnew ih =>
    rcases List.mem_cons.mp h with rfl | h
    · exact ⟨hnew, [], rest, rfl, by simp⟩
    · obtain ⟨hlater, before, after, rfl, hbefore⟩ := ih h
      rw [List.mem_cons, not_or] at hlater
      exact ⟨hlater.2, p :: before, after, rfl,
        List.forall_mem_cons.mpr ⟨Ne.symm hlater.1, hbefore⟩⟩

/-- **Of all dependencies of a project the first ones are kept.** -/
theorem keepsFirst_allDependencies (p : Project) :
    KeepsFirst (p.dependencies ++ p.testDependencies) p.allDependencies := by
  have hordered : p.allDependencies.map identity =
      ((p.dependencies ++ p.testDependencies).map identity).eraseDups := by
    rw [allDependencies, map_identity_dropRepeated]
    exact congrArg _ (List.filter_eq_self.mpr (by simp))
  refine ⟨dropRepeated_sublist [] _, ?_, fun other hother => ?_,
    fun kept hkept => (first_of_mem_dropRepeated hkept).2, hordered⟩
  · rw [hordered]
    exact List.nodup_eraseDups _
  · have hmem : other.identity ∈ p.allDependencies.map identity := by
      rw [hordered, List.mem_eraseDups]
      exact List.mem_map_of_mem hother
    exact List.mem_map.mp hmem

end Project

/-! ## Pinned packages -/

namespace Sources

variable {sources : Sources} {calls : List Query} {s : Session}

/-- A run that has warned of no package has found no manifest of another one. -/
theorem mismatch?_eq_none_of_resolve? {ignoreTests : Bool} {path : Path} {manifest : Manifest}
    {outcome : Outcome} (h : resolve? sources ignoreTests path manifest = some outcome)
    (hquiet : ∀ warning ∈ outcome.warnings, warning.requested? = none) :
    ∀ query ∈ outcome.calls, sources.mismatch? query = none := by
  intro query hquery
  obtain ⟨result, t, hrun, hcalls, hwarned⟩ := exists_loadAll_of_resolve? h
  have hwarnings : outcome.warnings = outcome.calls.filterMap sources.mismatch? := by
    rw [hcalls, hwarned]
    exact warned_of_loadAll hrun (.empty sources)
  cases hfound : sources.mismatch? query with
  | none => rfl
  | some warning =>
    have hnone := hquiet warning (hwarnings ▸ List.mem_filterMap.mpr ⟨query, hquery, hfound⟩)
    rw [requested?_of_mismatch? hfound] at hnone
    cases query with
    | versions name => cases hfound
    | find name version => cases hnone

/-- **A project that was found for a package is that package** if there is nothing to warn of. -/
theorem IsFoundFor.identity {name : String} {version : Version} {node : Project}
    (h : sources.IsFoundFor calls name version node)
    (hquiet : ∀ query ∈ calls, sources.mismatch? query = none) :
    node.identity = some (packageKey (name, version)) := by
  obtain ⟨⟨spelled, hspelled, hasked, hfind⟩, declared, hread, hdeclares⟩ := h
  have hsame : declared.name = name ∧ declared.version.SameRelease spelled := by
    have hnone := hquiet _ hasked
    simp only [mismatch?, hfind, hread] at hnone
    by_contra hother
    rw [if_neg hother] at hnone
    cases hnone
  have hrelease : declared.version.toRelease = version.toRelease := hsame.2.trans hspelled
  rw [Project.identity, Project.package?, hdeclares, Option.map_some, hsame.1, hrelease]
  rfl

/-- The projects that were loaded for pins are the pinned packages, one by one. -/
theorem map_identity_of_meets (hs : s.Sound sources)
    (hquiet : ∀ query ∈ s.calls, sources.mismatch? query = none) {pins : ExactDependencies}
    {projects : List Project}
    (h : List.Forall₂ (sources.Meets s.resolved) (pinDemands pins) projects) :
    projects.map Project.identity = pins.toList.map fun pin => some (packageKey pin) := by
  rw [pinDemands, List.forall₂_map_left_iff] at h
  generalize pins.toList = entries at h
  induction h with
  | nil => rfl
  | cons hmeets _ ih =>
    obtain ⟨version, hselect, hkept⟩ := hmeets
    cases hselect
    rw [List.map_cons, List.map_cons, ih, (isFoundFor_of_kept? hs hkept).identity hquiet]

end Sources

/-- **The packages of a project.**  Its list of all packages has the first of its dependencies of
each name and release, and no others.  If an application was resolved with its test dependencies and
no manifest declared another package than the one it was found for, these are its pins, direct
before indirect and runtime before test dependencies, each where it comes first.  The function is
`all_resolved_dependencies`, which tells packages apart by what their manifests declare; hence the
condition on the warnings. -/
theorem allDependencies_distinct :
    (∀ p : Project,
      Project.KeepsFirst (p.dependencies ++ p.testDependencies) p.allDependencies) ∧
    ∀ (sources : Sources) (path : Path) (declared : Application) (outcome : Outcome)
      (project : Project),
      resolve? sources false path (.application declared) = some outcome →
      outcome.result = .ok project →
      (∀ warning ∈ outcome.warnings, warning.requested? = none) →
        project.allDependencies.map Project.identity =
          ((declared.dependencies.toList ++ declared.testDependencies.toList).map
            fun pin => some (packageKey pin)).eraseDups := by
  refine ⟨Project.keepsFirst_allDependencies, ?_⟩
  intro sources path declared outcome project hrun hproject hwarnings
  have hquiet := Sources.mismatch?_eq_none_of_resolve? hrun hwarnings
  obtain ⟨dependencies, tests, t, u, -, -, hu, -, hcalls, rfl, hdependencies, htests⟩ :=
    exists_session_of_resolve? hrun hproject
  rw [← hcalls] at hquiet
  rw [(Project.keepsFirst_allDependencies _).ordered, List.map_append, List.map_append,
    Sources.map_identity_of_meets hu hquiet hdependencies,
    Sources.map_identity_of_meets hu hquiet htests]

/-! ## A package that is pinned twice -/

/-- An application that pins the package without dependencies, and again with a tag for its tests.
-/
def repinnedRoot : Application :=
  { tableRoot with testDependencies := ⟨.empty, .ofList [("a/leaf", betaVersion)]⟩ }

/-- The application, resolved with its test dependencies. -/
def repinnedProject : Project :=
  ⟨⟨"elm.json"⟩, .application repinnedRoot, [leafProject], [leafProject]⟩

/-- The package is looked up once, and nothing is warned of. -/
theorem resolve?_repinnedRoot :
    resolve? leafSources false ⟨"elm.json"⟩ (.application repinnedRoot) =
      some ⟨.ok repinnedProject, [.find "a/leaf" leafVersion], []⟩ := by
  have hruntime : leafSources.loadAll (Manifest.application repinnedRoot).demands .empty =
      some (.ok [leafProject], aliasSession) :=
    leafSources.loadAll_singleton rfl (load_leaf (.pinned leafVersion) [])
  have htests : leafSources.loadAll (Manifest.application repinnedRoot).testDemands aliasSession =
      some (.ok [leafProject], aliasSession) :=
    leafSources.loadAll_singleton rfl (leafSources.load_of_kept? (.pinned betaVersion) rfl)
  rw [resolve?_of_loadAll_ok false ⟨"elm.json"⟩ hruntime htests]
  rfl

/-- The pin of the application and the tagged pin of its tests are one package, which is listed
once. -/
theorem allDependencies_distinct_repinnedRoot :
    resolve? leafSources false ⟨"elm.json"⟩ (.application repinnedRoot) =
        some ⟨.ok repinnedProject, [.find "a/leaf" leafVersion], []⟩ ∧
      repinnedProject.dependencies ++ repinnedProject.testDependencies =
        [leafProject, leafProject] ∧
      repinnedProject.allDependencies.map Project.identity =
        [some ("a/leaf", ⟨1, 0, 0⟩)] := by
  refine ⟨resolve?_repinnedRoot, rfl, ?_⟩
  rw [allDependencies_distinct.2 leafSources _ repinnedRoot _ _ resolve?_repinnedRoot rfl
    (by simp)]
  decide +kernel

end ElmManifest
