import ElmManifest.Proofs.Resolution.Failures
import ElmManifest.Proofs.Resolution.IgnoredTests
import ElmManifest.Proofs.Resolution.Sharing

/-!
# Cycles through the root

The package that is resolved is not put under way itself, so a chain of dependencies that leads back
to it closes no cycle there.  The repository is asked for the package as for any other, and what the
run goes on with is the copy that it finds.  If the copy declares what the root declares, the chain
closes one turn later.  The root demand that the chain started from is still under way then, at the
bottom of the stack, and the root demands in front of it have been met, so the copy cannot do better
than to get to it again (`Sources.Calls.located`).  If the copy declares something else, the run
may well succeed.

## Main Definitions

* `Sources.AllMet` — demands that have been met.
* `Sources.AtBottom` — the package at the bottom of the stack, for the root demand that it is
  selected for.
* `Sources.Located` — where a run is among the root demands.

## Main Statements

* `Sources.Calls.located` — a run is always somewhere among the root demands.
* `Sources.Calls.resolve?_of_same_demands` — a package with the dependencies of the root closes a
  cycle.
* `rootCopy_of_resolve?` — a run succeeds only if every copy of the root that is below it declares
  other dependencies, and a chain back to a copy with the same dependencies is reported as a cycle.
-/

namespace ElmManifest

namespace Sources

variable {sources : Sources} {demands : List Demand} {s t : Session}

/-! ## The bottom of the stack -/

/-- All of the demands have been met.  Their results are kept, so they are not loaded again. -/
def AllMet (sources : Sources) (done : List ((String × Version) × Project))
    (demands : List Demand) : Prop :=
  ∀ demand ∈ demands, ∃ project, sources.Meets done demand project

/-- Demands that have been met are met again, and nothing is done for them. -/
theorem exists_loadAll_of_allMet (h : sources.AllMet s.resolved demands) :
    ∃ projects t, sources.loadAll demands s = some (.ok projects, t) ∧
      t.resolved = s.resolved := by
  induction demands generalizing s with
  | nil => exact ⟨[], s, sources.loadAll_nil s, rfl⟩
  | cons demand rest ih =>
      obtain ⟨name, requirement⟩ := demand
      obtain ⟨project, version, hselect, hkept⟩ := h _ (List.mem_cons_self ..)
      have hload : sources.load name version requirement (s.askFor (name, requirement)) =
          some (.ok project, s.askFor (name, requirement)) :=
        sources.load_of_kept? requirement (by rwa [Session.resolved_askFor])
      obtain ⟨projects, t, hrest, hdone⟩ := ih (s := s.askFor (name, requirement)) (by
        rw [Session.resolved_askFor]
        exact fun other hother => h other (List.mem_cons_of_mem _ hother))
      refine ⟨project :: projects, t, ?_, by rw [hdone, Session.resolved_askFor]⟩
      rw [sources.loadAll_of_load_ok rest hselect hload, hrest]
      rfl

/-- The package is selected for one of the demands, and those in front of this one have been met. -/
def AtBottom (sources : Sources) (demands : List Demand)
    (done : List ((String × Version) × Project)) (request : String × Version) : Prop :=
  ∃ front requirement back, demands = front ++ (request.1, requirement) :: back ∧
    sources.select request.1 requirement = .ok request.2 ∧ sources.AllMet done front

theorem AllMet.leadsTo (h : sources.AllMet s.resolved demands) (ht : t.Sound sources)
    (hst : s.LeadsTo t) : sources.AllMet t.resolved demands := by
  intro demand hdemand
  obtain ⟨project, hmeets⟩ := h demand hdemand
  exact ⟨project, hmeets.mono ht.settled hst.resolved⟩

theorem AtBottom.leadsTo {request : String × Version}
    (h : sources.AtBottom demands s.resolved request) (ht : t.Sound sources)
    (hst : s.LeadsTo t) : sources.AtBottom demands t.resolved request := by
  obtain ⟨front, requirement, back, hdemands, hselect, hmet⟩ := h
  exact ⟨front, requirement, back, hdemands, hselect, hmet.leadsTo ht hst⟩

/-- Where a run is among the demands of its manifest: with nothing under way, the demands of a call
are the last ones and those in front of them have been met; otherwise the package at the bottom of
the stack is selected for the demand that the run is at. -/
def Located (sources : Sources) (demands : List Demand) (opened : List (String × Version))
    (s : Session) : Task → Prop
  | .one name version _ => ∀ bottom ∈ (opened ++ [(name, version)]).head?,
      sources.AtBottom demands s.resolved bottom
  | .all wanted =>
    (∀ bottom ∈ opened.head?, sources.AtBottom demands s.resolved bottom) ∧
      (opened = [] → wanted = [] ∨ ∃ front, demands = front ++ wanted ∧
        sources.AllMet s.resolved front)

/-- **A run that ignores test dependencies is somewhere among the demands of its manifest**,
whatever it loads for them.  Test dependencies are left out because a package that is needed for the
tests only may be on the way back to the root. -/
theorem Calls.located {manifest : Manifest} {opened : List (String × Version)} {task : Task}
    (h : sources.Calls true manifest opened task s) :
    sources.Located manifest.demands opened s task := by
  induction h with
  | runtime =>
      refine ⟨fun _ hbottom => absurd hbottom (by simp), fun _ => .inr ⟨[], rfl, ?_⟩⟩
      exact fun _ hdemand => absurd hdemand List.not_mem_nil
  | tests _ => exact ⟨fun _ hbottom => absurd hbottom (by simp), fun _ => .inl rfl⟩
  -- A package is put at the bottom of the stack where nothing was under way.
  | @first opened name requirement rest s version hcall hselect ih =>
      intro bottom hbottom
      rw [Session.resolved_askFor]
      cases opened with
      | nil =>
          cases hbottom
          rcases ih.2 rfl with hnil | ⟨front, hdemands, hmet⟩
          · cases hnil
          · exact ⟨front, requirement, rest, hdemands, hselect, hmet⟩
      | cons first opened => exact ih.1 bottom hbottom
  -- The demand that has been met joins those in front of the rest.
  | @rest opened name requirement rest s t version project hcall hselect hload ih =>
      have hst := (Session.LeadsTo.askFor s (name, requirement)).trans (load_leadsTo hload)
      have ht := (hcall.rest hselect hload).sound
      refine ⟨fun bottom hbottom => (ih.1 bottom hbottom).leadsTo ht hst, fun hidle => ?_⟩
      rcases ih.2 hidle with hnil | ⟨front, hdemands, hmet⟩
      · cases hnil
      · refine .inr ⟨front ++ [(name, requirement)], by simp [hdemands], fun demand hdemand => ?_⟩
        rcases List.mem_append.mp hdemand with hdemand | hdemand
        · exact hmet.leadsTo ht hst demand hdemand
        · rw [List.mem_singleton.mp hdemand]
          exact ⟨project, version, hselect, kept?_of_load hload (hcall.sound.askFor _)⟩
  | inside hcall _ _ ih =>
      refine ⟨fun bottom hbottom => ?_, fun hidle => absurd hidle (by simp)⟩
      rw [Session.resolved_start]
      exact ih bottom hbottom

/-! ## The chain closes -/

/-- Getting to a package that is under way closes a cycle, when the demands in front of it have been
met. -/
theorem AtBottom.exists_loadAll {request : String × Version}
    (h : sources.AtBottom demands s.resolved request) (hs : s.Sound sources)
    (hway : request ∈ s.inProgress) :
    ∃ chain t, sources.loadAll demands s = some (.error (.dependencyCycle chain), t) := by
  obtain ⟨front, requirement, back, rfl, hselect, hmet⟩ := h
  obtain ⟨projects, t, hfront, hdone⟩ := exists_loadAll_of_allMet hmet
  have ht := loadAll_sound hfront hs
  have hkey : packageKey request ∈ t.underWay := by
    rw [(loadAll_leadsTo hfront).underWay]
    exact List.mem_map_of_mem hway
  obtain ⟨chain, hchain⟩ : ∃ chain,
      closedChain? (t.askFor (request.1, requirement)).inProgress request = some chain := by
    rw [Session.inProgress_askFor, ← Option.ne_none_iff_exists']
    exact fun hnone => closedChain?_eq_none_iff.mp hnone hkey
  have hload := sources.load_of_closedChain? requirement
    (kept?_eq_none_iff.mpr (by rw [Session.resolved_askFor]; exact ht.apart hkey)) hchain
  refine ⟨chain, t.askFor (request.1, requirement), ?_⟩
  rw [loadAll_append _ hfront, loadMore, sources.loadAll_of_load_error back hselect hload]
  rfl

/-- A run whose runtime dependencies close a cycle does so with and without test dependencies. -/
theorem Calls.exists_resolve?_of_cycle {manifest : Manifest} {opened : List (String × Version)}
    {task : Task} {chain : List (String × Version)}
    (hcall : sources.Calls true manifest opened task s)
    (h : sources.Fails task s (.dependencyCycle chain) t) (ignoreTests : Bool) (path : Path) :
    ∃ chain calls warnings, resolve? sources ignoreTests path manifest =
      some ⟨.error (.dependencyCycle chain), calls, warnings⟩ := by
  rcases resolve?_ignoring_cases (hcall.resolve?_of_fails h path) with
    ⟨error, u, hruntime, houtcome⟩ | ⟨dependencies, u, -, houtcome⟩
  · cases (Outcome.mk.inj houtcome).1
    exact ⟨chain, u.calls, u.warnings, resolve?_of_loadAll_error ignoreTests path hruntime⟩
  · cases (Outcome.mk.inj houtcome).1

/-- **A package with the dependencies of the root closes a cycle** when it is looked up for a
runtime dependency of the root. -/
theorem Calls.resolve?_of_same_demands {manifest : Manifest} {opened : List (String × Version)}
    {name : String} {version : Version} {requirement : Requirement} {found : Path} {copy : Package}
    (hcall : sources.Calls true manifest opened (.one name version requirement) s)
    (hnew : s.Lacks (name, version))
    (hfetch : sources.fetch name version requirement = .ok (found, copy))
    (hsame : rangeDemands copy.dependencies = manifest.demands) (ignoreTests : Bool)
    (path : Path) :
    ∃ chain calls warnings, resolve? sources ignoreTests path manifest =
      some ⟨.error (.dependencyCycle chain), calls, warnings⟩ := by
  have hinside := hcall.inside hnew hfetch
  obtain ⟨bottom, hbottom⟩ : ∃ bottom, (opened ++ [(name, version)]).head? = some bottom := by
    cases opened <;> exact ⟨_, rfl⟩
  have hway : bottom ∈ (s.start (name, version) found copy).inProgress := by
    rw [← hinside.opened_eq]
    exact List.mem_of_head? hbottom
  obtain ⟨chain, t, hcycle⟩ :=
    (hinside.located.1 bottom hbottom).exists_loadAll hinside.sound hway
  rw [← hsame] at hcycle
  exact hinside.exists_resolve?_of_cycle hcycle ignoreTests path

/-! ## Copies of the root -/

/-- For a package, only versions that the repository lists are loaded. -/
theorem Calls.mem_versions {ignoreTests : Bool} {declared : Package}
    {opened : List (String × Version)} {name : String} {version : Version}
    {requirement : Requirement}
    (h : sources.Calls ignoreTests (.package declared) opened (.one name version requirement) s) :
    version ∈ (sources.repository.versions name).toList := by
  obtain ⟨hselect, hpins⟩ := h.selects
  cases requirement with
  | within range => exact (isMinimum_of_select hselect).listed
  | pinned required =>
      have hranges : PinsIn [] (rootDemands ignoreTests (.package declared)) := by
        intro demand hdemand
        rcases List.mem_append.mp hdemand with hdemand | hdemand
        · exact pinsIn_rangeDemands [] _ demand hdemand
        · split at hdemand
          · cases hdemand
          · exact pinsIn_rangeDemands [] _ demand hdemand
      exact absurd (hranges _ (hpins required rfl) required rfl) List.not_mem_nil

/-- When a runtime dependency leads to a package with the dependencies of the root, the run fails
with a cycle, whether the package is new, under way or done. -/
theorem Calls.resolve?_of_same_dependencies {declared copy : Package}
    {opened : List (String × Version)} {name : String} {version : Version}
    {requirement : Requirement} {found : Path}
    (hcall : sources.Calls true (.package declared) opened (.one name version requirement) s)
    (hfetch : sources.fetch name version requirement = .ok (found, copy))
    (hsame : copy.dependencies = declared.dependencies) (ignoreTests : Bool) (path : Path) :
    ∃ chain calls warnings, resolve? sources ignoreTests path (.package declared) =
      some ⟨.error (.dependencyCycle chain), calls, warnings⟩ := by
  have hdemands : rangeDemands copy.dependencies = (Manifest.package declared).demands :=
    congrArg rangeDemands hsame
  rcases s.kept_or_closes_or_lacks (name, version) with ⟨project, hdone⟩ | ⟨hdone, chain, hchain⟩ |
    hnew
  · -- There has been an earlier call for the package, and its version is spelled as in this one.
    obtain ⟨⟨⟨name', version'⟩, project'⟩, hentry, hkey, -⟩ := exists_mem_of_kept? hdone
    obtain ⟨rfl, hrelease⟩ := Prod.mk.inj hkey
    obtain ⟨opened', requirement', s', hcall', hnew'⟩ :=
      hcall.looksUp_of_mem (hcall.sound.logged _ hentry)
    cases VersionSet.eq_of_toRelease_eq hcall'.mem_versions hcall.mem_versions hrelease
    exact hcall'.resolve?_of_same_demands hnew'
      (fetch_eq_ok_iff.mpr (fetch_eq_ok_iff.mp hfetch)) hdemands ignoreTests path
  · exact hcall.exists_resolve?_of_cycle (sources.load_of_closedChain? requirement hdone hchain)
      ignoreTests path
  · exact hcall.resolve?_of_same_demands hnew hfetch hdemands ignoreTests path

end Sources

/-- In the runtime tree of a package, no node declares the dependencies of the package. -/
theorem dependencies_ne_of_requests {sources : Sources} {ignoreTests : Bool} {path : Path}
    {declared : Package} {outcome : Outcome} {project node : Project} {key : String × Release}
    (h : resolve? sources ignoreTests path (.package declared) = some outcome)
    (hproject : outcome.result = .ok project)
    (hnode : sources.Requests (rangeDemands declared.dependencies) project.dependencies key node) :
    ∃ copy, node.declaration = .package copy ∧ copy.dependencies ≠ declared.dependencies := by
  obtain ⟨dependencies, tests, t, u, hruntime, -, -, -, -, rfl, -, -⟩ :=
    exists_session_of_resolve? h hproject
  have ht := Sources.loadAll_sound hruntime (.empty sources)
  obtain ⟨request, rfl⟩ := exists_packageKey_eq key
  have hkept := ht.settled.kept?_of_requests hnode
    (Sources.meets_of_loadAll hruntime (.empty sources)) rfl
  obtain ⟨entry, hentry, -, rfl⟩ := exists_mem_of_kept? hkept
  obtain ⟨-, -, found, copy, -, -, hdeclares, hfind, hread, -⟩ := ht.settled.exists_of_mem hentry
  refine ⟨copy, hdeclares, fun hsame => ?_⟩
  -- The node was looked up for a runtime dependency, so the runtime dependencies would have failed.
  have hrun := resolve?_of_loadAll_ok true path hruntime (Sources.loadAll_nil sources t)
  obtain ⟨opened, requirement, s, hcall, -⟩ :=
    Sources.looksUp_of_resolve? hrun (ht.logged entry hentry)
  obtain ⟨chain, calls, warnings, hcycle⟩ := hcall.resolve?_of_same_dependencies
    (Sources.fetch_eq_ok_iff.mpr ⟨hfind, hread⟩) hsame true path
  rw [hrun] at hcycle
  cases hcycle

/-- **What a run makes of the package that it resolves.**  If it succeeds, a node that was requested
as the package itself is a copy that declares other dependencies than the manifest which is
resolved; and if a chain of runtime dependencies leads back to the package, and the copy that the
repository has of it declares the same dependencies, the run fails with a cycle.  The root itself is
never in `in_progress`, which is why more than a chain back to it is needed for a cycle. -/
theorem rootCopy_of_resolve? (sources : Sources) (declared : Package) :
    (∀ ignoreTests path outcome project node,
      resolve? sources ignoreTests path (.package declared) = some outcome →
      outcome.result = .ok project →
      sources.Requests (rangeDemands declared.dependencies) project.dependencies
        (packageKey (declared.name, declared.version)) node →
        ∃ copy, node.declaration = .package copy ∧ copy.dependencies ≠ declared.dependencies) ∧
    (∀ opened version requirement s found copy,
      sources.Calls true (.package declared) opened (.one declared.name version requirement) s →
      packageKey (declared.name, version) = packageKey (declared.name, declared.version) →
      sources.fetch declared.name version requirement = .ok (found, copy) →
      copy.dependencies = declared.dependencies →
        ∀ ignoreTests path, ∃ chain calls warnings,
          resolve? sources ignoreTests path (.package declared) =
            some ⟨.error (.dependencyCycle chain), calls, warnings⟩) := by
  refine ⟨?tree, ?chain⟩
  case tree => exact fun _ _ _ _ _ h hproject hnode => dependencies_ne_of_requests h hproject hnode
  case chain =>
    intro opened version requirement s found copy hcall _ hfetch hsame
    exact hcall.resolve?_of_same_dependencies hfetch hsame

/-! ## A copy without the dependencies of the root -/

/-- The manifest of a package that depends on the package without dependencies. -/
def midText : String :=
  "\x7b\"type\":\"package\",\"name\":\"a/mid\",\"version\":\"1.0.0\"," ++
    "\"elm-version\":\"0.19.0 <= v < 0.20.0\"," ++
    "\"dependencies\":\x7b\"a/leaf\":\"1.0.0 <= v < 2.0.0\"\x7d\x7d"

/-- What `midText` declares. -/
def midPackage : Package :=
  { leafPackage with name := "a/mid", dependencies := .ofList [("a/leaf", leafRange)] }

/-- A repository that has both packages. -/
def midSources : Sources where
  repository := ⟨fun name _ => if name = "a/mid" then some ⟨"mid/elm.json"⟩
    else some ⟨"leaf/elm.json"⟩, fun _ => .ofList [leafVersion]⟩
  read path := if path = ⟨"mid/elm.json"⟩ then .ok midText.toUTF8 else .ok leafText.toUTF8

/-- The package without dependencies, as it is being changed: it is to depend on the package that
depends on it. -/
def changedLeaf : Package :=
  { leafPackage with dependencies := .ofList [("a/mid", leafRange)] }

/-- The package that depends on the package without dependencies, resolved. -/
def midProject : Project := ⟨⟨"mid/elm.json"⟩, .package midPackage, [leafProject], []⟩

theorem readPackage_mid :
    midSources.readPackage "a/mid" ⟨"mid/elm.json"⟩ = .ok midPackage :=
  eq_ok_of_toOption (by decide +kernel)

/-- The questions of the run that resolves the package. -/
def changedLeafCalls : List Query :=
  [.versions "a/mid", .find "a/mid" leafVersion, .versions "a/leaf", .find "a/leaf" leafVersion]

/-- The copy of the package is found below the other one, and the run goes on with it. -/
theorem resolve?_changedLeaf :
    resolve? midSources true ⟨"elm.json"⟩ (.package changedLeaf) =
      some ⟨.ok ⟨⟨"elm.json"⟩, .package changedLeaf, [midProject], []⟩, changedLeafCalls, []⟩ := by
  have hselectMid : midSources.select "a/mid" (.within leafRange) = .ok leafVersion := by
    decide +kernel
  have hselectLeaf : midSources.select "a/leaf" (.within leafRange) = .ok leafVersion := by
    decide +kernel
  have hfetchMid : midSources.fetch "a/mid" leafVersion (.within leafRange) =
      .ok (⟨"mid/elm.json"⟩, midPackage) :=
    Sources.fetch_eq_ok_iff.mpr ⟨rfl, readPackage_mid⟩
  have hfetchLeaf : midSources.fetch "a/leaf" leafVersion (.within leafRange) =
      .ok (⟨"leaf/elm.json"⟩, leafPackage) :=
    Sources.fetch_eq_ok_iff.mpr ⟨rfl, (Sources.readPackage_congr rfl _).trans readPackage_leaf⟩
  have hleaf : midSources.load "a/leaf" leafVersion (.within leafRange)
      ⟨[("a/mid", leafVersion)], [],
        [.versions "a/mid", .find "a/mid" leafVersion, .versions "a/leaf"], []⟩ =
      some (.ok leafProject, ⟨[("a/mid", leafVersion)], [(("a/leaf", leafVersion), leafProject)],
        changedLeafCalls, []⟩) :=
    midSources.load_of_no_demands ⟨List.not_mem_nil, by decide⟩ hfetchLeaf rfl
  have hnew : Session.Lacks ⟨[], [], [.versions "a/mid"], []⟩ ("a/mid", leafVersion) :=
    ⟨List.not_mem_nil, List.not_mem_nil⟩
  have hone : rangeDemands midPackage.dependencies = [("a/leaf", .within leafRange)] := rfl
  have hmid : midSources.load "a/mid" leafVersion (.within leafRange)
      ⟨[], [], [.versions "a/mid"], []⟩ =
      some (.ok midProject, ⟨[], [(("a/mid", leafVersion), midProject),
        (("a/leaf", leafVersion), leafProject)], changedLeafCalls, []⟩) := by
    rw [midSources.load_of_one_demand hnew hfetchMid hone hselectLeaf hleaf]
    rfl
  have hruntime : midSources.loadAll (Manifest.package changedLeaf).demands .empty =
      some (.ok [midProject], ⟨[], [(("a/mid", leafVersion), midProject),
        (("a/leaf", leafVersion), leafProject)], changedLeafCalls, []⟩) :=
    midSources.loadAll_singleton hselectMid hmid
  rw [resolve?_of_loadAll_ok true ⟨"elm.json"⟩ hruntime (Sources.loadAll_nil midSources _)]
  rfl

/-- Below the other package, the copy was requested as the package that is resolved. -/
theorem requests_leafProject :
    midSources.Requests (rangeDemands changedLeaf.dependencies) [midProject]
      (packageKey (changedLeaf.name, changedLeaf.version)) leafProject := by
  have hselectLeaf : midSources.select "a/leaf" (.within leafRange) = .ok leafVersion := by
    decide +kernel
  have hmid : (("a/mid", .within leafRange), midProject) ∈
      (rangeDemands changedLeaf.dependencies).zip [midProject] := List.mem_cons_self ..
  have hleaf : (("a/leaf", .within leafRange), leafProject) ∈
      (rangeDemands midPackage.dependencies).zip midProject.dependencies := List.mem_cons_self ..
  exact .deeper hmid rfl (.child hleaf hselectLeaf)

/-- **A cycle through the root is missed** when the copy of the root does not go on with it: the run
succeeds although the package is below itself.  `resolve` starts with an empty `Session`, and only
`load_package` puts a package under way. -/
theorem root_below_itself :
    resolve? midSources true ⟨"elm.json"⟩ (.package changedLeaf) =
        some ⟨.ok ⟨⟨"elm.json"⟩, .package changedLeaf, [midProject], []⟩, changedLeafCalls, []⟩ ∧
      midSources.Requests (rangeDemands changedLeaf.dependencies) [midProject]
        (packageKey (changedLeaf.name, changedLeaf.version)) leafProject :=
  ⟨resolve?_changedLeaf, requests_leafProject⟩

/-- The copy below the package declares nothing, unlike the package; and the package that depends on
itself is reported as a cycle, as its copy declares the same. -/
theorem rootCopy_of_resolve?_changedLeaf :
    (∃ copy, leafProject.declaration = .package copy ∧
      copy.dependencies ≠ changedLeaf.dependencies) ∧
    ∀ ignoreTests path, ∃ chain calls warnings,
      resolve? loopSources ignoreTests path (.package loopPackage) =
        some ⟨.error (.dependencyCycle chain), calls, warnings⟩ := by
  have hselect : loopSources.select "a/loop" (.within loopRange) = .ok loopVersion := by
    decide +kernel
  have hfetch : loopSources.fetch "a/loop" loopVersion (.within loopRange) =
      .ok (⟨"loop/elm.json"⟩, loopPackage) :=
    Sources.fetch_eq_ok_iff.mpr ⟨rfl, readPackage_loop⟩
  have hcall : loopSources.Calls true (.package loopPackage) []
      (.one "a/loop" loopVersion (.within loopRange)) (Session.empty.askFor _) :=
    .first .runtime hselect
  exact ⟨(rootCopy_of_resolve? midSources changedLeaf).1 _ _ _ _ _ resolve?_changedLeaf rfl
      requests_leafProject,
    (rootCopy_of_resolve? loopSources loopPackage).2 _ _ _ _ _ _ hcall rfl hfetch rfl⟩

end ElmManifest
