import ElmManifest.Proofs.Resolution.Run
import ElmManifest.Proofs.Selection

/-!
# Resolved trees

What a resolved project looks like, from its own dependencies down to the last package below it.
A tree is put together from results that were kept when they were needed elsewhere, so nothing is
said here of the order in which it was made: every kept result was settled from the manifest that
was found for it and from older results (`Sources.Settled`), and a node of the tree is one of them.

## Main Definitions

* `Project.HasNode` — a project anywhere in the tree below another one.
* `Repository.Found` — a project whose manifest the repository found for a package.
* `Sources.MeetsPins`, `Sources.MeetsRanges` — the projects of a list of dependencies, one by one.
* `Sources.IsNode` — what every node below the root is.
* `Sources.IsRoot` — what the root of a tree is.

## Main Statements

* `tree_of_resolve?` — the root and every node below it are as they should be.
-/

namespace ElmManifest

/-- A project in the tree below another one, at any depth, among the runtime dependencies or the
test dependencies.  The project itself is none of its nodes. -/
inductive Project.HasNode : Project → Project → Prop where
  /-- A dependency of the project itself. -/
  | child {project node : Project} (h : node ∈ project.dependencies ++ project.testDependencies) :
      HasNode project node
  /-- A node below a dependency of the project. -/
  | deeper {project child node : Project}
      (h : child ∈ project.dependencies ++ project.testDependencies)
      (hnode : HasNode child node) : HasNode project node

/-- What holds of the dependencies and of the nodes below them holds of all nodes. -/
theorem Project.HasNode.of_children {p : Project → Prop} {project node : Project}
    (hchild : ∀ child ∈ project.dependencies ++ project.testDependencies,
      p child ∧ ∀ node, child.HasNode node → p node) (h : project.HasNode node) : p node := by
  cases h with
  | child hmem => exact (hchild node hmem).1
  | deeper hmem hdeeper => exact (hchild _ hmem).2 node hdeeper

/-- Among the questions of a run is one for a package at this version, in some spelling, and the
answer was the manifest of the project.  The spelling is that of the first request for the package;
later ones are answered from the kept results. -/
def Repository.Found (repository : Repository) (calls : List Query) (name : String)
    (version : Version) (project : Project) : Prop :=
  ∃ spelled : Version, spelled.SameRelease version ∧ .find name spelled ∈ calls ∧
    repository.find name spelled = some project.manifestPath

namespace Sources

variable (sources : Sources) (calls : List Query)

/-- One project for each pin, in order, found at the pinned version. -/
def MeetsPins (pins : List (String × Version)) (projects : List Project) : Prop :=
  List.Forall₂ (fun pin project => sources.repository.Found calls pin.1 pin.2 project) pins
    projects

/-- One project for each range, in order, found at the smallest available version in the range. -/
def MeetsRanges (ranges : List (String × Constraint)) (projects : List Project) : Prop :=
  List.Forall₂ (fun entry project => ∃ version,
    entry.2.IsMinimum (sources.repository.versions entry.1).toList version ∧
      sources.repository.Found calls entry.1 version project) ranges projects

/-- A package that declares what is read at its path, without test dependencies, and with one
project for each of its dependencies.  Its dependencies are all found at the smallest available
version, and what it declares for tests is not loaded. -/
def IsNode (node : Project) : Prop :=
  ∃ declared : Package, sources.readManifest node.manifestPath = .ok (.package declared) ∧
    node.declaration = .package declared ∧ node.testDependencies = [] ∧
    sources.MeetsRanges calls declared.dependencies.toList node.dependencies

/-- A project with one project for each dependency that its manifest declares: the pins of an
application, direct before indirect, or the ranges of a package.  Test dependencies that are ignored
are left out; a legacy manifest has no dependencies that are loaded. -/
def IsRoot (ignoreTests : Bool) (manifest : Manifest) (root : Project) : Prop :=
  root.declaration = manifest.declaration ∧
  match manifest with
  | .application declared =>
    sources.MeetsPins calls
      (declared.dependencies.direct.toList ++ declared.dependencies.indirect.toList)
      root.dependencies ∧
    if ignoreTests then root.testDependencies = []
    else sources.MeetsPins calls
      (declared.testDependencies.direct.toList ++ declared.testDependencies.indirect.toList)
      root.testDependencies
  | .package declared =>
    sources.MeetsRanges calls declared.dependencies.toList root.dependencies ∧
    if ignoreTests then root.testDependencies = []
    else sources.MeetsRanges calls declared.testDependencies.toList root.testDependencies
  | .legacy _ => root.dependencies = [] ∧ root.testDependencies = []

end Sources

/-! ## From kept results to nodes -/

namespace Sources

variable {sources : Sources}

/-- A package is read from a manifest that declares it. -/
theorem readManifest_of_readPackage {name : String} {path : Path} {declared : Package}
    (h : sources.readPackage name path = .ok declared) :
    sources.readManifest path = .ok (.package declared) := by
  unfold readPackage at h
  cases hread : sources.readManifest path with
  | error error =>
      rw [hread] at h
      cases h
  | ok manifest =>
      rw [hread] at h
      cases manifest <;> cases h
      rfl

/-- A manifest that declares a package is read as one, whatever the package was looked up as. -/
theorem readPackage_of_readManifest {path : Path} {declared : Package}
    (h : sources.readManifest path = .ok (.package declared)) (name : String) :
    sources.readPackage name path = .ok declared := by
  unfold readPackage
  rw [h]
  rfl

/-- Reading a package depends on nothing but the file at the path. -/
theorem readPackage_congr {a b : Sources} {path : Path} (h : b.read path = a.read path)
    (name : String) : b.readPackage name path = a.readPackage name path := by
  rw [readPackage, readManifest, h, readPackage, readManifest]

/-- A version that is selected for a range is a smallest available one in it. -/
theorem isMinimum_of_select {name : String} {range : Constraint} {version : Version}
    (h : sources.select name (.within range) = .ok version) :
    range.IsMinimum (sources.repository.versions name).toList version := by
  unfold select at h
  dsimp only at h
  split at h
  next selected hselected =>
    cases h
    exact Constraint.isMinimum_of_selectMinimum hselected
  · cases h

/-- A kept result was found for its package. -/
theorem Settled.found_of_kept? {done : List ((String × Version) × Project)}
    (hdone : sources.Settled done) {calls : List Query}
    (hlogged : ∀ entry ∈ done, Query.find entry.1.1 entry.1.2 ∈ calls) {name : String}
    {version : Version} {project : Project}
    (h : kept? done (name, version) = some project) :
    sources.repository.Found calls name version project := by
  induction hdone with
  | nil => cases h
  | @cons done name' version' path declared dependencies _ _ found _ _ ih =>
      rw [kept?_cons] at h
      split at h
      next hkey =>
        cases h
        obtain ⟨rfl, hrelease⟩ := Prod.mk.inj hkey
        exact ⟨version', hrelease, hlogged _ (List.mem_cons_self ..), found⟩
      next => exact ih (fun entry hentry => hlogged entry (List.mem_cons_of_mem _ hentry)) h

/-- What meets the demands of a package meets its ranges. -/
theorem meetsRanges_of_forall₂ {done : List ((String × Version) × Project)}
    (hdone : sources.Settled done) {calls : List Query}
    (hlogged : ∀ entry ∈ done, Query.find entry.1.1 entry.1.2 ∈ calls)
    {ranges : NameMap Constraint} {projects : List Project}
    (h : List.Forall₂ (sources.Meets done) (rangeDemands ranges) projects) :
    sources.MeetsRanges calls ranges.toList projects := by
  rw [rangeDemands, List.forall₂_map_left_iff] at h
  refine h.imp fun entry project hmeets => ?_
  obtain ⟨version, hselect, hkept⟩ := hmeets
  exact ⟨version, isMinimum_of_select hselect, hdone.found_of_kept? hlogged hkept⟩

/-- What meets the demands of an application meets its pins. -/
theorem meetsPins_of_forall₂ {done : List ((String × Version) × Project)}
    (hdone : sources.Settled done) {calls : List Query}
    (hlogged : ∀ entry ∈ done, Query.find entry.1.1 entry.1.2 ∈ calls)
    {pins : ExactDependencies} {projects : List Project}
    (h : List.Forall₂ (sources.Meets done) (pinDemands pins) projects) :
    sources.MeetsPins calls (pins.direct.toList ++ pins.indirect.toList) projects := by
  rw [pinDemands, List.forall₂_map_left_iff] at h
  refine h.imp fun pin project hmeets => ?_
  obtain ⟨version, hselect, hkept⟩ := hmeets
  cases hselect
  exact hdone.found_of_kept? hlogged hkept

/-- What meets a demand is a kept result. -/
theorem Meets.exists_mem {done : List ((String × Version) × Project)} {demand : Demand}
    {project : Project} (h : sources.Meets done demand project) :
    ∃ entry ∈ done, entry.2 = project := by
  obtain ⟨version, -, hkept⟩ := h
  obtain ⟨entry, hentry, -, heq⟩ := exists_mem_of_kept? hkept
  exact ⟨entry, hentry, heq⟩

/-- Test dependencies that are ignored are left out, and others are met. -/
theorem testDependencies_of_forall₂ {R : Demand → Project → Prop} {ignoreTests : Bool}
    {demands : List Demand} {tests : List Project} {p : Prop}
    (h : List.Forall₂ R (if ignoreTests then [] else demands) tests)
    (hmet : List.Forall₂ R demands tests → p) : if ignoreTests then tests = [] else p := by
  split
  next hignore =>
    rw [if_pos hignore] at h
    exact List.forall₂_nil_left_iff.mp h
  next hignore =>
    rw [if_neg hignore] at h
    exact hmet h

/-- **Every kept result is a node, and so is everything below it.**  The results below a kept result
are older kept results, so the induction is on how the results were settled.  A package that is done
has its dependencies among those that were done before. -/
theorem Settled.isNode {done : List ((String × Version) × Project)}
    (hdone : sources.Settled done) {calls : List Query}
    (hlogged : ∀ entry ∈ done, Query.find entry.1.1 entry.1.2 ∈ calls)
    {entry : (String × Version) × Project} (hentry : entry ∈ done) :
    sources.IsNode calls entry.2 ∧ ∀ node, entry.2.HasNode node → sources.IsNode calls node := by
  induction hdone generalizing entry with
  | nil => exact absurd hentry List.not_mem_nil
  | @cons done name version path declared dependencies hearlier _ _ read met ih =>
      have hlogged' : ∀ entry ∈ done, Query.find entry.1.1 entry.1.2 ∈ calls :=
        fun entry hentry => hlogged entry (List.mem_cons_of_mem _ hentry)
      rcases List.mem_cons.mp hentry with rfl | hentry
      · refine ⟨⟨declared, readManifest_of_readPackage read, rfl, rfl,
          meetsRanges_of_forall₂ hearlier hlogged' met⟩, ?_⟩
        intro node hnode
        refine Project.HasNode.of_children (fun child hmem => ?_) hnode
        rw [List.append_nil] at hmem
        -- A dependency is an older result, so the induction speaks of it.
        obtain ⟨demand, -, hmeets⟩ := exists_left_of_forall₂ met hmem
        obtain ⟨older, holder, rfl⟩ := hmeets.exists_mem
        exact ih hlogged' holder
      · exact ih hlogged' hentry

end Sources

/-- **The tree of a run that succeeds.**  Its root has one project for each dependency that its
manifest declares, in order, and every node below it, at any depth, is a package that declares what
is read at its path and has one project for each dependency that this declares.  Between the
declarations and the tree stands nothing but what the repository answers. -/
theorem tree_of_resolve? {sources : Sources} {ignoreTests : Bool} {path : Path}
    {manifest : Manifest} {outcome : Outcome} {project : Project}
    (h : resolve? sources ignoreTests path manifest = some outcome)
    (hproject : outcome.result = .ok project) :
    project.manifestPath = path ∧
      sources.IsRoot outcome.calls ignoreTests manifest project ∧
      ∀ node, project.HasNode node → sources.IsNode outcome.calls node := by
  obtain ⟨dependencies, tests, t, u, -, -, hu, -, hcalls, rfl, hdependencies, htests⟩ :=
    exists_session_of_resolve? h hproject
  rw [← hcalls]
  refine ⟨rfl, ?root, ?nodes⟩
  case root =>
    refine ⟨rfl, ?_⟩
    cases manifest with
    | application declared =>
        exact ⟨Sources.meetsPins_of_forall₂ hu.settled hu.logged hdependencies,
          Sources.testDependencies_of_forall₂ htests
            (Sources.meetsPins_of_forall₂ hu.settled hu.logged)⟩
    | package declared =>
        exact ⟨Sources.meetsRanges_of_forall₂ hu.settled hu.logged hdependencies,
          Sources.testDependencies_of_forall₂ htests
            (Sources.meetsRanges_of_forall₂ hu.settled hu.logged)⟩
    | legacy declared =>
        -- No demand is made for a legacy manifest, so there is nothing below its project.
        have hnone : (if ignoreTests then [] else (Manifest.legacy declared).testDemands) = [] := by
          split <;> rfl
        rw [hnone] at htests
        exact ⟨List.forall₂_nil_left_iff.mp hdependencies, List.forall₂_nil_left_iff.mp htests⟩
  case nodes =>
    intro node hnode
    refine Project.HasNode.of_children (fun child hmem => ?_) hnode
    obtain ⟨demand, hmeets⟩ : ∃ demand, sources.Meets u.resolved demand child := by
      rcases List.mem_append.mp hmem with hmem | hmem
      · obtain ⟨demand, -, hmeets⟩ := exists_left_of_forall₂ hdependencies hmem
        exact ⟨demand, hmeets⟩
      · obtain ⟨demand, -, hmeets⟩ := exists_left_of_forall₂ htests hmem
        exact ⟨demand, hmeets⟩
    obtain ⟨entry, hentry, rfl⟩ := hmeets.exists_mem
    exact hu.settled.isNode hu.logged hentry

/-- The versions of the package without dependencies that the root accepts. -/
def leafRange : Constraint := ⟨.ofNumbers 1 0 0, true, .ofNumbers 2 0 0, false⟩

/-- A package that depends on it and on nothing else. -/
def leafRoot : Package :=
  { leafPackage with
    name := "a/root"
    dependencies := .ofList [("a/leaf", leafRange)] }

/-- The run asks for the versions of the dependency and looks up the only one that there is. -/
theorem resolve?_leafRoot :
    resolve? leafSources true ⟨"elm.json"⟩ (.package leafRoot) =
      some ⟨.ok ⟨⟨"elm.json"⟩, .package leafRoot, [leafProject], []⟩,
        [.versions "a/leaf", .find "a/leaf" leafVersion], []⟩ := by
  have hselect : leafSources.select "a/leaf" (.within leafRange) = .ok leafVersion := by
    decide +kernel
  have hruntime : leafSources.loadAll (Manifest.package leafRoot).demands .empty =
      some (.ok [leafProject], ⟨[], [(("a/leaf", leafVersion), leafProject)],
        [.versions "a/leaf", .find "a/leaf" leafVersion], []⟩) :=
    leafSources.loadAll_singleton hselect (load_leaf (.within leafRange) [.versions "a/leaf"])
  rw [resolve?_of_loadAll_ok true ⟨"elm.json"⟩ hruntime (Sources.loadAll_nil leafSources _)]
  rfl

/-- The tree of the package that depends on the package without dependencies has one node, which is
found at the only version there is. -/
theorem tree_of_resolve?_leafRoot :
    let root : Project := ⟨⟨"elm.json"⟩, .package leafRoot, [leafProject], []⟩
    let calls : List Query := [.versions "a/leaf", .find "a/leaf" leafVersion]
    resolve? leafSources true ⟨"elm.json"⟩ (.package leafRoot) = some ⟨.ok root, calls, []⟩ ∧
      root.manifestPath = ⟨"elm.json"⟩ ∧
      leafSources.IsRoot calls true (.package leafRoot) root ∧
      ∀ node, root.HasNode node → leafSources.IsNode calls node :=
  ⟨resolve?_leafRoot, tree_of_resolve? resolve?_leafRoot rfl⟩

end ElmManifest
