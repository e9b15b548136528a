import ElmManifest.Proofs.Resolution.Cycle
import ElmManifest.Proofs.Resolution.Tree

/-!
# Shared dependencies

A package that several others depend on is in the tree once for each of them.  Nothing in the tree
says that these nodes are one package; that they are alike is a matter of where they come from.
Every node stands at the place of a demand, and the version that is selected for the demand is what
the node was requested as.  The run keeps one result for every package, so the request determines
the node (`Sources.Settled.kept?_of_requests`); and the results that are kept for two packages were
settled from one manifest if they have one path, so their dependencies were selected alike, whatever
the packages are called.

## Main Definitions

* `Sources.Requests` — the nodes below a list of demands, each with its request.
* `Sources.Requested` — the nodes of a resolved tree, each with its request.
* `Sources.ReadsByPlace` — two spellings of a path that can both be read lead to one file.

## Main Statements

* `coherent_of_resolve?` — nodes with one request are equal, and nodes with one path have the same
  dependencies.
-/

namespace ElmManifest

/-! ## Requests of nodes -/

/-- A node of the trees of projects that stand one by one for demands, and the package that it was
requested as: the version that is selected for the demand at its place. -/
inductive Sources.Requests (sources : Sources) :
    List Demand → List Project → String × Release → Project → Prop where
  /-- The project at the place of a demand. -/
  | child {demands : List Demand} {projects : List Project} {name : String}
      {requirement : Requirement} {version : Version} {node : Project}
      (hplace : ((name, requirement), node) ∈ demands.zip projects)
      (hselect : sources.select name requirement = .ok version) :
      Requests sources demands projects (packageKey (name, version)) node
  /-- A node below that project, requested by what the project or a package below it declares. -/
  | deeper {demands : List Demand} {projects : List Project} {demand : Demand}
      {child node : Project} {declared : Package} {key : String × Release}
      (hplace : (demand, child) ∈ demands.zip projects)
      (hdeclares : child.declaration = .package declared)
      (hnode : Requests sources (rangeDemands declared.dependencies) child.dependencies key node) :
      Requests sources demands projects key node

/-- A node of the tree of a resolved manifest, at any depth, and the package that it was requested
as.  It is by the request and not by what the manifest declares that results are kept. -/
def Sources.Requested (sources : Sources) (ignoreTests : Bool) (manifest : Manifest)
    (root : Project) (key : String × Release) (node : Project) : Prop :=
  sources.Requests (rootDemands ignoreTests manifest) (root.dependencies ++ root.testDependencies)
    key node

/-- Of two lists that agree one by one, each item of the second has a place. -/
theorem exists_mem_zip_right {α β : Type} {R : α → β → Prop} {as : List α} {bs : List β}
    (h : List.Forall₂ R as bs) {b : β} (hb : b ∈ bs) : ∃ a, (a, b) ∈ as.zip bs := by
  rw [← List.map_snd_zip h.length_eq.ge] at hb
  obtain ⟨⟨a, _⟩, hmem, rfl⟩ := List.mem_map.mp hb
  exact ⟨a, hmem⟩

/-- Of two lists that agree one by one, each item of the first has a place. -/
theorem exists_mem_zip_left {α β : Type} {R : α → β → Prop} {as : List α} {bs : List β}
    (h : List.Forall₂ R as bs) {a : α} (ha : a ∈ as) : ∃ b, (a, b) ∈ as.zip bs := by
  rw [← List.map_fst_zip h.length_eq.le] at ha
  obtain ⟨⟨_, b⟩, hmem, rfl⟩ := List.mem_map.mp ha
  exact ⟨b, hmem⟩

/-- Every key is that of a request: the version may be spelled without tags. -/
theorem exists_packageKey_eq (key : String × Release) : ∃ request, packageKey request = key :=
  ⟨(key.1, ⟨key.2, [], [], by simp⟩), rfl⟩

/-- What is kept for a package does not depend on how its version is spelled. -/
theorem kept?_congr (done : List ((String × Version) × Project)) {a b : String × Version}
    (h : packageKey a = packageKey b) : kept? done a = kept? done b := by
  unfold kept? samePackage
  rw [h]

namespace Sources

variable {sources : Sources} {done : List ((String × Version) × Project)}

/-- When every key is there at most once, an entry is what is kept for its package. -/
theorem kept?_of_mem (hnodup : (doneKeys done).Nodup) {entry : (String × Version) × Project}
    (h : entry ∈ done) : kept? done entry.1 = some entry.2 := by
  obtain ⟨newer, earlier, rfl⟩ := List.append_of_mem h
  refine kept?_append hnodup ?_
  rw [kept?_cons, if_pos rfl]

/-! ## One request, one node -/

/-- A kept result is made of the manifest at its path, and its dependencies are kept results for
what this declares. -/
theorem Settled.exists_met_of_mem (hdone : sources.Settled done)
    {entry : (String × Version) × Project} (hentry : entry ∈ done) :
    ∃ declared, entry.2.declaration = .package declared ∧
      sources.readManifest entry.2.manifestPath = .ok (.package declared) ∧
      List.Forall₂ (sources.Meets done) (rangeDemands declared.dependencies)
        entry.2.dependencies := by
  obtain ⟨newer, earlier, path, declared, hsplit, rfl, hdeclares, -, hread, hmet⟩ :=
    hdone.exists_of_mem hentry
  have hsuffix : earlier <:+ done := by
    rw [hsplit]
    exact (List.suffix_cons entry earlier).trans (List.suffix_append newer _)
  exact ⟨declared, hdeclares, readManifest_of_readPackage hread,
    hmet.imp fun _ _ hmeets => hmeets.mono hdone hsuffix⟩

/-- The dependencies of a project that is kept meet what the project declares. -/
theorem Settled.forall₂_of_kept? (hdone : sources.Settled done) {request : String × Version}
    {child : Project} {declared : Package} (h : kept? done request = some child)
    (hdeclares : child.declaration = .package declared) :
    List.Forall₂ (sources.Meets done) (rangeDemands declared.dependencies) child.dependencies := by
  obtain ⟨entry, hentry, -, rfl⟩ := exists_mem_of_kept? h
  obtain ⟨declared', hdeclares', -, hmet⟩ := hdone.exists_met_of_mem hentry
  cases hdeclares.symm.trans hdeclares'
  exact hmet

/-- **A node is what is kept for its request.**  The induction is on the way down to the node.
There is one kept result for a package, so two nodes with one request are one project. -/
theorem Settled.kept?_of_requests (hdone : sources.Settled done) {demands : List Demand}
    {projects : List Project} {key : String × Release} {node : Project}
    (h : sources.Requests demands projects key node)
    (hmet : List.Forall₂ (sources.Meets done) demands projects) {request : String × Version}
    (hrequest : packageKey request = key) : kept? done request = some node := by
  induction h with
  | child hplace hselect =>
      obtain ⟨version, hselect', hkept⟩ := List.forall₂_zip hmet hplace
      cases hselect.symm.trans hselect'
      rw [kept?_congr done hrequest]
      exact hkept
  | deeper hplace hdeclares _ ih =>
      obtain ⟨version, -, hkept⟩ := List.forall₂_zip hmet hplace
      exact ih (hdone.forall₂_of_kept? hkept hdeclares) hrequest

theorem Settled.testDependencies_eq_nil (hdone : sources.Settled done)
    {entry : (String × Version) × Project} (hentry : entry ∈ done) :
    entry.2.testDependencies = [] := by
  induction hdone with
  | nil => exact absurd hentry List.not_mem_nil
  | cons _ _ _ _ _ ih =>
      rcases List.mem_cons.mp hentry with rfl | hentry
      · rfl
      · exact ih hentry

/-- Every node below projects that meet demands was requested, and is a kept result. -/
theorem Settled.exists_requests (hdone : sources.Settled done) {project node : Project}
    (h : project.HasNode node) {demands : List Demand}
    (hmet : List.Forall₂ (sources.Meets done) demands
      (project.dependencies ++ project.testDependencies)) :
    (∃ key, sources.Requests demands (project.dependencies ++ project.testDependencies) key node) ∧
      ∃ entry ∈ done, entry.2 = node := by
  induction h generalizing demands with
  | child hmem =>
      obtain ⟨⟨name, requirement⟩, hplace⟩ := exists_mem_zip_right hmet hmem
      have hmeets := List.forall₂_zip hmet hplace
      refine ⟨?_, hmeets.exists_mem⟩
      obtain ⟨version, hselect, -⟩ := hmeets
      exact ⟨_, .child hplace hselect⟩
  | @deeper project child node hmem _ ih =>
      obtain ⟨demand, hplace⟩ := exists_mem_zip_right hmet hmem
      have hmeets := List.forall₂_zip hmet hplace
      obtain ⟨entry, hentry, hchild⟩ := hmeets.exists_mem
      obtain ⟨-, -, -, declared, -, -, hdeclares, -⟩ := hdone.exists_of_mem hentry
      rw [hchild] at hdeclares
      -- Below a package there are runtime dependencies only.
      have htests : child.testDependencies = [] := hchild ▸ hdone.testDependencies_eq_nil hentry
      obtain ⟨version, -, hkept⟩ := hmeets
      have hbelow := hdone.forall₂_of_kept? hkept hdeclares
      rw [← List.append_nil child.dependencies, ← htests] at hbelow
      obtain ⟨⟨key, hnode⟩, hkept⟩ := ih hbelow
      rw [htests, List.append_nil] at hnode
      exact ⟨⟨key, .deeper hplace hdeclares hnode⟩, hkept⟩

/-! ## One path, the same dependencies -/

/-- Two spellings of a path that can both be read lead to one file.  A file system is like this:
repeated slashes and inner dots make no difference to where a path leads. -/
def ReadsByPlace (sources : Sources) : Prop :=
  ∀ (p q : Path) (bytes bytes' : ByteArray), p.SamePlace q → sources.read p = .ok bytes →
    sources.read q = .ok bytes' → bytes = bytes'

theorem exists_read_of_readManifest {path : Path} {manifest : Manifest}
    (h : sources.readManifest path = .ok manifest) :
    ∃ bytes, sources.read path = .ok bytes ∧ Manifest.decode path bytes = .ok manifest := by
  unfold readManifest at h
  cases hread : sources.read path with
  | error fault =>
      rw [hread] at h
      cases h
  | ok bytes =>
      rw [hread] at h
      exact ⟨bytes, rfl, h⟩

/-- What bytes declare does not depend on how their path is spelled. -/
theorem decode_eq_ok_of_samePlace {p q : Path} {bytes : ByteArray} {manifest : Manifest}
    (hplace : p.SamePlace q) (h : Manifest.decode p bytes = .ok manifest) :
    Manifest.decode q bytes = .ok manifest := by
  have hname : q.fileName? = p.fileName? := by
    unfold Path.fileName?
    rw [show p.components = q.components from hplace]
  unfold Manifest.decode Manifest.isLegacyPath at h ⊢
  rw [hname]
  cases hbytes : Manifest.ofBytes (p.fileName? == some legacyManifestName) bytes with
  | error fault =>
      rw [hbytes] at h
      cases h
  | ok found =>
      rw [hbytes] at h
      exact h

/-- The manifests at two spellings of one path are the same. -/
theorem ReadsByPlace.eq_of_readManifest (hread : sources.ReadsByPlace) {p q : Path}
    {a b : Manifest} (hplace : p.SamePlace q) (ha : sources.readManifest p = .ok a)
    (hb : sources.readManifest q = .ok b) : a = b := by
  obtain ⟨bytes, hbytes, hdecode⟩ := exists_read_of_readManifest ha
  obtain ⟨bytes', hbytes', hdecode'⟩ := exists_read_of_readManifest hb
  cases hread p q bytes bytes' hplace hbytes hbytes'
  have hsame := decode_eq_ok_of_samePlace hplace hdecode
  exact Except.ok.inj (hsame.symm.trans hdecode')

theorem rightUnique_meets : Relator.RightUnique (sources.Meets done) := by
  rintro demand a b ⟨version, hselect, hkept⟩ ⟨version', hselect', hkept'⟩
  cases hselect.symm.trans hselect'
  exact Option.some.inj (hkept.symm.trans hkept')

/-- Kept results that were settled from the same manifest have the same dependencies, whatever they
are kept for. -/
theorem Settled.dependencies_eq (hdone : sources.Settled done)
    {a b : (String × Version) × Project} (ha : a ∈ done) (hb : b ∈ done)
    (hsame : ∀ {m n : Manifest}, sources.readManifest a.2.manifestPath = .ok m →
      sources.readManifest b.2.manifestPath = .ok n → m = n) :
    a.2.dependencies = b.2.dependencies := by
  obtain ⟨declared, -, hread, hmet⟩ := hdone.exists_met_of_mem ha
  obtain ⟨declared', -, hread', hmet'⟩ := hdone.exists_met_of_mem hb
  cases hsame hread hread'
  exact List.right_unique_forall₂' rightUnique_meets hmet hmet'

end Sources

/-! ## Whole runs -/

/-- **Shared dependencies are coherent.**  In the tree of a run that succeeds, every node at any
depth, below a runtime dependency or a test dependency, has a request; nodes with one request are
equal, and nodes whose manifests have one path have the same dependencies, whatever they were
requested as.  Where a file is read by its place, this holds of paths that differ in spelling, too.
So it makes no difference which of several equal nodes a reader of the tree comes to first. -/
theorem coherent_of_resolve? {sources : Sources} {ignoreTests : Bool} {path : Path}
    {manifest : Manifest} {outcome : Outcome} {project : Project}
    (h : resolve? sources ignoreTests path manifest = some outcome)
    (hproject : outcome.result = .ok project) :
    (∀ node, project.HasNode node →
      ∃ key, sources.Requested ignoreTests manifest project key node) ∧
    (∀ key a b, sources.Requested ignoreTests manifest project key a →
      sources.Requested ignoreTests manifest project key b → a = b) ∧
    (∀ a b, project.HasNode a → project.HasNode b → a.manifestPath = b.manifestPath →
      a.dependencies = b.dependencies) ∧
    (sources.ReadsByPlace → ∀ a b, project.HasNode a → project.HasNode b →
      a.manifestPath.SamePlace b.manifestPath → a.dependencies = b.dependencies) := by
  obtain ⟨dependencies, tests, t, u, -, -, hu, -, -, rfl, hdependencies, htests⟩ :=
    exists_session_of_resolve? h hproject
  have hmet : List.Forall₂ (sources.Meets u.resolved) (rootDemands ignoreTests manifest)
      (dependencies ++ tests) := List.rel_append hdependencies htests
  -- Every node is a kept result, and there is one for each package.
  have hkept : ∀ node, Project.HasNode ⟨path, manifest.declaration, dependencies, tests⟩ node →
      ∃ entry ∈ u.resolved, entry.2 = node :=
    fun node hnode => (hu.settled.exists_requests hnode hmet).2
  refine ⟨?requests, ?keys, ?paths, ?places⟩
  case requests => exact fun node hnode => (hu.settled.exists_requests hnode hmet).1
  case keys =>
    intro key a b ha hb
    obtain ⟨request, hrequest⟩ := exists_packageKey_eq key
    have hkeptA := hu.settled.kept?_of_requests ha hmet hrequest
    have hkeptB := hu.settled.kept?_of_requests hb hmet hrequest
    exact Option.some.inj (hkeptA.symm.trans hkeptB)
  case paths =>
    intro a b ha hb hpath
    obtain ⟨entry, hentry, rfl⟩ := hkept a ha
    obtain ⟨other, hother, rfl⟩ := hkept b hb
    refine hu.settled.dependencies_eq hentry hother fun hm hn => ?_
    rw [hpath] at hm
    exact Except.ok.inj (hm.symm.trans hn)
  case places =>
    intro hread a b ha hb hplace
    obtain ⟨entry, hentry, rfl⟩ := hkept a ha
    obtain ⟨other, hother, rfl⟩ := hkept b hb
    exact hu.settled.dependencies_eq hentry hother fun hm hn =>
      hread.eq_of_readManifest hplace hm hn

/-! ## A package under two names -/

/-- An application that needs the package without dependencies twice, and for its tests a package of
another name, for which the repository finds the same manifest. -/
def aliasRoot : Application where
  elmVersion := .ofNumbers 0 19 1
  sourceDirectories := ["src"]
  dependencies := ⟨.ofList [("a/leaf", leafVersion)], .empty⟩
  testDependencies := ⟨.ofList [("a/leaf", leafVersion), ("b/leaf", leafVersion)], .empty⟩
  testDirectory := none

/-- What is remembered when the runtime dependencies of the application have been loaded. -/
def aliasSession : Session :=
  ⟨[], [(("a/leaf", leafVersion), leafProject)], [.find "a/leaf" leafVersion], []⟩

/-- The manifest that is found for the other name declares another package. -/
def aliasWarning : Warning :=
  .otherPackage ("b/leaf", leafVersion) ("a/leaf", leafVersion) ⟨"leaf/elm.json"⟩

/-- The application, resolved with its test dependencies. -/
def aliasProject : Project :=
  ⟨⟨"elm.json"⟩, .application aliasRoot, [leafProject], [leafProject, leafProject]⟩

theorem loadAll_aliasRoot :
    leafSources.loadAll (Manifest.application aliasRoot).demands .empty =
      some (.ok [leafProject], aliasSession) :=
  leafSources.loadAll_singleton rfl (load_leaf (.pinned leafVersion) [])

/-- The package of the other name is looked up after the runtime dependencies. -/
theorem load_alias :
    leafSources.load "b/leaf" leafVersion (.pinned leafVersion) aliasSession =
      some (.ok leafProject, ⟨[], (("b/leaf", leafVersion), leafProject) :: aliasSession.resolved,
        [.find "a/leaf" leafVersion, .find "b/leaf" leafVersion], [aliasWarning]⟩) := by
  have hread : leafSources.readPackage "b/leaf" ⟨"leaf/elm.json"⟩ = .ok leafPackage :=
    Sources.readPackage_of_readManifest (Sources.readManifest_of_readPackage readPackage_leaf) _
  have hfetch : leafSources.fetch "b/leaf" leafVersion (.pinned leafVersion) =
      .ok (⟨"leaf/elm.json"⟩, leafPackage) := Sources.fetch_eq_ok_iff.mpr ⟨rfl, hread⟩
  have hnew : aliasSession.Lacks ("b/leaf", leafVersion) := ⟨by decide, List.not_mem_nil⟩
  exact leafSources.load_of_no_demands hnew hfetch rfl

/-- The run that resolves the application: the package is looked up once under each name. -/
theorem resolve?_aliasRoot :
    resolve? leafSources false ⟨"elm.json"⟩ (.application aliasRoot) =
      some ⟨.ok aliasProject, [.find "a/leaf" leafVersion, .find "b/leaf" leafVersion],
        [aliasWarning]⟩ := by
  have htests : leafSources.loadAll (Manifest.application aliasRoot).testDemands aliasSession =
      some (.ok [leafProject, leafProject],
        ⟨[], (("b/leaf", leafVersion), leafProject) :: aliasSession.resolved,
          [.find "a/leaf" leafVersion, .find "b/leaf" leafVersion], [aliasWarning]⟩) := by
    have hkept : leafSources.load "a/leaf" leafVersion (.pinned leafVersion) aliasSession =
        some (.ok leafProject, aliasSession) := leafSources.load_of_kept? _ rfl
    refine (leafSources.loadAll_of_load_ok (s := aliasSession) _ rfl hkept).trans ?_
    exact congrArg _ (leafSources.loadAll_singleton (s := aliasSession) rfl load_alias)
  rw [resolve?_of_loadAll_ok false ⟨"elm.json"⟩ loadAll_aliasRoot htests]
  rfl

/-- All nodes of the application with two names for one manifest are alike: two of them have one
request, and all have one path. -/
theorem coherent_of_resolve?_aliasRoot :
    resolve? leafSources false ⟨"elm.json"⟩ (.application aliasRoot) =
        some ⟨.ok aliasProject, [.find "a/leaf" leafVersion, .find "b/leaf" leafVersion],
          [aliasWarning]⟩ ∧
      (∀ node, aliasProject.HasNode node →
        ∃ key, leafSources.Requested false (.application aliasRoot) aliasProject key node) ∧
      (∀ key a b, leafSources.Requested false (.application aliasRoot) aliasProject key a →
        leafSources.Requested false (.application aliasRoot) aliasProject key b → a = b) ∧
      (∀ a b, aliasProject.HasNode a → aliasProject.HasNode b →
        a.manifestPath = b.manifestPath → a.dependencies = b.dependencies) ∧
      leafSources.ReadsByPlace ∧
      (∀ a b, aliasProject.HasNode a → aliasProject.HasNode b →
        a.manifestPath.SamePlace b.manifestPath → a.dependencies = b.dependencies) := by
  have hread : leafSources.ReadsByPlace := by
    intro p q bytes bytes' _ hp hq
    cases hp
    cases hq
    rfl
  obtain ⟨hnodes, hkeys, hpaths, hplaces⟩ := coherent_of_resolve? resolve?_aliasRoot rfl
  exact ⟨resolve?_aliasRoot, hnodes, hkeys, hpaths, hread, hplaces hread⟩

end ElmManifest
