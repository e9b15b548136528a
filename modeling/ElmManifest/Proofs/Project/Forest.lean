import ElmManifest.Proofs.Resolution.Sharing
import ElmManifest.Proofs.Resolution.Tags

/-!
# Dependencies as a forest

The dependencies of a project are trees, and what is below each of them are trees again.  A package
that several others depend on is a node of these trees several times; in a tree that was resolved,
all nodes of one place have the same dependencies.

## Main Definitions

* `Project.place` — where the manifest of a project is, however its path is spelled.
* `Project.forestNodes` — the nodes of trees, in preorder.
* `Project.nodes` — everything below a project.
* `Project.SharesDependencies` — nodes of one place have equal dependencies.
* `Project.childrenAt` — the dependencies of the nodes at a place.

## Main Statements

* `Project.forestInduction` — induction over forests.
* `Project.place_eq_of_sameAll` — equal lists of projects have the same places.
* `Project.sharesDependencies_of_resolve?` — nodes of one place share their dependencies in every
  tree that was resolved.
-/

namespace ElmManifest.Project

/-- Where the manifest of a project is, however its path is spelled. -/
def place (p : Project) : List Component :=
  p.manifestPath.components

/-! ## Nodes -/

mutual

/-- A project and everything below it, in preorder.  The nodes of a tree are the projects that a
summary could show. -/
def treeNodes : Project → List Project
  | ⟨path, declaration, dependencies, tests⟩ =>
    ⟨path, declaration, dependencies, tests⟩ :: forestNodes dependencies

/-- Projects and everything below them, in preorder. -/
def forestNodes : List Project → List Project
  | [] => []
  | p :: rest => treeNodes p ++ forestNodes rest

end

/-- Every dependency of a project, runtime dependencies first, and everything below it. -/
def nodes (p : Project) : List Project :=
  forestNodes (p.dependencies ++ p.testDependencies)

/-- A forest is empty, or it is a project with a forest below it and a forest behind it. -/
@[elab_as_elim]
theorem forestInduction {motive : List Project → Prop} (nil : motive [])
    (cons : ∀ p rest, motive p.dependencies → motive rest → motive (p :: rest))
    (projects : List Project) : motive projects :=
  @Project.rec_1 (fun p => motive p.dependencies) motive (fun _ _ _ _ below _ => below) nil cons
    projects

theorem forestNodes_cons (p : Project) (rest : List Project) :
    forestNodes (p :: rest) = p :: (forestNodes p.dependencies ++ forestNodes rest) := by
  cases p
  rw [forestNodes, treeNodes, List.cons_append]

/-! ## Equal dependencies -/

/-- Projects that agree in everything but spellings and tags have one place. -/
theorem place_eq_of_same {p q : Project} (h : p.same q = true) : p.place = q.place := by
  cases p
  cases q
  simp only [same, Bool.and_eq_true, decide_eq_true_eq] at h
  exact h.1.1.1

/-- Lists of projects that are the same have the same places, one by one. -/
theorem place_eq_of_sameAll {ps qs : List Project} (h : sameAll ps qs = true) :
    ps.map place = qs.map place := by
  induction ps generalizing qs with
  | nil =>
    cases qs with
    | nil => rfl
    | cons => cases h
  | cons p ps ih =>
    cases qs with
    | nil => cases h
    | cons q qs =>
      rw [sameAll, Bool.and_eq_true] at h
      rw [List.map_cons, List.map_cons, place_eq_of_same h.1, ih h.2]

theorem length_eq_of_sameAll {ps qs : List Project} (h : sameAll ps qs = true) :
    ps.length = qs.length := by
  have hplaces := congrArg List.length (place_eq_of_sameAll h)
  rwa [List.length_map, List.length_map] at hplaces

/-- Nodes of one place have equal dependencies, spellings of paths and tags of versions aside.  It
is what makes leaving out the second of them harmless. -/
def SharesDependencies (p : Project) : Prop :=
  ∀ a ∈ p.nodes, ∀ b ∈ p.nodes, a.manifestPath.SamePlace b.manifestPath →
    sameAll a.dependencies b.dependencies = true

/-- The dependencies of the nodes at a place: those of the first one. -/
def childrenAt (p : Project) (place : List Component) : List Project :=
  (p.nodes.find? fun node => node.place = place).elim [] dependencies

/-- Where nodes share their dependencies, they all have those that are found at their place. -/
theorem SharesDependencies.sameAll_childrenAt {p node : Project} (h : p.SharesDependencies)
    (hnode : node ∈ p.nodes) : sameAll node.dependencies (p.childrenAt node.place) = true := by
  unfold childrenAt
  cases hfound : p.nodes.find? fun other => other.place = node.place with
  | none =>
    have hother := List.find?_eq_none.mp hfound node hnode
    exact absurd (decide_eq_true rfl) hother
  | some other =>
    have hplace : other.place = node.place := by simpa using List.find?_some hfound
    exact h node hnode other (List.mem_of_find?_eq_some hfound) hplace.symm

/-! ## Resolved trees -/

/-- What is below projects is below the project that has them among its dependencies. -/
theorem hasNode_of_mem_forestNodes {projects : List Project} {node : Project}
    (h : node ∈ forestNodes projects) : ∀ {p : Project},
      projects ⊆ p.dependencies ++ p.testDependencies → p.HasNode node := by
  induction projects using forestInduction with
  | nil => exact absurd h List.not_mem_nil
  | cons first rest below ih =>
    intro p hsub
    have hfirst := hsub (List.mem_cons_self ..)
    rw [forestNodes_cons, List.mem_cons, List.mem_append] at h
    rcases h with rfl | h | h
    · exact .child hfirst
    · exact .deeper hfirst (below h (List.subset_append_left ..))
    · exact ih h fun q hq => hsub (List.mem_cons_of_mem _ hq)

theorem hasNode_of_mem_nodes {p node : Project} (h : node ∈ p.nodes) : p.HasNode node :=
  hasNode_of_mem_forestNodes h (List.Subset.refl _)

/-- **Nodes of one place share their dependencies in every tree that was resolved**, if a file is
read by its place.  Two nodes of one place have one manifest, and the versions that it leads to are
settled by the repository. -/
theorem sharesDependencies_of_resolve? {sources : Sources} {ignoreTests : Bool} {path : Path}
    {manifest : Manifest} {outcome : Outcome} {p : Project} (hread : sources.ReadsByPlace)
    (h : resolve? sources ignoreTests path manifest = some outcome) (hp : outcome.result = .ok p) :
    p.SharesDependencies := by
  obtain ⟨dependencies, tests, t, u, -, -, hu, -, -, rfl, hdependencies, htests⟩ :=
    exists_session_of_resolve? h hp
  have hmet := List.rel_append hdependencies htests
  intro a ha b hb hplace
  obtain ⟨-, entry, hentry, rfl⟩ := hu.settled.exists_requests (hasNode_of_mem_nodes ha) hmet
  obtain ⟨-, other, hother, rfl⟩ := hu.settled.exists_requests (hasNode_of_mem_nodes hb) hmet
  rw [hu.settled.dependencies_eq hentry hother fun hm hn => hread.eq_of_readManifest hplace hm hn]
  exact sameAll_refl _

end ElmManifest.Project
