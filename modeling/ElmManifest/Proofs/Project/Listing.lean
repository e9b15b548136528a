import ElmManifest.Project.Summary
import ElmManifest.Proofs.Project.Forest
import ElmManifest.Proofs.Resolution.RootCycle
import Mathlib.Algebra.BigOperators.Group.Finset.Basic

/-!
# What the sections of a summary list

The trees of a summary are cut where a package comes again, and a cut at one node could hide what
is nowhere else.  It does not.  The first row of a package has its dependencies below it, one level
deeper and in order, and each of these has a row, if only a row that points back.  So, going down
from the roots, no node is without a row of its place: this needs no more than that nodes of one
place have the same dependencies, and no order among the packages.

The traversal is described by a relation (`Project.Listing`), with the places that were shown before
and after, so that an induction follows the rows and not the text.

## Main Definitions

* `Project.Row` — a line of a tree; `Row.children` are the projects listed one level below it.
* `Project.Row.Fits` — a row has its dependencies below it, or was shown above and has nothing.
* `Project.Listing` — the rows of trees, and the places shown before and after them.
* `Project.ListsOnce` — the rows of both sections show every package, and none twice.

## Main Statements

* `Project.exists_listing` — the lines of trees are the lines of such rows.
* `Project.Listing.fits` — every row fits where it stands.
* `Project.Listing.length_add_sum` — how many rows there are.
* `Project.Listing.place_mem_of_mem_nodes` — no node is without a row.
* `Project.summary_listsOnce` — what a summary lists.
-/

namespace ElmManifest.Project

/-! ## Rows -/

/-- A line of a tree. -/
structure Row where
  /-- How deep the project stands. -/
  depth : Nat
  /-- The project. -/
  project : Project
  /-- Whether the line is marked. -/
  marked : Bool

namespace Row

variable {row : Row} {below behind : List Row}

/-- The text of a row. -/
def line (row : Row) : String :=
  treeLine row.depth row.project row.marked

/-- The place of the project. -/
def place (row : Row) : List Component :=
  row.project.place

@[simp] theorem place_mk (depth : Nat) (p : Project) (marked : Bool) :
    place ⟨depth, p, marked⟩ = p.place :=
  rfl

/-- What is below a row, of what is behind it: all up to the next row that is no deeper. -/
def under (row : Row) (behind : List Row) : List Row :=
  behind.takeWhile fun other => row.depth < other.depth

/-- The projects that are listed one level below a row, in order. -/
def children (row : Row) (behind : List Row) : List Project :=
  ((row.under behind).filter fun other => other.depth = row.depth + 1).map project

/-- A row says of a project what is to be said where certain places are shown above. -/
structure Fits (row : Row) (above : Shown) (behind : List Row) : Prop where
  /-- The first row of a place is not marked, and has the dependencies below it. -/
  first : row.place ∉ above →
    row.marked = false ∧ row.children behind = row.project.dependencies
  /-- Every other one has nothing below it, and is marked if there are dependencies. -/
  again : row.place ∈ above →
    (row.marked = true ↔ row.project.dependencies ≠ []) ∧ row.under behind = []

/-- Whether a row fits depends on what is shown above, not on the order of it. -/
theorem Fits.of_mem_iff {above above' : Shown} (h : row.Fits above behind)
    (habove : ∀ place, place ∈ above ↔ place ∈ above') : row.Fits above' behind where
  first hnew := h.first fun hmem => hnew ((habove _).mp hmem)
  again hmem := h.again ((habove _).mpr hmem)

/-- Nothing is below a row if the next one is no deeper. -/
theorem under_eq_nil (h : ∀ next ∈ behind.head?, next.depth ≤ row.depth) :
    row.under behind = [] := by
  cases behind with
  | nil => rfl
  | cons next rest =>
    have hnext := h next rfl
    exact List.takeWhile_cons_of_neg (by simpa using hnext)

/-- Deeper rows are below a row, up to one that is no deeper. -/
theorem under_append (hbelow : ∀ other ∈ below, row.depth < other.depth)
    (hbehind : ∀ next ∈ behind.head?, next.depth ≤ row.depth) :
    row.under (below ++ behind) = below := by
  have hnil := under_eq_nil hbehind
  unfold under at hnil ⊢
  rw [List.takeWhile_append_of_pos (by simpa using hbelow), hnil, List.append_nil]

/-- The children of a row have rows behind it. -/
theorem map_place_children_subset (row : Row) (behind : List Row) :
    (row.children behind).map Project.place ⊆ behind.map place := by
  unfold children
  rw [List.map_map]
  exact List.map_subset _ fun other h =>
    (List.takeWhile_sublist _).subset (List.mem_of_mem_filter h)

end Row

/-- The projects of the outermost rows of a section, in order. -/
def outermost (rows : List Row) : List Project :=
  (rows.filter fun row => row.depth = 2).map Row.project

/-! ## The traversal -/

/-- The rows of trees at a depth, and the places shown before and after them.  It is the traversal
of `render_dependency`, without the texts of the lines. -/
inductive Listing : Shown → Nat → List Project → List Row → Shown → Prop where
  /-- No tree has no row. -/
  | nil {shown : Shown} {depth : Nat} : Listing shown depth [] [] shown
  /-- A project that was shown has one row. -/
  | again {shown shown' : Shown} {depth : Nat} {p : Project} {rest : List Project} {more : List Row}
      (hshown : p.place ∈ shown) (hrest : Listing shown depth rest more shown') :
      Listing shown depth (p :: rest) (⟨depth, p, !p.dependencies.isEmpty⟩ :: more) shown'
  /-- A project that was not shown has a row and below it the rows of its dependencies. -/
  | first {shown middle shown' : Shown} {depth : Nat} {p : Project} {rest : List Project}
      {below more : List Row} (hnew : p.place ∉ shown)
      (hbelow : Listing (p.place :: shown) (depth + 1) p.dependencies below middle)
      (hrest : Listing middle depth rest more shown') :
      Listing shown depth (p :: rest) (⟨depth, p, false⟩ :: (below ++ more)) shown'

/-- The lines of trees are the lines of their rows. -/
theorem exists_listing (projects : List Project) : ∀ (depth : Nat) (shown : Shown),
    ∃ rows shown', Listing shown depth projects rows shown' ∧
      forestLines depth projects shown = (rows.map Row.line, shown') := by
  induction projects using forestInduction with
  | nil => exact fun _ shown => ⟨[], shown, .nil, rfl⟩
  | cons p rest below ih =>
    intro depth shown
    obtain ⟨path, declaration, dependencies, tests⟩ := p
    by_cases hshown : path.components ∈ shown
    · obtain ⟨more, shown', hmore, hlines⟩ := ih depth shown
      refine ⟨_, shown', .again hshown hmore, ?_⟩
      rw [forestLines, treeLines, if_pos hshown]
      simp only [hlines, List.map_cons, List.cons_append, List.nil_append]
      rfl
    · obtain ⟨inner, middle, hinner, hinnerLines⟩ := below (depth + 1) (path.components :: shown)
      obtain ⟨more, shown', hmore, hlines⟩ := ih depth middle
      refine ⟨_, shown', .first hshown hinner hmore, ?_⟩
      rw [forestLines, treeLines, if_neg hshown]
      simp only [hinnerLines, hlines, List.map_cons, List.map_append, List.cons_append]
      rfl

namespace Listing

variable {shown middle shown' : Shown} {depth : Nat} {projects rest : List Project}
  {rows more behind : List Row}

/-- Rows of two lists of trees, one behind the other, are the rows of all these trees. -/
theorem append (h : Listing shown depth projects rows middle)
    (hrest : Listing middle depth rest more shown') :
    Listing shown depth (projects ++ rest) (rows ++ more) shown' := by
  induction h with
  | nil => exact hrest
  | again hshown _ ih => exact .again hshown (ih hrest)
  | first hnew hbelow _ _ ih =>
    rw [List.cons_append, List.cons_append, List.append_assoc]
    exact .first hnew hbelow (ih hrest)

/-! ## Depths -/

theorem depth_le (h : Listing shown depth projects rows shown') :
    ∀ row ∈ rows, depth ≤ row.depth := by
  induction h with
  | nil => exact fun _ hrow => absurd hrow List.not_mem_nil
  | again _ _ ih => exact List.forall_mem_cons.mpr ⟨le_rfl, ih⟩
  | first _ _ _ ihbelow ihrest =>
    refine List.forall_mem_cons.mpr ⟨le_rfl, fun row hrow => ?_⟩
    rcases List.mem_append.mp hrow with hrow | hrow
    · exact (Nat.le_succ _).trans (ihbelow row hrow)
    · exact ihrest row hrow

theorem head_depth_le (h : Listing shown depth projects rows shown')
    (hbehind : ∀ next ∈ behind.head?, next.depth ≤ depth) :
    ∀ next ∈ (rows ++ behind).head?, next.depth ≤ depth := by
  cases h with
  | nil => exact hbehind
  | again | first =>
    rintro _ ⟨⟩
    exact le_rfl

/-- The rows at the depth of the trees are those of their roots. -/
theorem map_project_filter (h : Listing shown depth projects rows shown') :
    (rows.filter fun row => row.depth = depth).map Row.project = projects := by
  induction h with
  | nil => rfl
  | again _ _ ih =>
    rw [List.filter_cons_of_pos (by simp), List.map_cons, ih]
  | @first _ _ _ depth _ _ below _ _ hbelow _ _ ihrest =>
    have hdeeper : (below.filter fun row => row.depth = depth) = [] := by
      refine List.filter_eq_nil_iff.mpr fun row hrow => ?_
      have hdepth := hbelow.depth_le row hrow
      simp only [decide_eq_true_eq]
      omega
    rw [List.filter_cons_of_pos (by simp), List.filter_append, hdeeper, List.nil_append,
      List.map_cons, ihrest]

/-! ## Places -/

/-- What is shown afterwards was shown before or has a row. -/
theorem mem_shown_iff (h : Listing shown depth projects rows shown') {place : List Component} :
    place ∈ shown' ↔ place ∈ shown ∨ place ∈ rows.map Row.place := by
  induction h with
  | nil => simp
  | @again _ _ _ p _ _ hshown _ ih =>
    rw [ih, List.map_cons, List.mem_cons, or_left_comm]
    refine (or_iff_right_of_imp ?_).symm
    rintro rfl
    exact .inl hshown
  | first _ _ _ ihbelow ihrest =>
    simp only [ihrest, ihbelow, List.map_cons, List.map_append, List.mem_cons, List.mem_append,
      Row.place_mk]
    tauto

theorem nodup_shown (h : Listing shown depth projects rows shown') (hnodup : shown.Nodup) :
    shown'.Nodup := by
  induction h with
  | nil => exact hnodup
  | again _ _ ih => exact ih hnodup
  | first hnew _ _ ihbelow ihrest => exact ihrest (ihbelow (List.nodup_cons.mpr ⟨hnew, hnodup⟩))

theorem project_mem_forestNodes (h : Listing shown depth projects rows shown') :
    ∀ row ∈ rows, row.project ∈ forestNodes projects := by
  induction h with
  | nil => exact fun _ hrow => absurd hrow List.not_mem_nil
  | again _ _ ih =>
    rw [forestNodes_cons]
    refine List.forall_mem_cons.mpr ⟨List.mem_cons_self .., fun row hrow => ?_⟩
    exact List.mem_cons_of_mem _ (List.mem_append_right _ (ih row hrow))
  | first _ _ _ ihbelow ihrest =>
    rw [forestNodes_cons]
    refine List.forall_mem_cons.mpr ⟨List.mem_cons_self .., fun row hrow => ?_⟩
    rcases List.mem_append.mp hrow with hrow | hrow
    · exact List.mem_cons_of_mem _ (List.mem_append_left _ (ihbelow row hrow))
    · exact List.mem_cons_of_mem _ (List.mem_append_right _ (ihrest row hrow))

/-! ## Every row fits -/

theorem fits_again {p : Project} (hshown : p.place ∈ shown)
    (hbehind : ∀ next ∈ behind.head?, next.depth ≤ depth) :
    Row.Fits ⟨depth, p, !p.dependencies.isEmpty⟩ shown behind where
  first hnew := absurd hshown hnew
  again _ := ⟨by simp, Row.under_eq_nil hbehind⟩

/-- A row whose project was not shown fits in front of the rows of its dependencies. -/
theorem fits_first {p : Project} {below : List Row} (hnew : p.place ∉ shown)
    (hbelow : Listing (p.place :: shown) (depth + 1) p.dependencies below middle)
    (hbehind : ∀ next ∈ behind.head?, next.depth ≤ depth) :
    Row.Fits ⟨depth, p, false⟩ shown (below ++ behind) where
  first _ := by
    have hunder : Row.under ⟨depth, p, false⟩ (below ++ behind) = below :=
      Row.under_append hbelow.depth_le hbehind
    refine ⟨rfl, ?_⟩
    rw [Row.children, hunder]
    exact hbelow.map_project_filter
  again hshown := absurd hshown hnew

/-- A row of two lists, one behind the other, is in the first or in the second. -/
theorem split_append {below more before after : List Row} {row : Row}
    (h : below ++ more = before ++ row :: after) :
    (∃ inner, below = before ++ row :: inner ∧ after = inner ++ more) ∨
      ∃ front, before = below ++ front ∧ more = front ++ row :: after := by
  rcases List.append_eq_append_iff.mp h with ⟨front, hbefore, hmore⟩ | ⟨inner, hbelow, hafter⟩
  · exact .inr ⟨front, hbefore, hmore⟩
  · rcases List.cons_eq_append_iff.mp hafter with ⟨rfl, hmore⟩ | ⟨inner, rfl, rfl⟩
    · exact .inr ⟨[], by simp [hbelow], hmore⟩
    · exact .inl ⟨inner, hbelow, rfl⟩

/-- **Every row fits where it stands**, whatever comes behind the trees at their depth.  The
induction is on the traversal; a row stands in front, below the first project, or behind it. -/
theorem fits (h : Listing shown depth projects rows shown') :
    ∀ {before after : List Row} {row : Row}, rows = before ++ row :: after →
      ∀ {behind : List Row}, (∀ next ∈ behind.head?, next.depth ≤ depth) →
        row.Fits (before.map Row.place ++ shown) (after ++ behind) := by
  induction h with
  | nil => exact fun hsplit => absurd hsplit (by simp)
  | again hshown hrest ih =>
    intro before after row hsplit behind hbehind
    rcases List.cons_eq_append_iff.mp hsplit with ⟨rfl, hrow⟩ | ⟨before, rfl, hmore⟩
    · cases hrow
      exact fits_again hshown (hrest.head_depth_le hbehind)
    -- The place of the first row was shown before, so the rows behind it are told nothing new.
    · refine (ih hmore hbehind).of_mem_iff fun place => ?_
      rw [List.map_cons, List.cons_append, List.mem_cons, Row.place_mk]
      refine (or_iff_right_of_imp ?_).symm
      rintro rfl
      exact List.mem_append_right _ hshown
  | @first shown _ _ depth p _ below _ hnew hbelow hrest ihbelow ihrest =>
    intro before after row hsplit behind hbehind
    have hmore := hrest.head_depth_le hbehind
    rcases List.cons_eq_append_iff.mp hsplit with ⟨rfl, hrow⟩ | ⟨before, rfl, hrows⟩
    · cases hrow
      rw [List.append_assoc]
      exact fits_first hnew hbelow hmore
    · rcases split_append hrows with ⟨inner, hinner, rfl⟩ | ⟨front, rfl, hfront⟩
      · rw [List.append_assoc]
        -- Below the first project what comes behind is less deep than the rows themselves.
        have hdeeper := fun next hnext => (hmore next hnext).trans (Nat.le_succ depth)
        refine (ihbelow hinner hdeeper).of_mem_iff fun place => ?_
        simp only [List.map_cons, List.mem_append, List.mem_cons, Row.place_mk]
        tauto
      · refine (ihrest hfront hbehind).of_mem_iff fun place => ?_
        simp only [List.map_cons, List.map_append, List.mem_append, List.mem_cons, Row.place_mk,
          hbelow.mem_shown_iff]
        tauto

/-- Where nothing was shown before, a row fits between the rows above it and those behind it. -/
theorem fits_where (h : Listing [] depth projects rows shown') {before after : List Row} {row : Row}
    (hsplit : rows = before ++ row :: after) : row.Fits (before.map Row.place) after := by
  have hend : ∀ next ∈ ([] : List Row).head?, next.depth ≤ depth := by simp
  have hfits := h.fits hsplit hend
  rwa [List.append_nil, List.append_nil] at hfits

/-! ## How many rows there are -/

/-- **Every row but the roots is a child of a place that is newly shown.**  A place may be weighed
as the number of its dependencies; then the rows make up for what is shown before and after. -/
theorem length_add_sum (weight : List Component → Nat)
    (h : Listing shown depth projects rows shown')
    (hweight : ∀ node ∈ forestNodes projects, weight node.place = node.dependencies.length) :
    rows.length + (shown.map weight).sum = projects.length + (shown'.map weight).sum := by
  induction h with
  | nil => rfl
  | again _ _ ih =>
    rw [forestNodes_cons] at hweight
    have hmore := ih fun node hnode =>
      hweight node (List.mem_cons_of_mem _ (List.mem_append_right _ hnode))
    rw [List.length_cons, List.length_cons]
    omega
  | @first _ _ _ _ p _ _ _ _ _ _ ihbelow ihrest =>
    rw [forestNodes_cons] at hweight
    have hroot : weight p.place = p.dependencies.length := hweight p (List.mem_cons_self ..)
    have hinner := ihbelow fun node hnode =>
      hweight node (List.mem_cons_of_mem _ (List.mem_append_left _ hnode))
    have hmore := ihrest fun node hnode =>
      hweight node (List.mem_cons_of_mem _ (List.mem_append_right _ hnode))
    rw [List.map_cons, List.sum_cons] at hinner
    rw [List.length_cons, List.length_append, List.length_cons]
    omega

end Listing

/-! ## No node is hidden -/

section Whole

variable {p : Project} {rows : List Row} {shown : Shown}

/-- The first row of a place has the dependencies of every node of that place below it. -/
theorem Listing.exists_first (h : Listing [] 2 (p.dependencies ++ p.testDependencies) rows shown)
    (hshares : p.SharesDependencies) {node : Project} (hnode : node ∈ p.nodes)
    (hrow : node.place ∈ rows.map Row.place) :
    ∃ before row behind, rows = before ++ row :: behind ∧ row.place = node.place ∧
      node.place ∉ before.map Row.place ∧
      sameAll (row.children behind) node.dependencies = true := by
  obtain ⟨places, others, hplaces, hfirst⟩ := List.eq_append_cons_of_mem hrow
  obtain ⟨before, tail, rfl, rfl, htail⟩ := List.map_eq_append_iff.mp hplaces
  obtain ⟨row, behind, rfl, hplace, rfl⟩ := List.map_eq_cons_iff.mp htail
  obtain ⟨-, hchildren⟩ := (h.fits_where rfl).first (hplace ▸ hfirst)
  refine ⟨before, row, behind, rfl, hplace, hfirst, ?_⟩
  rw [hchildren]
  have hlisted : row.project ∈ p.nodes :=
    h.project_mem_forestNodes row (List.mem_append_right _ (List.mem_cons_self ..))
  exact hshares _ hlisted _ hnode hplace

/-- **No node is without a row of its place.**  The induction goes down from the roots: the first
row of a place that has a row lists places for all of its dependencies.  This is where nodes of one
place must have the same dependencies: what is below a node may be shown below another one. -/
theorem Listing.place_mem_of_mem_nodes
    (h : Listing [] 2 (p.dependencies ++ p.testDependencies) rows shown)
    (hshares : p.SharesDependencies) (projects : List Project) :
    forestNodes projects ⊆ p.nodes → projects.map place ⊆ rows.map Row.place →
      (forestNodes projects).map place ⊆ rows.map Row.place := by
  induction projects using forestInduction with
  | nil => exact fun _ h => h
  | cons q rest below ih =>
    intro hnodes hrows
    rw [forestNodes_cons] at hnodes ⊢
    rw [List.map_cons, List.cons_subset] at hrows
    have hbelow : (forestNodes q.dependencies).map place ⊆ rows.map Row.place := by
      obtain ⟨before, row, behind, rfl, -, -, hsame⟩ :=
        h.exists_first hshares (hnodes (List.mem_cons_self ..)) hrows.1
      refine below (fun node hnode => hnodes ?_) ?_
      · exact List.mem_cons_of_mem _ (List.mem_append_left _ hnode)
      · rw [← place_eq_of_sameAll hsame, List.map_append, List.map_cons]
        intro place hplace
        have hbehind := row.map_place_children_subset behind hplace
        exact List.mem_append_right _ (List.mem_cons_of_mem _ hbehind)
    have hrest : (forestNodes rest).map place ⊆ rows.map Row.place :=
      ih (fun node hnode => hnodes (List.mem_cons_of_mem _ (List.mem_append_right _ hnode))) hrows.2
    rw [List.map_cons, List.map_append]
    exact List.cons_subset.mpr ⟨hrows.1, List.append_subset.mpr ⟨hbelow, hrest⟩⟩

end Whole

/-! ## Summaries -/

/-- The lines of a summary in front of the dependencies. -/
def headLines (p : Project) : List String :=
  [p.headline, "  manifest: " ++ p.manifestPath.text, "  elm version: " ++ p.elmVersionText,
    "  source directories:"] ++
  (p.sourceDirectories.map fun directory => "    " ++ directory.text) ++
  ["  test directory: " ++ p.testDirectory.text] ++
  (if p.exposedModules = [] then []
    else ["  exposed modules: " ++ ", ".intercalate p.exposedModules])

/-- The lines of a section with certain rows. -/
def sectionText (title : String) (rows : List Row) : List String :=
  match rows with
  | [] => ["  " ++ title ++ ": none"]
  | rows => ("  " ++ title ++ ":") :: rows.map Row.line

theorem sectionLines_eq {title : String} {projects : List Project} {shown shown' : Shown}
    {rows : List Row} (h : Listing shown 2 projects rows shown')
    (hlines : forestLines 2 projects shown = (rows.map Row.line, shown')) :
    sectionLines title projects shown = (sectionText title rows, shown') := by
  cases h with
  | nil => rfl
  | again | first =>
    simp only [sectionLines, hlines]
    rfl

/-- The rows of both sections show every package below a project, and none twice.  The rows of the
second section go on from what the first one has shown. -/
structure ListsOnce (p : Project) (dependencies tests : List Row) : Prop where
  /-- The outermost rows of the first section are the runtime dependencies, in order. -/
  outermost_dependencies : outermost dependencies = p.dependencies
  /-- The outermost rows of the second section are the test dependencies, in order. -/
  outermost_tests : outermost tests = p.testDependencies
  /-- Rows stand for nodes. -/
  mem_nodes : ∀ row ∈ dependencies ++ tests, row.project ∈ p.nodes
  /-- The first row of a place has its dependencies below it, and no other row has anything. -/
  fits : ∀ before row behind, dependencies ++ tests = before ++ row :: behind →
    row.Fits (before.map Row.place) behind
  /-- The place of every node has a first row, below which are the dependencies of the node. -/
  complete : ∀ node ∈ p.nodes, ∃ before row behind,
    dependencies ++ tests = before ++ row :: behind ∧ row.place = node.place ∧
      node.place ∉ before.map Row.place ∧
      sameAll (row.children behind) node.dependencies = true
  /-- There is a row for each dependency of the project, and for each dependency of each place. -/
  length_eq : (dependencies ++ tests).length =
    p.dependencies.length + p.testDependencies.length +
      ∑ place ∈ (p.nodes.map place).toFinset, (p.childrenAt place).length

section Sections

variable {p : Project} {dependencies tests : List Row} {middle shown : Shown}

/-- The places that are shown in the end are those of the nodes. -/
theorem Listing.toFinset_shown {rows : List Row}
    (h : Listing [] 2 (p.dependencies ++ p.testDependencies) rows shown)
    (hcomplete : p.nodes.map place ⊆ rows.map Row.place) :
    shown.toFinset = (p.nodes.map place).toFinset := by
  ext place
  rw [List.mem_toFinset, List.mem_toFinset, h.mem_shown_iff, or_iff_right List.not_mem_nil]
  refine ⟨fun hrow => ?_, fun hnode => hcomplete hnode⟩
  obtain ⟨row, hmem, rfl⟩ := List.mem_map.mp hrow
  exact List.mem_map_of_mem (h.project_mem_forestNodes row hmem)

/-- Rows of the runtime dependencies and then of the test dependencies show every package once. -/
theorem listsOnce_of_listing (hdependencies : Listing [] 2 p.dependencies dependencies middle)
    (htests : Listing middle 2 p.testDependencies tests shown) (hshares : p.SharesDependencies) :
    p.ListsOnce dependencies tests := by
  have h : Listing [] 2 (p.dependencies ++ p.testDependencies) (dependencies ++ tests) shown :=
    hdependencies.append htests
  have hroots : (p.dependencies ++ p.testDependencies).map place ⊆
      (dependencies ++ tests).map Row.place := by
    rw [← h.map_project_filter, List.map_map]
    exact List.map_subset _ fun row hrow => List.mem_of_mem_filter hrow
  have hcomplete : p.nodes.map place ⊆ (dependencies ++ tests).map Row.place :=
    h.place_mem_of_mem_nodes hshares _ (List.Subset.refl _) hroots
  refine ⟨hdependencies.map_project_filter, htests.map_project_filter, h.project_mem_forestNodes,
    ?fits, ?complete, ?length⟩
  case fits =>
    exact fun _ _ _ hsplit => h.fits_where hsplit
  case complete =>
    exact fun node hnode => h.exists_first hshares hnode (hcomplete (List.mem_map_of_mem hnode))
  case length =>
    have hcount := Listing.length_add_sum (fun place => (p.childrenAt place).length) h
      fun node hnode => (length_eq_of_sameAll (hshares.sameAll_childrenAt hnode)).symm
    rw [← h.toFinset_shown hcomplete, List.sum_toFinset _ (h.nodup_shown List.nodup_nil)]
    simpa using hcount

end Sections

/-- The repository with both packages, where a file is read by its place. -/
def placedSources : Sources where
  repository := midSources.repository
  read path := if path.SamePlace ⟨"mid/elm.json"⟩ then .ok midText.toUTF8 else .ok leafText.toUTF8

/-- An application that needs the package with a dependency, and needs it for its tests, too. -/
def sharedRoot : Application :=
  { aliasRoot with
    dependencies := ⟨.ofList [("a/mid", leafVersion)], .empty⟩
    testDependencies := ⟨.ofList [("a/mid", leafVersion)], .empty⟩ }

/-- The application, resolved with its test dependencies. -/
def sharedProject : Project :=
  ⟨⟨"elm.json"⟩, .application sharedRoot, [midProject], [midProject]⟩

/-- The questions of the run that resolves the application. -/
def sharedCalls : List Query :=
  [.find "a/mid" leafVersion, .versions "a/leaf", .find "a/leaf" leafVersion]

/-- What is remembered when the runtime dependencies of the application have been loaded. -/
def sharedSession : Session :=
  ⟨[], [(("a/mid", leafVersion), midProject), (("a/leaf", leafVersion), leafProject)], sharedCalls,
    []⟩

theorem readsByPlace_placedSources : placedSources.ReadsByPlace := by
  intro p q bytes bytes' hplace hp hq
  have hiff : p.SamePlace ⟨"mid/elm.json"⟩ ↔ q.SamePlace ⟨"mid/elm.json"⟩ := by
    rw [Path.SamePlace, Path.SamePlace, show p.components = q.components from hplace]
  have hread : placedSources.read p = placedSources.read q := by
    simp only [placedSources, hiff]
  exact Except.ok.inj (hp.symm.trans (hread.trans hq))

/-- The run that resolves the application: the package is loaded once. -/
theorem resolve?_sharedRoot :
    resolve? placedSources false ⟨"elm.json"⟩ (.application sharedRoot) =
      some ⟨.ok sharedProject, sharedCalls, []⟩ := by
  have hreadMid : placedSources.readPackage "a/mid" ⟨"mid/elm.json"⟩ = .ok midPackage :=
    (Sources.readPackage_congr rfl _).trans readPackage_mid
  have hreadLeaf : placedSources.readPackage "a/leaf" ⟨"leaf/elm.json"⟩ = .ok leafPackage :=
    (Sources.readPackage_congr rfl _).trans readPackage_leaf
  have hselect : placedSources.select "a/leaf" (.within leafRange) = .ok leafVersion := by
    decide +kernel
  have hfetchMid : placedSources.fetch "a/mid" leafVersion (.pinned leafVersion) =
      .ok (⟨"mid/elm.json"⟩, midPackage) := Sources.fetch_eq_ok_iff.mpr ⟨rfl, hreadMid⟩
  have hfetchLeaf : placedSources.fetch "a/leaf" leafVersion (.within leafRange) =
      .ok (⟨"leaf/elm.json"⟩, leafPackage) := Sources.fetch_eq_ok_iff.mpr ⟨rfl, hreadLeaf⟩
  have hleaf : placedSources.load "a/leaf" leafVersion (.within leafRange)
      ⟨[("a/mid", leafVersion)], [], [.find "a/mid" leafVersion, .versions "a/leaf"], []⟩ =
      some (.ok leafProject, ⟨[("a/mid", leafVersion)], [(("a/leaf", leafVersion), leafProject)],
        sharedCalls, []⟩) :=
    placedSources.load_of_no_demands ⟨List.not_mem_nil, by decide⟩ hfetchLeaf rfl
  have hnew : Session.Lacks .empty ("a/mid", leafVersion) :=
    ⟨List.not_mem_nil, List.not_mem_nil⟩
  have hone : rangeDemands midPackage.dependencies = [("a/leaf", .within leafRange)] := rfl
  have hmid : placedSources.load "a/mid" leafVersion (.pinned leafVersion) .empty =
      some (.ok midProject, sharedSession) := by
    rw [placedSources.load_of_one_demand hnew hfetchMid hone hselect hleaf]
    rfl
  have hkept : placedSources.load "a/mid" leafVersion (.pinned leafVersion) sharedSession =
      some (.ok midProject, sharedSession) := placedSources.load_of_kept? _ rfl
  have hruntime : placedSources.loadAll (Manifest.application sharedRoot).demands .empty =
      some (.ok [midProject], sharedSession) := placedSources.loadAll_singleton rfl hmid
  have htests : placedSources.loadAll (Manifest.application sharedRoot).testDemands sharedSession =
      some (.ok [midProject], sharedSession) := placedSources.loadAll_singleton rfl hkept
  rw [resolve?_of_loadAll_ok false ⟨"elm.json"⟩ hruntime htests]
  rfl

example : sharedProject.summaryLines.drop 6 = ["  dependencies:", "    a/mid 1.0.0",
    "      a/leaf 1.0.0", "  test dependencies:", "    a/mid 1.0.0 (*)"] := by
  decide +kernel

end ElmManifest.Project
