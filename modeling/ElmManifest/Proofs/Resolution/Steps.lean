import ElmManifest.Resolution
import Mathlib.Data.Nat.Init
import Mathlib.Data.List.Nodup

/-!
# Steps of a run

What one call of a run comes to, in terms of the calls that it makes.  `Sources.load` and
`Sources.loadAll` are eventual values over a depth, and their equations say nothing of the depth any
more.  The recursion follows manifests that are read on the way, so nothing it is called with gets
smaller; a proof about calls that end is an induction on the depth within which they end, done once
and for all in `Sources.RunInvariant`, with one case for each way in which a call can end.

## Main Definitions

* `Session.underWay`, `doneKeys` — the keys of the packages under way and of those done.
* `Session.Lacks` — a package that is neither done nor under way.
* `Sources.RunInvariant` — properties of calls that follow from those of the calls they make.

## Main Statements

* `Sources.load_of_fetch_ok`, `Sources.loadAll_cons` and the equations beside them — what a call
  comes to.
* `Sources.load_eq_some_iff` — a call ends exactly if it ends within some depth.
* `Sources.RunInvariant.load` — an invariant holds of every call that ends.
-/

namespace ElmManifest

/-! ## Keys -/

/-- The keys of the packages that are done. -/
def doneKeys (done : List ((String × Version) × Project)) : List (String × Release) :=
  done.map fun entry => packageKey entry.1

/-- The keys of the packages under way. -/
def Session.underWay (s : Session) : List (String × Release) :=
  s.inProgress.map packageKey

@[simp] theorem doneKeys_cons (entry : (String × Version) × Project)
    (done : List ((String × Version) × Project)) :
    doneKeys (entry :: done) = packageKey entry.1 :: doneKeys done := rfl

@[simp] theorem doneKeys_append (done earlier : List ((String × Version) × Project)) :
    doneKeys (done ++ earlier) = doneKeys done ++ doneKeys earlier :=
  List.map_append

theorem kept?_cons (entry : (String × Version) × Project)
    (done : List ((String × Version) × Project)) (request : String × Version) :
    kept? (entry :: done) request =
      if packageKey entry.1 = packageKey request then some entry.2 else kept? done request := by
  by_cases h : packageKey entry.1 = packageKey request <;>
    simp [kept?, samePackage, h]

/-- Nothing is kept exactly for the packages that are not done. -/
theorem kept?_eq_none_iff {done : List ((String × Version) × Project)}
    {request : String × Version} :
    kept? done request = none ↔ packageKey request ∉ doneKeys done := by
  induction done with
  | nil => simp [kept?, doneKeys]
  | cons entry done ih =>
      rw [kept?_cons, doneKeys_cons, List.mem_cons]
      by_cases h : packageKey entry.1 = packageKey request
      · simp [h]
      · simp [h, ih, Ne.symm h]

theorem exists_mem_of_kept? {done : List ((String × Version) × Project)}
    {request : String × Version} {project : Project}
    (h : kept? done request = some project) :
    ∃ entry ∈ done, packageKey entry.1 = packageKey request ∧ entry.2 = project := by
  obtain ⟨entry, hfind, rfl⟩ := Option.map_eq_some_iff.mp h
  exact ⟨entry, List.mem_of_find?_eq_some hfind, by simpa using List.find?_some hfind, rfl⟩

/-- When every key is there at most once, newer entries hide no older ones. -/
theorem kept?_append {newer done : List ((String × Version) × Project)}
    {request : String × Version} {project : Project}
    (hnodup : (doneKeys (newer ++ done)).Nodup) (h : kept? done request = some project) :
    kept? (newer ++ done) request = some project := by
  have hmem : packageKey request ∈ doneKeys done := by
    by_contra hnot
    rw [kept?_eq_none_iff.mpr hnot] at h
    cases h
  induction newer with
  | nil => exact h
  | cons entry newer ih =>
      rw [List.cons_append, doneKeys_cons, List.nodup_cons] at hnodup
      obtain ⟨hentry, hrest⟩ := hnodup
      have hne : packageKey entry.1 ≠ packageKey request := by
        intro he
        exact hentry (by rw [he, doneKeys_append]; exact List.mem_append_right _ hmem)
      rw [List.cons_append, kept?_cons, if_neg hne]
      exact ih hrest

/-- A chain is closed by exactly the packages in it. -/
theorem closedChain?_eq_none_iff {chain : List (String × Version)} {request : String × Version} :
    closedChain? chain request = none ↔ packageKey request ∉ chain.map packageKey := by
  induction chain with
  | nil => simp [closedChain?]
  | cons link rest ih =>
      by_cases h : packageKey link = packageKey request
      · simp [closedChain?, h]
      · simp [closedChain?, h, ih, Ne.symm h]

/-- A closed chain starts where the package was first, and ends with the package. -/
theorem exists_of_closedChain? {chain loop : List (String × Version)}
    {request : String × Version} (h : closedChain? chain request = some loop) :
    ∃ before first rest, chain = before ++ first :: rest ∧
      packageKey first = packageKey request ∧ loop = first :: (rest ++ [request]) := by
  induction chain with
  | nil => cases h
  | cons link rest ih =>
      by_cases hlink : packageKey link = packageKey request
      · simp only [closedChain?, samePackage_iff, hlink, if_true, Option.some.injEq] at h
        exact ⟨[], link, rest, rfl, hlink, h.symm⟩
      · simp only [closedChain?, samePackage_iff, hlink, if_false] at h
        obtain ⟨before, first, tail, rfl, hfirst, hloop⟩ := ih h
        exact ⟨link :: before, first, tail, rfl, hfirst, hloop⟩

/-- Asking which versions there are is no look-up. -/
@[simp] theorem Session.find_mem_calls_askFor {s : Session} {demand : Demand} {name : String}
    {version : Version} :
    .find name version ∈ (s.askFor demand).calls ↔ .find name version ∈ s.calls := by
  obtain ⟨other, requirement⟩ := demand
  cases requirement <;> simp [askFor]

/-! ## Induction on a run -/

/-- A package that is neither done nor under way.  Only such a package is looked up. -/
structure Session.Lacks (s : Session) (request : String × Version) : Prop where
  /-- It is not done. -/
  notDone : packageKey request ∉ doneKeys s.resolved
  /-- It is not under way. -/
  notUnderWay : packageKey request ∉ s.underWay

/-- A package is done, or it closes a cycle, or it is new. -/
theorem Session.kept_or_closes_or_lacks (s : Session) (request : String × Version) :
    (∃ project, kept? s.resolved request = some project) ∨
    (kept? s.resolved request = none ∧
      ∃ chain, closedChain? s.inProgress request = some chain) ∨
    s.Lacks request := by
  cases hdone : kept? s.resolved request with
  | some project => exact .inl ⟨project, rfl⟩
  | none =>
      cases hchain : closedChain? s.inProgress request with
      | some chain => exact .inr (.inl ⟨rfl, chain, rfl⟩)
      | none =>
          exact .inr (.inr ⟨kept?_eq_none_iff.mp hdone, closedChain?_eq_none_iff.mp hchain⟩)

/-- What comes of demands when the first has been loaded and `loadRest` loads the others: nothing
more after an error, and one more project otherwise.  It is one turn of the loop in
`load_constrained_all`, with the rest of the loop as a parameter. -/
def withRest (loadRest : Session → Option (Except LoadError (List Project) × Session)) :
    Except LoadError Project × Session → Option (Except LoadError (List Project) × Session)
  | (.error error, t) => some (.error error, t)
  | (.ok project, t) => (loadRest t).map fun r => (r.1.map (project :: ·), r.2)

theorem withRest_mono
    {loadRest loadRest' : Session → Option (Except LoadError (List Project) × Session)}
    (hrest : ∀ {t r}, loadRest t = some r → loadRest' t = some r)
    {first : Except LoadError Project × Session} {r : Except LoadError (List Project) × Session}
    (h : withRest loadRest first = some r) : withRest loadRest' first = some r := by
  obtain ⟨outcome, t⟩ := first
  cases outcome with
  | error error => exact h
  | ok project =>
      obtain ⟨others, hothers, rfl⟩ := Option.map_eq_some_iff.mp h
      exact Option.map_eq_some_iff.mpr ⟨others, hrest hothers, rfl⟩

section Eventual

variable {loadRest : ℕ → Session → Option (Except LoadError (List Project) × Session)}

theorem settles_withRest (h : ∀ t, Settles fun depth => loadRest depth t)
    (first : Except LoadError Project × Session) :
    Settles fun depth => withRest (loadRest depth) first :=
  ⟨fun depth _ => withRest_mono fun {t _} => (h t).keeps depth _⟩

theorem eventual_withRest (h : ∀ t, Settles fun depth => loadRest depth t)
    (first : Except LoadError Project × Session) :
    (eventual fun depth => withRest (loadRest depth) first) =
      withRest (fun t => eventual fun depth => loadRest depth t) first := by
  obtain ⟨outcome, t⟩ := first
  cases outcome with
  | error error => exact Settles.eventual_const _
  | ok project => exact (h t).eventual_map _

end Eventual

namespace Sources

variable (sources : Sources)

section Bounded

variable {name : String} {version : Version} {requirement : Requirement} {s : Session}

theorem loadWithin_of_kept? (depth : ℕ) {project : Project}
    (h : kept? s.resolved (name, version) = some project) :
    sources.loadWithin depth name version requirement s = some (.ok project, s) := by
  rw [loadWithin, h]

theorem loadWithin_of_closedChain? (depth : ℕ) {chain : List (String × Version)}
    (hdone : kept? s.resolved (name, version) = none)
    (h : closedChain? s.inProgress (name, version) = some chain) :
    sources.loadWithin depth name version requirement s =
      some (.error (.dependencyCycle chain), s) := by
  rw [loadWithin, hdone, h]

theorem loadWithin_of_fetch_error (depth : ℕ) {error : LoadError} (hnew : s.Lacks (name, version))
    (h : sources.fetch name version requirement = .error error) :
    sources.loadWithin depth name version requirement s =
      some (.error error, s.ask (.find name version)) := by
  rw [loadWithin, kept?_eq_none_iff.mpr hnew.notDone,
    closedChain?_eq_none_iff.mpr hnew.notUnderWay, h]

/-- A package that has been looked up cannot be put under way when nothing may be. -/
theorem loadWithin_zero_of_fetch_ok {path : Path} {declared : Package}
    (hnew : s.Lacks (name, version))
    (h : sources.fetch name version requirement = .ok (path, declared)) :
    sources.loadWithin 0 name version requirement s = none := by
  rw [loadWithin, kept?_eq_none_iff.mpr hnew.notDone,
    closedChain?_eq_none_iff.mpr hnew.notUnderWay, h]

theorem loadWithin_succ_of_fetch_ok (depth : ℕ) {path : Path} {declared : Package}
    (hnew : s.Lacks (name, version))
    (h : sources.fetch name version requirement = .ok (path, declared)) :
    sources.loadWithin (depth + 1) name version requirement s =
      (sources.loadEach (sources.loadWithin depth) (rangeDemands declared.dependencies)
        (s.start (name, version) path declared)).map fun r =>
          r.2.conclude (name, version) path declared r.1 := by
  rw [loadWithin, kept?_eq_none_iff.mpr hnew.notDone,
    closedChain?_eq_none_iff.mpr hnew.notUnderWay, h]
  dsimp only
  cases sources.loadEach (sources.loadWithin depth) (rangeDemands declared.dependencies)
    (s.start (name, version) path declared) <;> rfl

/-- A demand that no version meets fails, however single packages are loaded. -/
theorem loadEach_of_select_error
    (load : String → Version → Requirement → Session →
      Option (Except LoadError Project × Session))
    (rest : List Demand) {error : LoadError} (h : sources.select name requirement = .error error) :
    sources.loadEach load ((name, requirement) :: rest) s =
      some (.error error, s.askFor (name, requirement)) := by
  rw [loadEach, h]

/-- The first demand, and then the others unless it fails. -/
theorem loadEach_cons
    (load : String → Version → Requirement → Session →
      Option (Except LoadError Project × Session))
    (rest : List Demand) (h : sources.select name requirement = .ok version) :
    sources.loadEach load ((name, requirement) :: rest) s =
      (load name version requirement (s.askFor (name, requirement))).bind
        (withRest (sources.loadEach load rest)) := by
  rw [loadEach, h]
  dsimp only
  refine Option.bind_congr fun r _ => ?_
  obtain ⟨outcome, t⟩ := r
  cases outcome with
  | error error => rfl
  | ok project => cases hrest : sources.loadEach load rest t <;> simp [withRest, hrest]

/-- What comes of the demands when single packages are loaded in one way comes of them in every way
that single packages come to the same. -/
theorem loadEach_mono
    {load load' : String → Version → Requirement → Session →
      Option (Except LoadError Project × Session)}
    (hload : ∀ name version requirement s r, load name version requirement s = some r →
      load' name version requirement s = some r)
    {demands : List Demand} {r : Except LoadError (List Project) × Session}
    (h : sources.loadEach load demands s = some r) : sources.loadEach load' demands s = some r := by
  induction demands generalizing s r with
  | nil => exact h
  | cons demand rest ih =>
      obtain ⟨name, requirement⟩ := demand
      cases hselect : sources.select name requirement with
      | error error => rwa [loadEach_of_select_error _ _ _ hselect] at h ⊢
      | ok version =>
          rw [loadEach_cons _ _ _ hselect] at h ⊢
          obtain ⟨first, hfirst, h⟩ := Option.bind_eq_some_iff.mp h
          rw [hload _ _ _ _ _ hfirst, Option.bind_some]
          exact withRest_mono ih h

/-- What a package comes to within a depth, it comes to within the next one. -/
theorem settles_loadWithin (name : String) (version : Version) (requirement : Requirement)
    (s : Session) : Settles fun depth => sources.loadWithin depth name version requirement s := by
  refine ⟨fun depth => ?_⟩
  induction depth using Nat.strong_induction_on generalizing name version requirement s with
  | _ depth ih =>
      intro r h
      rcases s.kept_or_closes_or_lacks (name, version) with ⟨project, hdone⟩ |
        ⟨hdone, chain, hchain⟩ | hnew
      · rwa [loadWithin_of_kept? _ _ hdone] at h ⊢
      · rwa [loadWithin_of_closedChain? _ _ hdone hchain] at h ⊢
      · rcases hfetch : sources.fetch name version requirement with error | ⟨path, declared⟩
        · rwa [loadWithin_of_fetch_error _ _ hnew hfetch] at h ⊢
        · cases depth with
          | zero =>
              rw [loadWithin_zero_of_fetch_ok _ hnew hfetch] at h
              cases h
          | succ depth =>
              rw [loadWithin_succ_of_fetch_ok _ _ hnew hfetch] at h ⊢
              obtain ⟨inner, hinside, rfl⟩ := Option.map_eq_some_iff.mp h
              rw [sources.loadEach_mono (ih depth (Nat.lt_succ_self depth)) hinside]
              rfl

/-- What several packages come to within a depth, they come to within the next one. -/
theorem settles_loadEach (demands : List Demand) (s : Session) :
    Settles fun depth => sources.loadEach (sources.loadWithin depth) demands s :=
  ⟨fun depth _ => sources.loadEach_mono fun name version requirement s =>
    (sources.settles_loadWithin name version requirement s).keeps depth⟩

end Bounded

/-- What comes of a package is what comes of it within some depth. -/
theorem load_eq_some_iff {name : String} {version : Version} {requirement : Requirement}
    {s : Session} {r : Except LoadError Project × Session} :
    sources.load name version requirement s = some r ↔
      ∃ depth, sources.loadWithin depth name version requirement s = some r :=
  (sources.settles_loadWithin name version requirement s).eventual_eq_some_iff

theorem loadAll_eq_some_iff {demands : List Demand} {s : Session}
    {r : Except LoadError (List Project) × Session} :
    sources.loadAll demands s = some r ↔
      ∃ depth, sources.loadEach (sources.loadWithin depth) demands s = some r :=
  (sources.settles_loadEach demands s).eventual_eq_some_iff

/-- A package that is done is not loaded again. -/
theorem load_of_kept? {name : String} {version : Version} (requirement : Requirement)
    {s : Session} {project : Project} (h : kept? s.resolved (name, version) = some project) :
    sources.load name version requirement s = some (.ok project, s) := by
  simp only [load, sources.loadWithin_of_kept? _ h, Settles.eventual_const]

/-- A package that is needed while it is under way closes a cycle. -/
theorem load_of_closedChain? {name : String} {version : Version} (requirement : Requirement)
    {s : Session} {chain : List (String × Version)}
    (hdone : kept? s.resolved (name, version) = none)
    (h : closedChain? s.inProgress (name, version) = some chain) :
    sources.load name version requirement s = some (.error (.dependencyCycle chain), s) := by
  simp only [load, sources.loadWithin_of_closedChain? _ hdone h, Settles.eventual_const]

/-- A new package that cannot be fetched fails. -/
theorem load_of_fetch_error {name : String} {version : Version} {requirement : Requirement}
    {s : Session} {error : LoadError} (hnew : s.Lacks (name, version))
    (h : sources.fetch name version requirement = .error error) :
    sources.load name version requirement s =
      some (.error error, s.ask (.find name version)) := by
  simp only [load, sources.loadWithin_of_fetch_error _ hnew h, Settles.eventual_const]

/-- A new package that is fetched is loaded by loading what it depends on. -/
theorem load_of_fetch_ok {name : String} {version : Version} {requirement : Requirement}
    {s : Session} {path : Path} {declared : Package} (hnew : s.Lacks (name, version))
    (h : sources.fetch name version requirement = .ok (path, declared)) :
    sources.load name version requirement s =
      (sources.loadAll (rangeDemands declared.dependencies)
        (s.start (name, version) path declared)).map fun r =>
          r.2.conclude (name, version) path declared r.1 := by
  -- Depth 0 comes to nothing here, so the depths may be counted from 1.
  rw [load, ← (sources.settles_loadWithin name version requirement s).eventual_succ]
  simp only [sources.loadWithin_succ_of_fetch_ok _ hnew h]
  exact (sources.settles_loadEach _ _).eventual_map _

theorem loadAll_nil (s : Session) : sources.loadAll [] s = some (.ok [], s) := by
  simp only [loadAll, loadEach, Settles.eventual_const]

theorem loadAll_of_select_error {name : String} {requirement : Requirement} (rest : List Demand)
    (s : Session) {error : LoadError} (h : sources.select name requirement = .error error) :
    sources.loadAll ((name, requirement) :: rest) s =
      some (.error error, s.askFor (name, requirement)) := by
  simp only [loadAll, loadEach, h, Settles.eventual_const]

/-- The first demand, and then the others unless it fails. -/
theorem loadAll_cons {name : String} {requirement : Requirement} (rest : List Demand)
    (s : Session) {version : Version} (h : sources.select name requirement = .ok version) :
    sources.loadAll ((name, requirement) :: rest) s =
      (sources.load name version requirement (s.askFor (name, requirement))).bind
        (withRest (sources.loadAll rest)) := by
  simp only [loadAll, sources.loadEach_cons _ _ h]
  -- The first demand and the others have depths of their own; the larger one is enough for both.
  have hrest := sources.settles_loadEach rest
  rw [(sources.settles_loadWithin ..).eventual_bind (settles_withRest hrest)]
  simp only [eventual_withRest hrest]
  rfl

/-- A first demand that fails ends the rest. -/
theorem loadAll_of_load_error {name : String} {requirement : Requirement} (rest : List Demand)
    {s t : Session} {version : Version} {error : LoadError}
    (h : sources.select name requirement = .ok version)
    (hload : sources.load name version requirement (s.askFor (name, requirement)) =
      some (.error error, t)) :
    sources.loadAll ((name, requirement) :: rest) s = some (.error error, t) := by
  rw [loadAll_cons _ _ _ h, hload]
  rfl

/-- After a first demand that is met come the others. -/
theorem loadAll_of_load_ok {name : String} {requirement : Requirement} (rest : List Demand)
    {s t : Session} {version : Version} {project : Project}
    (h : sources.select name requirement = .ok version)
    (hload : sources.load name version requirement (s.askFor (name, requirement)) =
      some (.ok project, t)) :
    sources.loadAll ((name, requirement) :: rest) s =
      (sources.loadAll rest t).map fun r => (r.1.map (project :: ·), r.2) := by
  rw [loadAll_cons _ _ _ h, hload]
  rfl

/-- A package without dependencies is done as soon as it has been fetched. -/
theorem load_of_no_demands {name : String} {version : Version} {requirement : Requirement}
    {s : Session} {path : Path} {declared : Package} (hnew : s.Lacks (name, version))
    (h : sources.fetch name version requirement = .ok (path, declared))
    (hnone : rangeDemands declared.dependencies = []) :
    sources.load name version requirement s =
      some ((s.start (name, version) path declared).conclude (name, version) path declared
        (.ok [])) := by
  rw [load_of_fetch_ok sources hnew h, hnone, loadAll_nil]
  rfl

/-- A demand alone comes to what is loaded for it. -/
theorem loadAll_singleton {name : String} {requirement : Requirement} {s t : Session}
    {version : Version} {project : Project} (h : sources.select name requirement = .ok version)
    (hload : sources.load name version requirement (s.askFor (name, requirement)) =
      some (.ok project, t)) :
    sources.loadAll [(name, requirement)] s = some (.ok [project], t) := by
  rw [loadAll_of_load_ok sources [] h hload, loadAll_nil]
  rfl

/-- A package that depends on one other package is loaded after it. -/
theorem load_of_one_demand {name inner : String} {version version' : Version}
    {requirement requirement' : Requirement} {s t : Session} {path : Path} {declared : Package}
    {project : Project} (hnew : s.Lacks (name, version))
    (h : sources.fetch name version requirement = .ok (path, declared))
    (hone : rangeDemands declared.dependencies = [(inner, requirement')])
    (hselect : sources.select inner requirement' = .ok version')
    (hload : sources.load inner version' requirement'
      ((s.start (name, version) path declared).askFor (inner, requirement')) =
        some (.ok project, t)) :
    sources.load name version requirement s =
      some (t.conclude (name, version) path declared (.ok [project])) := by
  rw [load_of_fetch_ok sources hnew h, hone, loadAll_singleton sources hselect hload]
  rfl

/-- Loading a package ends if loading what it depends on does. -/
theorem load_ends {name : String} {version : Version} {requirement : Requirement} {s : Session}
    (hinside : ∀ {path declared}, s.Lacks (name, version) →
      sources.fetch name version requirement = .ok (path, declared) →
      ∃ r, sources.loadAll (rangeDemands declared.dependencies)
        (s.start (name, version) path declared) = some r) :
    ∃ r, sources.load name version requirement s = some r := by
  rcases s.kept_or_closes_or_lacks (name, version) with ⟨project, hdone⟩ | ⟨hdone, chain, hchain⟩ |
    hnew
  · exact ⟨_, sources.load_of_kept? requirement hdone⟩
  · exact ⟨_, sources.load_of_closedChain? requirement hdone hchain⟩
  · rcases hfetch : sources.fetch name version requirement with error | ⟨path, declared⟩
    · exact ⟨_, sources.load_of_fetch_error hnew hfetch⟩
    · obtain ⟨r, hr⟩ := hinside hnew hfetch
      rw [sources.load_of_fetch_ok hnew hfetch, hr]
      exact ⟨_, rfl⟩

end Sources

/-- Properties of calls, `P` of loading a package and `Q` of loading several, that hold of each way
in which a call can end, given that they hold of the calls made on the way.  The fields are the ways
in which `loadWithin` and `loadEach` can end, so whoever proves something about all runs says what
each step does and leaves the induction on the depth to the lemmas below. -/
structure Sources.RunInvariant (sources : Sources)
    (P : String → Version → Requirement → Session → Except LoadError Project → Session → Prop)
    (Q : List Demand → Session → Except LoadError (List Project) → Session → Prop) : Prop where
  /-- The package is done. -/
  recalled : ∀ {name version requirement s project},
    kept? s.resolved (name, version) = some project → P name version requirement s (.ok project) s
  /-- The package closes a cycle. -/
  cyclic : ∀ {name version requirement s chain}, kept? s.resolved (name, version) = none →
    closedChain? s.inProgress (name, version) = some chain →
      P name version requirement s (.error (.dependencyCycle chain)) s
  /-- The package is new and cannot be fetched. -/
  unfetched : ∀ {name version requirement s error}, s.Lacks (name, version) →
    sources.fetch name version requirement = .error error →
      P name version requirement s (.error error) (s.ask (.find name version))
  /-- What the package depends on fails. -/
  failed : ∀ {name version requirement s path declared error t}, s.Lacks (name, version) →
    sources.fetch name version requirement = .ok (path, declared) →
    sources.loadAll (rangeDemands declared.dependencies) (s.start (name, version) path declared) =
      some (.error error, t) →
    Q (rangeDemands declared.dependencies) (s.start (name, version) path declared)
      (.error error) t →
      P name version requirement s (.error error) t.leave
  /-- The package is loaded. -/
  loaded : ∀ {name version requirement s path declared dependencies t}, s.Lacks (name, version) →
    sources.fetch name version requirement = .ok (path, declared) →
    sources.loadAll (rangeDemands declared.dependencies) (s.start (name, version) path declared) =
      some (.ok dependencies, t) →
    Q (rangeDemands declared.dependencies) (s.start (name, version) path declared)
      (.ok dependencies) t →
      P name version requirement s (.ok ⟨path, .package declared, dependencies, []⟩)
        (t.leave.finish (name, version) ⟨path, .package declared, dependencies, []⟩)
  /-- Nothing is demanded. -/
  nil : ∀ {s}, Q [] s (.ok []) s
  /-- No version meets the first demand. -/
  unselected : ∀ {name requirement rest s error}, sources.select name requirement = .error error →
    Q ((name, requirement) :: rest) s (.error error) (s.askFor (name, requirement))
  /-- The package for the first demand fails. -/
  headFailed : ∀ {name requirement rest s version error t},
    sources.select name requirement = .ok version →
    sources.load name version requirement (s.askFor (name, requirement)) =
      some (.error error, t) →
    P name version requirement (s.askFor (name, requirement)) (.error error) t →
      Q ((name, requirement) :: rest) s (.error error) t
  /-- The package for the first demand is loaded. -/
  tail : ∀ {name requirement rest s version project t outcome u},
    sources.select name requirement = .ok version →
    sources.load name version requirement (s.askFor (name, requirement)) =
      some (.ok project, t) →
    P name version requirement (s.askFor (name, requirement)) (.ok project) t →
    sources.loadAll rest t = some (outcome, u) →
    Q rest t outcome u →
      Q ((name, requirement) :: rest) s (outcome.map (project :: ·)) u

namespace Sources.RunInvariant

variable {sources : Sources}
  {P : String → Version → Requirement → Session → Except LoadError Project → Session → Prop}
  {Q : List Demand → Session → Except LoadError (List Project) → Session → Prop}

/-- Within a depth, the demands are dealt with one after the other. -/
private theorem of_loadEach (h : sources.RunInvariant P Q) {depth : ℕ}
    (hone : ∀ {name version requirement s outcome t},
      sources.loadWithin depth name version requirement s = some (outcome, t) →
        P name version requirement s outcome t)
    {demands : List Demand} {s t : Session} {outcome : Except LoadError (List Project)}
    (hrun : sources.loadEach (sources.loadWithin depth) demands s = some (outcome, t)) :
    Q demands s outcome t := by
  induction demands generalizing s outcome t with
  | nil =>
      cases hrun
      exact h.nil
  | cons demand rest ih =>
      obtain ⟨name, requirement⟩ := demand
      cases hselect : sources.select name requirement with
      | error error =>
          rw [sources.loadEach_of_select_error _ _ hselect] at hrun
          cases hrun
          exact h.unselected hselect
      | ok version =>
          rw [sources.loadEach_cons _ _ hselect] at hrun
          obtain ⟨⟨first, u⟩, hfirst, hrun⟩ := Option.bind_eq_some_iff.mp hrun
          -- A call that ends within the depth ends, so the invariant may speak of `load`.
          have hload := sources.load_eq_some_iff.mpr ⟨depth, hfirst⟩
          cases first with
          | error error =>
              cases hrun
              exact h.headFailed hselect hload (hone hfirst)
          | ok project =>
              obtain ⟨⟨others, v⟩, hrest, hrun⟩ := Option.map_eq_some_iff.mp hrun
              cases hrun
              exact h.tail hselect hload (hone hfirst)
                (sources.loadAll_eq_some_iff.mpr ⟨depth, hrest⟩) (ih hrest)

/-- The induction is on the depth. -/
private theorem of_loadWithin (h : sources.RunInvariant P Q) {depth : ℕ} {name : String}
    {version : Version} {requirement : Requirement} {s t : Session}
    {outcome : Except LoadError Project}
    (hrun : sources.loadWithin depth name version requirement s = some (outcome, t)) :
    P name version requirement s outcome t := by
  induction depth using Nat.strong_induction_on generalizing name version requirement s outcome t
    with
  | _ depth ih =>
      rcases s.kept_or_closes_or_lacks (name, version) with ⟨project, hdone⟩ |
        ⟨hdone, chain, hchain⟩ | hnew
      · rw [sources.loadWithin_of_kept? _ hdone] at hrun
        cases hrun
        exact h.recalled hdone
      · rw [sources.loadWithin_of_closedChain? _ hdone hchain] at hrun
        cases hrun
        exact h.cyclic hdone hchain
      rcases hfetch : sources.fetch name version requirement with error | ⟨path, declared⟩
      · rw [sources.loadWithin_of_fetch_error _ hnew hfetch] at hrun
        cases hrun
        exact h.unfetched hnew hfetch
      cases depth with
      | zero =>
          -- The call has found a package and may put none under way, so it has not ended.
          rw [sources.loadWithin_zero_of_fetch_ok hnew hfetch] at hrun
          cases hrun
      | succ depth =>
          rw [sources.loadWithin_succ_of_fetch_ok _ hnew hfetch] at hrun
          obtain ⟨⟨inner, u⟩, hinside, hrun⟩ := Option.map_eq_some_iff.mp hrun
          have hall := sources.loadAll_eq_some_iff.mpr ⟨depth, hinside⟩
          have hQ := h.of_loadEach (ih depth (Nat.lt_succ_self depth)) hinside
          cases inner with
          | error error =>
              cases hrun
              exact h.failed hnew hfetch hall hQ
          | ok dependencies =>
              cases hrun
              exact h.loaded hnew hfetch hall hQ

/-- **An invariant holds of every call that loads a package and ends.**  This is where the bound
goes: a call that ends does so within some depth, and the invariant was proved for every depth. -/
theorem load (h : sources.RunInvariant P Q) {name : String} {version : Version}
    {requirement : Requirement} {s t : Session} {outcome : Except LoadError Project}
    (hrun : sources.load name version requirement s = some (outcome, t)) :
    P name version requirement s outcome t := by
  obtain ⟨depth, hdepth⟩ := sources.load_eq_some_iff.mp hrun
  exact h.of_loadWithin hdepth

/-- An invariant holds of every call that loads several packages and ends. -/
theorem loadAll (h : sources.RunInvariant P Q) {demands : List Demand} {s t : Session}
    {outcome : Except LoadError (List Project)}
    (hrun : sources.loadAll demands s = some (outcome, t)) : Q demands s outcome t := by
  obtain ⟨depth, hdepth⟩ := sources.loadAll_eq_some_iff.mp hrun
  exact h.of_loadEach (fun hone => h.of_loadWithin hone) hdepth

end Sources.RunInvariant

end ElmManifest
