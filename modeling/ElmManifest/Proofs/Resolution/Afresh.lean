import ElmManifest.Proofs.Resolution.Run

/-!
# Resolving without keeping results

A run keeps the result for every package that is done and gives it again when the package is needed
again.  That is a matter of speed only: the recursion that keeps nothing, and loads every dependency
of every package afresh, ends for the same manifests and comes to the same result, errors included.

The recursion that keeps nothing knows the chain of packages under way, and nothing else.  What
makes the two agree at a package that is done is `Sources.loadAfresh_of_kept?`: the package was
settled from packages that were done before it, so loading it afresh, below a chain of packages none
of which is done, meets no package of the chain and never comes back to where it has been.

## Main Definitions

* `Sources.loadAfresh`, `Sources.loadAllAfresh`, `resolveAfresh` — the recursion that keeps nothing.
* `Repository.IgnoresTags` — one manifest for all spellings of a version.

## Main Statements

* `resolve?_eq_resolveAfresh` — keeping results changes no result.
-/

namespace ElmManifest

namespace Sources

/-- Loads a package for each demand, up to the first that fails, when single packages are loaded by
`load`.  It has no session to hand on, so the demands do not see each other. -/
def loadEachAfresh (sources : Sources)
    (load : String → Version → Requirement → Option (Except LoadError Project)) :
    List Demand → Option (Except LoadError (List Project))
  | [] => some (.ok [])
  | (name, requirement) :: rest =>
    match sources.select name requirement with
    | .error error => some (.error error)
    | .ok version => do
      match ← load name version requirement with
      | .error error => return .error error
      | .ok project =>
        let outcome ← sources.loadEachAfresh load rest
        return outcome.map (project :: ·)

/-- Loads a package and, afresh, all it depends on, below a chain of packages under way, as long as
no more than `depth` packages have to be put under way inside each other. This is `load_package`
without `resolved`: a chain takes the place of `in_progress`, and the only thing that is looked up
before a package is loaded. -/
def loadAfreshWithin (sources : Sources) (depth : ℕ) (chain : List (String × Version))
    (name : String) (version : Version) (requirement : Requirement) :
    Option (Except LoadError Project) :=
  match closedChain? chain (name, version) with
  | some loop => some (.error (.dependencyCycle loop))
  | none =>
    match sources.fetch name version requirement with
    | .error error => some (.error error)
    | .ok (path, declared) =>
      match depth with
      | 0 => none
      | depth + 1 => do
        let outcome ← sources.loadEachAfresh
          (sources.loadAfreshWithin depth (chain ++ [(name, version)]))
          (rangeDemands declared.dependencies)
        return outcome.map fun dependencies => ⟨path, .package declared, dependencies, []⟩

/-- Loads a package and, afresh, all it depends on, below a chain of packages under way. -/
def loadAfresh (sources : Sources) (chain : List (String × Version)) (name : String)
    (version : Version) (requirement : Requirement) : Option (Except LoadError Project) :=
  eventual fun depth => sources.loadAfreshWithin depth chain name version requirement

/-- Loads a package afresh for each demand, up to the first that fails. -/
def loadAllAfresh (sources : Sources) (chain : List (String × Version)) (demands : List Demand) :
    Option (Except LoadError (List Project)) :=
  eventual fun depth => sources.loadEachAfresh (sources.loadAfreshWithin depth chain) demands

end Sources

/-- Resolves a manifest that was read at a path, and keeps nothing on the way; none if that does not
end.  Nothing is said here of questions and warnings, as there are more of them. -/
def resolveAfresh (sources : Sources) (ignoreTests : Bool) (path : Path) (manifest : Manifest) :
    Option (Except LoadError Project) := do
  match ← sources.loadAllAfresh [] manifest.demands with
  | .error error => return .error error
  | .ok dependencies =>
    let outcome ← sources.loadAllAfresh [] (if ignoreTests then [] else manifest.testDemands)
    return outcome.map fun tests => ⟨path, manifest.declaration, dependencies, tests⟩

/-- The repository finds one manifest for all spellings of a version.  Without this, a result that
was kept for one spelling would be given for another one for which something else is found. -/
def Repository.IgnoresTags (repository : Repository) : Prop :=
  ∀ (name : String) (a b : Version), a.SameRelease b →
    repository.find name a = repository.find name b

namespace Sources

variable (sources : Sources)

/-! ## The recursion that keeps nothing -/

section Bounded

variable {chain : List (String × Version)} {name : String} {version : Version}
  {requirement : Requirement}

theorem loadAfreshWithin_of_closedChain? (depth : ℕ) {loop : List (String × Version)}
    (h : closedChain? chain (name, version) = some loop) :
    sources.loadAfreshWithin depth chain name version requirement =
      some (.error (.dependencyCycle loop)) := by
  rw [loadAfreshWithin, h]

theorem loadAfreshWithin_of_fetch_error (depth : ℕ) {error : LoadError}
    (hchain : closedChain? chain (name, version) = none)
    (h : sources.fetch name version requirement = .error error) :
    sources.loadAfreshWithin depth chain name version requirement = some (.error error) := by
  rw [loadAfreshWithin, hchain, h]

theorem loadAfreshWithin_zero_of_fetch_ok {path : Path} {declared : Package}
    (hchain : closedChain? chain (name, version) = none)
    (h : sources.fetch name version requirement = .ok (path, declared)) :
    sources.loadAfreshWithin 0 chain name version requirement = none := by
  rw [loadAfreshWithin, hchain, h]

theorem loadAfreshWithin_succ_of_fetch_ok (depth : ℕ) {path : Path} {declared : Package}
    (hchain : closedChain? chain (name, version) = none)
    (h : sources.fetch name version requirement = .ok (path, declared)) :
    sources.loadAfreshWithin (depth + 1) chain name version requirement =
      (sources.loadEachAfresh (sources.loadAfreshWithin depth (chain ++ [(name, version)]))
        (rangeDemands declared.dependencies)).map fun outcome =>
          outcome.map fun dependencies => ⟨path, .package declared, dependencies, []⟩ := by
  rw [loadAfreshWithin, hchain, h]
  dsimp only
  cases sources.loadEachAfresh (sources.loadAfreshWithin depth (chain ++ [(name, version)]))
    (rangeDemands declared.dependencies) <;> rfl

theorem loadEachAfresh_of_select_error
    (load : String → Version → Requirement → Option (Except LoadError Project))
    (rest : List Demand) {error : LoadError} (h : sources.select name requirement = .error error) :
    sources.loadEachAfresh load ((name, requirement) :: rest) = some (.error error) := by
  rw [loadEachAfresh, h]

theorem loadEachAfresh_of_load_error
    {load : String → Version → Requirement → Option (Except LoadError Project)}
    (rest : List Demand) {error : LoadError} (h : sources.select name requirement = .ok version)
    (hload : load name version requirement = some (.error error)) :
    sources.loadEachAfresh load ((name, requirement) :: rest) = some (.error error) := by
  rw [loadEachAfresh, h]
  dsimp only
  rw [hload]
  rfl

theorem loadEachAfresh_of_load_ok
    {load : String → Version → Requirement → Option (Except LoadError Project)}
    (rest : List Demand) {project : Project} (h : sources.select name requirement = .ok version)
    (hload : load name version requirement = some (.ok project)) :
    sources.loadEachAfresh load ((name, requirement) :: rest) =
      (sources.loadEachAfresh load rest).map fun outcome => outcome.map (project :: ·) := by
  rw [loadEachAfresh, h]
  dsimp only
  rw [hload]
  cases sources.loadEachAfresh load rest <;> simp

theorem loadEachAfresh_mono
    {load load' : String → Version → Requirement → Option (Except LoadError Project)}
    (hload : ∀ name version requirement outcome, load name version requirement = some outcome →
      load' name version requirement = some outcome)
    {demands : List Demand} {outcome : Except LoadError (List Project)}
    (h : sources.loadEachAfresh load demands = some outcome) :
    sources.loadEachAfresh load' demands = some outcome := by
  induction demands generalizing outcome with
  | nil => exact h
  | cons demand rest ih =>
      obtain ⟨name, requirement⟩ := demand
      cases hselect : sources.select name requirement with
      | error error => rwa [loadEachAfresh_of_select_error _ _ _ hselect] at h ⊢
      | ok version =>
          cases hfirst : load name version requirement with
          | none =>
              rw [loadEachAfresh, hselect] at h
              simp [hfirst] at h
          | some first =>
              have hfirst' := hload _ _ _ _ hfirst
              cases first with
              | error error =>
                  rw [loadEachAfresh_of_load_error _ _ hselect hfirst] at h
                  rw [loadEachAfresh_of_load_error _ _ hselect hfirst', h]
              | ok project =>
                  rw [loadEachAfresh_of_load_ok _ _ hselect hfirst] at h
                  obtain ⟨others, hothers, rfl⟩ := Option.map_eq_some_iff.mp h
                  rw [loadEachAfresh_of_load_ok _ _ hselect hfirst', ih hothers]
                  rfl

/-- What a package comes to afresh within a depth, it comes to within the next one. -/
theorem settles_loadAfreshWithin (chain : List (String × Version)) (name : String)
    (version : Version) (requirement : Requirement) :
    Settles fun depth => sources.loadAfreshWithin depth chain name version requirement := by
  refine ⟨fun depth => ?_⟩
  induction depth using Nat.strong_induction_on generalizing chain name version requirement with
  | _ depth ih =>
      intro outcome h
      cases hchain : closedChain? chain (name, version) with
      | some loop => rwa [loadAfreshWithin_of_closedChain? _ _ hchain] at h ⊢
      | none =>
          rcases hfetch : sources.fetch name version requirement with error | ⟨path, declared⟩
          · rwa [loadAfreshWithin_of_fetch_error _ _ hchain hfetch] at h ⊢
          · cases depth with
            | zero =>
                rw [loadAfreshWithin_zero_of_fetch_ok _ hchain hfetch] at h
                cases h
            | succ depth =>
                rw [loadAfreshWithin_succ_of_fetch_ok _ _ hchain hfetch] at h ⊢
                obtain ⟨inner, hinside, rfl⟩ := Option.map_eq_some_iff.mp h
                rw [sources.loadEachAfresh_mono (ih depth (Nat.lt_succ_self depth) _) hinside]
                rfl

theorem settles_loadEachAfresh (chain : List (String × Version)) (demands : List Demand) :
    Settles fun depth => sources.loadEachAfresh (sources.loadAfreshWithin depth chain) demands :=
  ⟨fun depth _ => sources.loadEachAfresh_mono fun name version requirement =>
    (sources.settles_loadAfreshWithin chain name version requirement).keeps depth⟩

end Bounded

variable {chain : List (String × Version)} {name : String} {version : Version}
  {requirement : Requirement}

theorem loadAfresh_eq_some_iff {outcome : Except LoadError Project} :
    sources.loadAfresh chain name version requirement = some outcome ↔
      ∃ depth, sources.loadAfreshWithin depth chain name version requirement = some outcome :=
  (sources.settles_loadAfreshWithin chain name version requirement).eventual_eq_some_iff

theorem loadAllAfresh_eq_some_iff {demands : List Demand}
    {outcome : Except LoadError (List Project)} :
    sources.loadAllAfresh chain demands = some outcome ↔
      ∃ depth, sources.loadEachAfresh (sources.loadAfreshWithin depth chain) demands =
        some outcome :=
  (sources.settles_loadEachAfresh chain demands).eventual_eq_some_iff

theorem loadAfresh_of_closedChain? {loop : List (String × Version)} (requirement : Requirement)
    (h : closedChain? chain (name, version) = some loop) :
    sources.loadAfresh chain name version requirement =
      some (.error (.dependencyCycle loop)) := by
  simp only [loadAfresh, sources.loadAfreshWithin_of_closedChain? _ h, Settles.eventual_const]

theorem loadAfresh_of_fetch_error {error : LoadError}
    (hchain : closedChain? chain (name, version) = none)
    (h : sources.fetch name version requirement = .error error) :
    sources.loadAfresh chain name version requirement = some (.error error) := by
  simp only [loadAfresh, sources.loadAfreshWithin_of_fetch_error _ hchain h,
    Settles.eventual_const]

theorem loadAfresh_of_fetch_ok {path : Path} {declared : Package}
    {outcome : Except LoadError (List Project)}
    (hchain : closedChain? chain (name, version) = none)
    (h : sources.fetch name version requirement = .ok (path, declared))
    (hinside : sources.loadAllAfresh (chain ++ [(name, version)])
      (rangeDemands declared.dependencies) = some outcome) :
    sources.loadAfresh chain name version requirement =
      some (outcome.map fun dependencies => ⟨path, .package declared, dependencies, []⟩) := by
  obtain ⟨depth, hdepth⟩ := sources.loadAllAfresh_eq_some_iff.mp hinside
  refine sources.loadAfresh_eq_some_iff.mpr ⟨depth + 1, ?_⟩
  rw [sources.loadAfreshWithin_succ_of_fetch_ok _ hchain h, hdepth]
  rfl

theorem loadAllAfresh_nil (chain : List (String × Version)) :
    sources.loadAllAfresh chain [] = some (.ok []) := by
  simp only [loadAllAfresh, loadEachAfresh, Settles.eventual_const]

theorem loadAllAfresh_of_select_error (chain : List (String × Version)) (rest : List Demand)
    {error : LoadError} (h : sources.select name requirement = .error error) :
    sources.loadAllAfresh chain ((name, requirement) :: rest) = some (.error error) := by
  simp only [loadAllAfresh, sources.loadEachAfresh_of_select_error _ rest h,
    Settles.eventual_const]

theorem loadAllAfresh_of_loadAfresh_error (rest : List Demand) {error : LoadError}
    (h : sources.select name requirement = .ok version)
    (hload : sources.loadAfresh chain name version requirement = some (.error error)) :
    sources.loadAllAfresh chain ((name, requirement) :: rest) = some (.error error) := by
  obtain ⟨depth, hdepth⟩ := sources.loadAfresh_eq_some_iff.mp hload
  exact sources.loadAllAfresh_eq_some_iff.mpr
    ⟨depth, sources.loadEachAfresh_of_load_error rest h hdepth⟩

theorem loadAllAfresh_of_loadAfresh_ok {rest : List Demand} {project : Project}
    {outcome : Except LoadError (List Project)}
    (h : sources.select name requirement = .ok version)
    (hload : sources.loadAfresh chain name version requirement = some (.ok project))
    (hrest : sources.loadAllAfresh chain rest = some outcome) :
    sources.loadAllAfresh chain ((name, requirement) :: rest) =
      some (outcome.map (project :: ·)) := by
  obtain ⟨depth, hdepth⟩ := sources.loadAfresh_eq_some_iff.mp hload
  obtain ⟨depth', hdepth'⟩ := sources.loadAllAfresh_eq_some_iff.mp hrest
  refine sources.loadAllAfresh_eq_some_iff.mpr ⟨depth + depth', ?_⟩
  have hfirst := (sources.settles_loadAfreshWithin _ _ _ _).some_add hdepth depth'
  have hothers := (sources.settles_loadEachAfresh chain rest).some_add hdepth' depth
  rw [Nat.add_comm] at hothers
  rw [sources.loadEachAfresh_of_load_ok rest h hfirst, hothers]
  rfl

/-- Demands that are each met afresh are met afresh together. -/
theorem loadAllAfresh_of_forall₂ {chain : List (String × Version)} {demands : List Demand}
    {projects : List Project}
    (h : List.Forall₂ (fun demand project => ∃ version,
      sources.select demand.1 demand.2 = .ok version ∧
        sources.loadAfresh chain demand.1 version demand.2 = some (.ok project))
      demands projects) :
    sources.loadAllAfresh chain demands = some (.ok projects) := by
  induction h with
  | nil => exact sources.loadAllAfresh_nil chain
  | cons hhead _ ih =>
      obtain ⟨version, hselect, hload⟩ := hhead
      exact sources.loadAllAfresh_of_loadAfresh_ok hselect hload ih

variable {sources}

/-! ## Packages that are done -/

/-- What is fetched for one spelling of a version is fetched for every other one, whatever the
requirement was. -/
theorem fetch_eq_ok_of_packageKey (hrepository : sources.repository.IgnoresTags)
    {name name' : String} {version version' : Version} (requirement : Requirement)
    {path : Path} {declared : Package}
    (hkey : packageKey (name', version') = packageKey (name, version))
    (hfound : sources.repository.find name' version' = some path)
    (hread : sources.readPackage name' path = .ok declared) :
    sources.fetch name version requirement = .ok (path, declared) := by
  obtain ⟨rfl, hrelease⟩ := Prod.mk.inj hkey
  exact fetch_eq_ok_iff.mpr ⟨hrepository _ _ _ hrelease ▸ hfound, hread⟩

/-- **A package that is done comes out the same when it is loaded afresh**, below any chain of
packages that are not done.  The induction is on how the results were settled: the dependencies of
the package were done before it, so the package itself may join the chain above them. -/
theorem loadAfresh_of_kept? (hrepository : sources.repository.IgnoresTags)
    {done : List ((String × Version) × Project)} (hdone : sources.Settled done)
    {chain : List (String × Version)} {name : String} {version : Version}
    (requirement : Requirement) {project : Project}
    (hchain : ∀ link ∈ chain, packageKey link ∉ doneKeys done)
    (hkept : kept? done (name, version) = some project) :
    sources.loadAfresh chain name version requirement = some (.ok project) := by
  induction hdone generalizing chain name version requirement project with
  | nil => cases hkept
  | @cons done name' version' path declared dependencies _ fresh found read met ih =>
      have hchain' : ∀ link ∈ chain, packageKey link ∉ doneKeys done :=
        fun link hlink hmem => hchain link hlink (List.mem_cons_of_mem _ hmem)
      rw [kept?_cons] at hkept
      split at hkept
      next hkey =>
        cases hkept
        -- The package is done, so it is none of those in the chain.
        have hopen : closedChain? chain (name, version) = none := by
          rw [closedChain?_eq_none_iff]
          intro hmem
          obtain ⟨link, hlink, heq⟩ := List.mem_map.mp hmem
          exact hchain link hlink (by simp [heq, hkey])
        -- It was not done before its dependencies, so the chain may have it above them.
        have hbelow : ∀ link ∈ chain ++ [(name, version)], packageKey link ∉ doneKeys done := by
          intro link hlink
          rcases List.mem_append.mp hlink with hlink | hlink
          · exact hchain' link hlink
          · rw [List.mem_singleton.mp hlink, ← hkey]
            exact fresh
        have hdependencies : sources.loadAllAfresh (chain ++ [(name, version)])
            (rangeDemands declared.dependencies) = some (.ok dependencies) := by
          refine sources.loadAllAfresh_of_forall₂ (met.imp fun demand child hmeets => ?_)
          obtain ⟨selected, hselect, hchild⟩ := hmeets
          exact ⟨selected, hselect, ih _ hbelow hchild⟩
        exact sources.loadAfresh_of_fetch_ok hopen
          (fetch_eq_ok_of_packageKey hrepository requirement hkey found read) hdependencies
      next => exact ih requirement hchain' hkept

/-! ## The two recursions agree -/

private theorem runInvariant_afresh (hrepository : sources.repository.IgnoresTags) :
    sources.RunInvariant
      (fun name version requirement s outcome _ => s.Sound sources →
        sources.loadAfresh s.inProgress name version requirement = some outcome)
      (fun demands s outcome _ => s.Sound sources →
        sources.loadAllAfresh s.inProgress demands = some outcome) := by
  constructor
  case recalled =>
    intro name version requirement s project hdone hs
    exact loadAfresh_of_kept? hrepository hs.settled requirement
      (fun link hlink => hs.apart (List.mem_map_of_mem hlink)) hdone
  case cyclic =>
    intro name version requirement s chain _ hchain _
    exact sources.loadAfresh_of_closedChain? requirement hchain
  case unfetched =>
    intro name version requirement s error hnew hfetch _
    exact sources.loadAfresh_of_fetch_error
      (closedChain?_eq_none_iff.mpr hnew.notUnderWay) hfetch
  case failed | loaded =>
    intro name version requirement s path declared result t hnew hfetch _ ih hs
    have hbelow := ih (hs.start hnew path declared)
    rw [Session.inProgress_start] at hbelow
    exact sources.loadAfresh_of_fetch_ok (closedChain?_eq_none_iff.mpr hnew.notUnderWay) hfetch
      hbelow
  case nil =>
    intro s _
    exact sources.loadAllAfresh_nil _
  case unselected =>
    intro name requirement rest s error hselect _
    exact sources.loadAllAfresh_of_select_error _ _ hselect
  case headFailed =>
    intro name requirement rest s version error t hselect _ ih hs
    have hhead := ih (hs.askFor _)
    rw [Session.inProgress_askFor] at hhead
    exact sources.loadAllAfresh_of_loadAfresh_error _ hselect hhead
  case tail =>
    intro name requirement rest s version project t outcome u hselect hload ih _ ihRest hs
    have hhead := ih (hs.askFor _)
    have hrest := ihRest (load_sound hload (hs.askFor _))
    rw [(load_leadsTo hload).inProgress, Session.inProgress_askFor] at hrest
    rw [Session.inProgress_askFor] at hhead
    exact sources.loadAllAfresh_of_loadAfresh_ok hselect hhead hrest

/-- What can be loaded afresh for demands can be loaded in every session with the chain under way,
if the same is known of single packages. -/
private theorem exists_loadAll_of_loadEachAfresh (hrepository : sources.repository.IgnoresTags)
    {depth : ℕ} {chain : List (String × Version)}
    (hload : ∀ {name version requirement outcome} {s : Session},
      sources.loadAfreshWithin depth chain name version requirement = some outcome →
        s.Sound sources → s.inProgress = chain →
          ∃ r, sources.load name version requirement s = some r)
    {demands : List Demand} {outcome : Except LoadError (List Project)} {s : Session}
    (h : sources.loadEachAfresh (sources.loadAfreshWithin depth chain) demands = some outcome)
    (hs : s.Sound sources) (hchain : s.inProgress = chain) :
    ∃ r, sources.loadAll demands s = some r := by
  induction demands generalizing s outcome with
  | nil => exact ⟨_, sources.loadAll_nil s⟩
  | cons demand rest ih =>
      obtain ⟨name, requirement⟩ := demand
      cases hselect : sources.select name requirement with
      | error error => exact ⟨_, sources.loadAll_of_select_error rest s hselect⟩
      | ok version =>
          rw [loadEachAfresh, hselect] at h
          obtain ⟨first, hfirst, h⟩ := Option.bind_eq_some_iff.mp h
          obtain ⟨⟨found, t⟩, hrun⟩ := hload hfirst (hs.askFor (name, requirement)) (by simpa)
          -- The run has come to what is loaded afresh, so the demands go on in both or in neither.
          have hsame := (runInvariant_afresh hrepository).load hrun (hs.askFor _)
          rw [Session.inProgress_askFor, hchain,
            sources.loadAfresh_eq_some_iff.mpr ⟨depth, hfirst⟩] at hsame
          cases hsame
          cases first with
          | error error => exact ⟨_, sources.loadAll_of_load_error rest hselect hrun⟩
          | ok project =>
              obtain ⟨others, hothers, -⟩ := Option.bind_eq_some_iff.mp h
              obtain ⟨r, hr⟩ := ih hothers (load_sound hrun (hs.askFor _)) (by
                rw [(load_leadsTo hrun).inProgress, Session.inProgress_askFor, hchain])
              rw [sources.loadAll_of_load_ok rest hselect hrun, hr]
              exact ⟨_, rfl⟩

/-- What can be loaded afresh can be loaded in every session with the chain under way. -/
private theorem exists_load_of_loadAfreshWithin (hrepository : sources.repository.IgnoresTags)
    {depth : ℕ} {chain : List (String × Version)} {name : String} {version : Version}
    {requirement : Requirement} {outcome : Except LoadError Project} {s : Session}
    (h : sources.loadAfreshWithin depth chain name version requirement = some outcome)
    (hs : s.Sound sources) (hchain : s.inProgress = chain) :
    ∃ r, sources.load name version requirement s = some r := by
  induction depth using Nat.strong_induction_on generalizing chain name version requirement
    outcome s with
  | _ depth ih =>
      refine sources.load_ends fun {path declared} hnew hfetch => ?_
      have hopen : closedChain? chain (name, version) = none := by
        rw [← hchain]
        exact closedChain?_eq_none_iff.mpr hnew.notUnderWay
      cases depth with
      | zero =>
          rw [sources.loadAfreshWithin_zero_of_fetch_ok hopen hfetch] at h
          cases h
      | succ depth =>
          rw [sources.loadAfreshWithin_succ_of_fetch_ok _ hopen hfetch] at h
          obtain ⟨inner, hinside, -⟩ := Option.map_eq_some_iff.mp h
          exact exists_loadAll_of_loadEachAfresh hrepository
            (fun hone => ih depth (Nat.lt_succ_self depth) hone) hinside
            (hs.start hnew path declared) (by rw [Session.inProgress_start, hchain])

/-- In a sound session, loading for demands ends exactly if it ends when nothing is kept, and comes
to the same result. -/
theorem map_fst_loadAll (hrepository : sources.repository.IgnoresTags) (demands : List Demand)
    {s : Session} (hs : s.Sound sources) :
    (sources.loadAll demands s).map Prod.fst = sources.loadAllAfresh s.inProgress demands := by
  cases hrun : sources.loadAll demands s with
  | some r => exact ((runInvariant_afresh hrepository).loadAll hrun hs).symm
  | none =>
      cases hafresh : sources.loadAllAfresh s.inProgress demands with
      | none => rfl
      | some outcome =>
          -- What ends without keeping anything ends when results are kept.
          obtain ⟨depth, hdepth⟩ := sources.loadAllAfresh_eq_some_iff.mp hafresh
          obtain ⟨r, hr⟩ := exists_loadAll_of_loadEachAfresh hrepository
            (fun hone => exists_load_of_loadAfreshWithin hrepository hone) hdepth hs rfl
          rw [hrun] at hr
          cases hr

end Sources

/-- **Keeping results changes no result.**  When the repository finds one manifest for all spellings
of a version, a run ends exactly if the recursion that keeps nothing and loads every dependency of
every package afresh ends, and both come to the same project or the same error.  So `resolved` saves
work and nothing else. -/
theorem resolve?_eq_resolveAfresh (sources : Sources)
    (hrepository : sources.repository.IgnoresTags) (ignoreTests : Bool) (path : Path)
    (manifest : Manifest) :
    (resolve? sources ignoreTests path manifest).map Outcome.result =
      resolveAfresh sources ignoreTests path manifest := by
  have hruntime : (sources.loadAll manifest.demands .empty).map Prod.fst =
      sources.loadAllAfresh [] manifest.demands :=
    Sources.map_fst_loadAll hrepository manifest.demands (.empty sources)
  rw [resolve?, resolveAfresh, Sources.loadManifest, ← hruntime]
  rcases hrun : sources.loadAll manifest.demands .empty with - | ⟨_ | dependencies, t⟩
  · rfl
  · rfl
  · -- Nothing is under way any more, but the results of the runtime dependencies are still kept.
    have ht : t.Sound sources := Sources.loadAll_sound hrun (.empty sources)
    have hchain : t.inProgress = [] := (Sources.loadAll_leadsTo hrun).inProgress
    have htests := Sources.map_fst_loadAll hrepository
      (if ignoreTests then [] else manifest.testDemands) ht
    rw [hchain] at htests
    simp only [Option.map_some, Option.bind_eq_bind, Option.bind_some, ← htests]
    cases sources.loadAll (if ignoreTests then [] else manifest.testDemands) t <;> rfl

/-- An application that needs the package without dependencies twice. -/
def twiceRoot : Application where
  elmVersion := .ofNumbers 0 19 1
  sourceDirectories := ["src"]
  dependencies := ⟨.ofList [("a/leaf", leafVersion)], .empty⟩
  testDependencies := ⟨.ofList [("a/leaf", leafVersion)], .empty⟩
  testDirectory := none

/-- The package is looked up once and given again, and it comes out the same as when it is loaded
twice. -/
theorem resolve?_eq_resolveAfresh_twiceRoot :
    let root : Project := ⟨⟨"elm.json"⟩, .application twiceRoot, [leafProject], [leafProject]⟩
    leafSources.repository.IgnoresTags ∧
      resolve? leafSources false ⟨"elm.json"⟩ (.application twiceRoot) =
        some ⟨.ok root, [.find "a/leaf" leafVersion], []⟩ ∧
      resolveAfresh leafSources false ⟨"elm.json"⟩ (.application twiceRoot) = some (.ok root) := by
  intro root
  have hrepository : leafSources.repository.IgnoresTags := fun _ _ _ _ => rfl
  have hruntime : leafSources.loadAll (Manifest.application twiceRoot).demands .empty =
      some (.ok [leafProject], ⟨[], [(("a/leaf", leafVersion), leafProject)],
        [.find "a/leaf" leafVersion], []⟩) := by
    refine (leafSources.loadAll_of_load_ok [] rfl (load_leaf (.pinned leafVersion) [])).trans ?_
    rw [Sources.loadAll_nil]
    rfl
  have htests : leafSources.loadAll (Manifest.application twiceRoot).testDemands
      ⟨[], [(("a/leaf", leafVersion), leafProject)], [.find "a/leaf" leafVersion], []⟩ =
        some (.ok [leafProject], ⟨[], [(("a/leaf", leafVersion), leafProject)],
          [.find "a/leaf" leafVersion], []⟩) := by
    refine (leafSources.loadAll_of_load_ok [] rfl
      (leafSources.load_of_kept? (.pinned leafVersion) rfl)).trans ?_
    rw [Sources.loadAll_nil]
    rfl
  have hrun := resolve?_of_loadAll_ok false ⟨"elm.json"⟩ hruntime htests
  refine ⟨hrepository, hrun, ?_⟩
  rw [← resolve?_eq_resolveAfresh leafSources hrepository, hrun]
  rfl

end ElmManifest
