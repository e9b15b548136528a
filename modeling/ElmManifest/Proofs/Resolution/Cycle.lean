import ElmManifest.Proofs.Resolution.Run
import Mathlib.Data.List.Chain
import Mathlib.Logic.Relation

/-!
# Cycles of dependencies

A run draws a graph: its nodes are the keys of packages, and an edge leads from a package whose
manifest the run has read to the version that is selected for each dependency declared there.  The
run reports a cycle exactly when the graph has one that can be reached from the manifest that is
resolved.

That a reported cycle is one is an invariant of the packages under way: each of them declares the
next, and the first is a dependency of the manifest itself (`Session.Traced`).  That no cycle hides
behind results that are kept is a matter of order: a package is done after all that it depends on,
so along every edge one comes to packages that were done before (`Sources.Edge.idxOf_lt`).

## Main Definitions

* `Sources.Reads`, `Sources.Wants`, `Sources.Edge` — the graph of a run.
* `Sources.Reaches` — what can be reached from the demands of a manifest.
* `Sources.IsCycle` — a chain of requests around a cycle.
* `rootDemands` — what a run loads for a manifest.

## Main Statements

* `exists_loadAll_of_resolve?` — a run is one call for these demands.
* `isCycle_and_acyclic_of_resolve?` — a cycle is reported only if it is one, and a run succeeds only
  if there is none.
-/

namespace ElmManifest

/-! ## The graph of a run -/

namespace Sources

variable (sources : Sources) (calls : List Query)

/-- Among the questions is one for the package, and this is the manifest that was found and read.
The repository has answered with its path. -/
def Reads (key : String × Release) (declared : Package) : Prop :=
  ∃ (version : Version) (path : Path), version.toRelease = key.2 ∧ .find key.1 version ∈ calls ∧
    sources.repository.find key.1 version = some path ∧
    sources.readPackage key.1 path = .ok declared

/-- The package is the one that is selected for one of the demands.  For a range that is the
smallest version that the repository has in it. -/
def Wants (demands : List Demand) (key : String × Release) : Prop :=
  ∃ (name : String) (requirement : Requirement) (version : Version),
    (name, requirement) ∈ demands ∧ sources.select name requirement = .ok version ∧
    packageKey (name, version) = key

/-- The manifest that was read for one package declares the other as a runtime dependency. -/
def Edge (a b : String × Release) : Prop :=
  ∃ declared, sources.Reads calls a declared ∧
    sources.Wants (rangeDemands declared.dependencies) b

/-- The package is wanted by one of the demands, or by what is wanted by them.  There is no bound on
how far. -/
def Reaches (demands : List Demand) (key : String × Release) : Prop :=
  ∃ first, sources.Wants demands first ∧ Relation.ReflTransGen (sources.Edge calls) first key

/-- A chain of requests for different packages, except that the last is for the same package as the
first: each wants the next, and the first can be reached from the demands. -/
def IsCycle (demands : List Demand) (chain : List (String × Version)) : Prop :=
  ∃ first rest last, chain = first :: (rest ++ [last]) ∧ packageKey last = packageKey first ∧
    ((first :: rest).map packageKey).Nodup ∧
    (chain.map packageKey).IsChain (sources.Edge calls) ∧
    sources.Reaches calls demands (packageKey first)

end Sources

/-- The demands of a manifest that a run loads.  Of these, `ignore_test_deps` leaves out the last
ones. -/
def rootDemands (ignoreTests : Bool) (manifest : Manifest) : List Demand :=
  manifest.demands ++ if ignoreTests then [] else manifest.testDemands

/-! ## A run as one call -/

namespace Sources

variable {sources : Sources}

/-- Goes on with more demands, unless those in front of them have failed. -/
def loadMore (sources : Sources) (back : List Demand) :
    Except LoadError (List Project) → Session → Option (Except LoadError (List Project) × Session)
  | .error error, t => some (.error error, t)
  | .ok projects, t => (sources.loadAll back t).map fun r => (r.1.map (projects ++ ·), r.2)

private theorem runInvariant_append (sources : Sources) (back : List Demand) :
    sources.RunInvariant (fun _ _ _ _ _ _ => True) (fun front s outcome t =>
      sources.loadAll (front ++ back) s = sources.loadMore back outcome t) := by
  constructor
  case recalled | cyclic | unfetched | failed | loaded => intros; trivial
  case nil =>
    intro s
    rw [List.nil_append, loadMore]
    rcases sources.loadAll back s with _ | ⟨error | others, u⟩ <;> rfl
  case unselected =>
    intro name requirement rest s error hselect
    exact sources.loadAll_of_select_error (rest ++ back) s hselect
  case headFailed =>
    intro name requirement rest s version error t hselect hload _
    exact sources.loadAll_of_load_error (rest ++ back) hselect hload
  case tail =>
    intro name requirement rest s version project t outcome u hselect hload _ _ ih
    refine (sources.loadAll_of_load_ok (rest ++ back) hselect hload).trans ?_
    rw [ih]
    cases outcome with
    | error error => rfl
    | ok projects =>
        simp only [loadMore, Except.map]
        rcases sources.loadAll back u with _ | ⟨error | others, v⟩ <;> rfl

/-- Demands are loaded in two parts, the second one in the session that the first leaves behind. -/
theorem loadAll_append (back : List Demand) {front : List Demand} {s t : Session}
    {outcome : Except LoadError (List Project)}
    (h : sources.loadAll front s = some (outcome, t)) :
    sources.loadAll (front ++ back) s = sources.loadMore back outcome t :=
  (runInvariant_append sources back).loadAll h

end Sources

/-- **A run is one call for all demands of its manifest**: it asks and warns of what this call
does. -/
theorem exists_loadAll_of_resolve? {sources : Sources} {ignoreTests : Bool} {path : Path}
    {manifest : Manifest} {outcome : Outcome}
    (h : resolve? sources ignoreTests path manifest = some outcome) :
    ∃ result t, sources.loadAll (rootDemands ignoreTests manifest) .empty = some (result, t) ∧
      outcome.calls = t.calls ∧ outcome.warnings = t.warnings := by
  rcases resolve?_cases h with ⟨error, t, hrun, rfl⟩ |
    ⟨dependencies, t, error, u, hrun, hrest, rfl⟩ | ⟨dependencies, t, tests, u, hrun, hrest, rfl⟩
  · exact ⟨_, t, Sources.loadAll_append _ hrun, rfl, rfl⟩
  · refine ⟨.error error, u, (Sources.loadAll_append _ hrun).trans ?_, rfl, rfl⟩
    rw [Sources.loadMore, hrest]
    rfl
  · refine ⟨.ok (dependencies ++ tests), u, (Sources.loadAll_append _ hrun).trans ?_, rfl, rfl⟩
    rw [Sources.loadMore, hrest]
    rfl

/-! ## Edges -/

namespace Sources

variable {sources : Sources} {calls calls' : List Query} {demands : List Demand}

/-- The version that is selected for the first demand is wanted. -/
theorem Wants.head {name : String} {requirement : Requirement} {version : Version}
    {rest : List Demand} (h : sources.select name requirement = .ok version) :
    sources.Wants ((name, requirement) :: rest) (packageKey (name, version)) :=
  ⟨name, requirement, version, List.mem_cons_self .., h, rfl⟩

/-- What is wanted by some demands is wanted by more of them. -/
theorem Wants.mono {wanted : List Demand} (hsub : wanted ⊆ demands) {key : String × Release}
    (h : sources.Wants wanted key) : sources.Wants demands key := by
  obtain ⟨name, requirement, version, hmem, hselect, hkey⟩ := h
  exact ⟨name, requirement, version, hsub hmem, hselect, hkey⟩

theorem Edge.mono (hcalls : calls ⊆ calls') {a b : String × Release}
    (h : sources.Edge calls a b) : sources.Edge calls' a b := by
  obtain ⟨declared, ⟨version, path, hrelease, hasked, hfound, hread⟩, hwants⟩ := h
  exact ⟨declared, ⟨version, path, hrelease, hcalls hasked, hfound, hread⟩, hwants⟩

theorem Reaches.mono (hcalls : calls ⊆ calls') {key : String × Release}
    (h : sources.Reaches calls demands key) : sources.Reaches calls' demands key := by
  obtain ⟨first, hwants, hpath⟩ := h
  exact ⟨first, hwants, hpath.lift id fun _ _ => Edge.mono hcalls⟩

theorem Reaches.tail {a b : String × Release} (h : sources.Reaches calls demands a)
    (hedge : sources.Edge calls a b) : sources.Reaches calls demands b := by
  obtain ⟨first, hwants, hpath⟩ := h
  exact ⟨first, hwants, hpath.tail hedge⟩

/-- Selecting a version fails for want of one only. -/
theorem select_ne_dependencyCycle {name : String} {requirement : Requirement}
    {chain : List (String × Version)} :
    sources.select name requirement ≠ .error (.dependencyCycle chain) := by
  unfold select
  cases requirement with
  | pinned version => simp
  | within range =>
      dsimp only
      split <;> simp

theorem readManifest_ne_dependencyCycle {path : Path} {chain : List (String × Version)} :
    sources.readManifest path ≠ .error (.dependencyCycle chain) := by
  unfold readManifest
  cases sources.read path with
  | error fault =>
      have : fault.at path ≠ .dependencyCycle chain := by
        unfold ReadFault.at
        split <;> simp
      simpa [Except.mapError, bind, Except.bind]
  | ok bytes =>
      change Manifest.decode path bytes ≠ _
      unfold Manifest.decode
      cases Manifest.ofBytes (Manifest.isLegacyPath path) bytes with
      | error fault => cases fault <;> simp [Except.mapError, DecodeFault.at]
      | ok manifest => simp [Except.mapError]

theorem fetch_ne_dependencyCycle {name : String} {version : Version} {requirement : Requirement}
    {chain : List (String × Version)} :
    sources.fetch name version requirement ≠ .error (.dependencyCycle chain) := by
  unfold fetch
  split
  · simp
  next path _ =>
    have hne : sources.readManifest path ≠ .error (.dependencyCycle chain) :=
      readManifest_ne_dependencyCycle
    unfold readPackage
    cases hread : sources.readManifest path with
    | error error =>
        rw [hread] at hne
        simpa [bind, Except.bind, Except.map] using hne
    | ok manifest =>
        cases manifest <;> simp [bind, Except.bind, Except.map, pure, Except.pure, throw,
          throwThe, MonadExceptOf.throw]

end Sources

/-! ## Reported cycles -/

/-- The packages under way are linked: each wants the next, and all can be reached from the
demands. -/
structure Session.Traced (sources : Sources) (demands : List Demand) (s : Session) : Prop where
  /-- Each wants the next. -/
  linked : s.underWay.IsChain (sources.Edge s.calls)
  /-- All can be reached. -/
  reached : ∀ key ∈ s.underWay, sources.Reaches s.calls demands key

/-- The package can be reached from the demands, and the package that was put under way last, if
there is one, wants it. -/
structure Session.Needs (sources : Sources) (demands : List Demand) (s : Session)
    (key : String × Release) : Prop where
  /-- It can be reached. -/
  reached : sources.Reaches s.calls demands key
  /-- The last package wants it. -/
  wanted : ∀ last ∈ s.underWay.getLast?, sources.Edge s.calls last key

namespace Session

variable {sources : Sources} {demands : List Demand} {s t : Session}

/-- Before anything is under way, the demands themselves are needed. -/
theorem Needs.of_empty {key : String × Release} (h : sources.Wants demands key) :
    Session.empty.Needs sources demands key :=
  ⟨⟨key, h, .refl⟩, fun _ hlast => by cases hlast⟩

theorem Traced.empty : Session.empty.Traced sources demands :=
  ⟨.nil, fun _ h => absurd h List.not_mem_nil⟩

theorem Traced.leadsTo (h : s.Traced sources demands) (ht : s.LeadsTo t) :
    t.Traced sources demands := by
  have hcalls := ht.calls.subset
  refine ⟨?linked, fun key hkey => ?reached⟩
  case linked =>
    rw [ht.underWay]
    exact h.linked.imp fun _ _ => Sources.Edge.mono hcalls
  case reached =>
    rw [ht.underWay] at hkey
    exact (h.reached key hkey).mono hcalls

theorem Needs.leadsTo {key : String × Release} (h : s.Needs sources demands key)
    (ht : s.LeadsTo t) : t.Needs sources demands key := by
  refine ⟨h.reached.mono ht.calls.subset, fun last hlast => ?_⟩
  rw [ht.underWay] at hlast
  exact (h.wanted last hlast).mono ht.calls.subset

section Start

variable {name : String} {version : Version} {requirement : Requirement} {path : Path}
  {declared : Package}

theorem underWay_start :
    (s.start (name, version) path declared).underWay =
      s.underWay ++ [packageKey (name, version)] := by
  simp [underWay]

/-- The manifest of the package that is put under way has been read. -/
theorem reads_start (h : sources.fetch name version requirement = .ok (path, declared)) :
    sources.Reads (s.start (name, version) path declared).calls (packageKey (name, version))
      declared := by
  obtain ⟨hfound, hread⟩ := Sources.fetch_eq_ok_iff.mp h
  exact ⟨version, path, rfl, by simp [packageKey], hfound, hread⟩

/-- A package that is needed may be put under way. -/
theorem Traced.start (h : s.Traced sources demands)
    (hneeds : s.Needs sources demands (packageKey (name, version))) :
    (s.start (name, version) path declared).Traced sources demands := by
  have hcalls : s.calls ⊆ (s.start (name, version) path declared).calls := by simp
  refine ⟨?linked, fun key hkey => ?reached⟩
  case linked =>
    rw [underWay_start, List.isChain_append]
    refine ⟨h.linked.imp fun _ _ => Sources.Edge.mono hcalls, .singleton _, ?_⟩
    intro last hlast key hkey
    cases hkey
    exact (hneeds.wanted last hlast).mono hcalls
  case reached =>
    rw [underWay_start, List.mem_append, List.mem_singleton] at hkey
    rcases hkey with hkey | rfl
    · exact (h.reached key hkey).mono hcalls
    · exact hneeds.reached.mono hcalls

/-- What the manifest of the package that was put under way wants is needed. -/
theorem Needs.start (hneeds : s.Needs sources demands (packageKey (name, version)))
    (hfetch : sources.fetch name version requirement = .ok (path, declared))
    {key : String × Release} (h : sources.Wants (rangeDemands declared.dependencies) key) :
    (s.start (name, version) path declared).Needs sources demands key := by
  have hedge : sources.Edge (s.start (name, version) path declared).calls
      (packageKey (name, version)) key := ⟨declared, reads_start hfetch, h⟩
  refine ⟨(hneeds.reached.mono (by simp)).tail hedge, fun last hlast => ?_⟩
  rw [underWay_start, List.getLast?_concat] at hlast
  cases hlast
  exact hedge

end Start

/-- **A chain that is closed is a cycle**: the packages under way from the one that is needed again.
It is a cycle of the graph because every link of `in_progress` was put there for the link in front
of it. -/
theorem Traced.isCycle_of_closedChain? {name : String} {version : Version}
    {chain : List (String × Version)} (h : s.Traced sources demands) (hs : s.Sound sources)
    (hneeds : s.Needs sources demands (packageKey (name, version)))
    (hchain : closedChain? s.inProgress (name, version) = some chain) :
    sources.IsCycle s.calls demands chain := by
  obtain ⟨before, first, rest, hstack, hfirst, rfl⟩ := exists_of_closedChain? hchain
  have hkeys : s.underWay = before.map packageKey ++ (first :: rest).map packageKey := by
    rw [underWay, hstack, List.map_append]
  refine ⟨first, rest, (name, version), rfl, hfirst.symm, ?distinct, ?linked, ?reached⟩
  case distinct =>
    have hdistinct := hs.distinct
    rw [hkeys] at hdistinct
    exact hdistinct.of_append_right
  case linked =>
    have hlinked := h.linked
    rw [hkeys] at hlinked
    rw [← List.cons_append, List.map_append, List.isChain_append]
    refine ⟨hlinked.right_of_append, .singleton _, ?_⟩
    -- The edge that closes the chain comes from the package that was put under way last.
    intro last hlast key hkey
    cases hkey
    refine hneeds.wanted last ?_
    rw [hkeys, List.getLast?_append_of_ne_nil _ (by simp)]
    exact hlast
  case reached =>
    exact h.reached _ (by rw [hkeys]; simp)

end Session

namespace Sources

variable (sources : Sources) (demands : List Demand)

private theorem runInvariant_isCycle : sources.RunInvariant
    (fun name version _ s outcome t => s.Sound sources → s.Traced sources demands →
      s.Needs sources demands (packageKey (name, version)) →
        ∀ chain, outcome = .error (.dependencyCycle chain) →
          sources.IsCycle t.calls demands chain)
    (fun wanted s outcome t => s.Sound sources → s.Traced sources demands →
      (∀ key, sources.Wants wanted key → s.Needs sources demands key) →
        ∀ chain, outcome = .error (.dependencyCycle chain) →
          sources.IsCycle t.calls demands chain) := by
  constructor
  case recalled =>
    intro name version requirement s project _ _ _ _ chain h
    cases h
  case cyclic =>
    rintro name version requirement s chain _ hchain hs htraced hneeds _ ⟨⟩
    exact htraced.isCycle_of_closedChain? hs hneeds hchain
  case unfetched =>
    rintro name version requirement s error _ hfetch _ _ _ chain ⟨⟩
    exact absurd hfetch fetch_ne_dependencyCycle
  case failed =>
    rintro name version requirement s path declared error t hnew hfetch _ ih hs htraced hneeds
      chain ⟨⟩
    -- The error comes from further in, where this package is the last one under way.
    exact ih (hs.start hnew path declared) (htraced.start hneeds) (fun _ => hneeds.start hfetch)
      chain rfl
  case loaded =>
    intro name version requirement s path declared dependencies t _ _ _ _ _ _ _ chain h
    cases h
  case nil =>
    intro s _ _ _ chain h
    cases h
  case unselected =>
    rintro name requirement rest s error hselect _ _ _ chain ⟨⟩
    exact absurd hselect select_ne_dependencyCycle
  case headFailed =>
    intro name requirement rest s version error t hselect _ ih hs htraced hneeds chain h
    have hleads := Session.LeadsTo.askFor s (name, requirement)
    cases h
    exact ih (hs.askFor _) (htraced.leadsTo hleads) ((hneeds _ (.head hselect)).leadsTo hleads)
      chain rfl
  case tail =>
    intro name requirement rest s version project t outcome u _ hload _ _ ihRest hs htraced hneeds
      chain h
    have hleads := (Session.LeadsTo.askFor s (name, requirement)).trans (load_leadsTo hload)
    -- What has been loaded leaves the packages under way as they were, so the rest is still needed.
    have hrest : ∀ key, sources.Wants rest key → t.Needs sources demands key :=
      fun key hwants => (hneeds key (hwants.mono (List.subset_cons_self ..))).leadsTo hleads
    cases outcome with
    | error error =>
        cases h
        exact ihRest (load_sound hload (hs.askFor _)) (htraced.leadsTo hleads) hrest chain rfl
    | ok projects => cases h

variable {sources demands}

/-- A cycle that is reported when several packages are loaded is one. -/
theorem isCycle_of_loadAll {wanted : List Demand} {s t : Session}
    {chain : List (String × Version)}
    (h : sources.loadAll wanted s = some (.error (.dependencyCycle chain), t))
    (hs : s.Sound sources) (htraced : s.Traced sources demands)
    (hneeds : ∀ key, sources.Wants wanted key → s.Needs sources demands key) :
    sources.IsCycle t.calls demands chain :=
  (sources.runInvariant_isCycle demands).loadAll h hs htraced hneeds chain rfl

end Sources

/-! ## Runs without a cycle -/

/-- Every package that has been looked up is under way or done.  When nothing is under way any more,
the kept results tell of all of them. -/
def Session.Accounted (s : Session) : Prop :=
  ∀ name version, .find name version ∈ s.calls →
    (name, version) ∈ s.inProgress ∨ (name, version) ∈ s.resolved.map Prod.fst

namespace Session

variable {s t : Session}

theorem Accounted.empty : Session.empty.Accounted :=
  fun _ _ hasked => absurd hasked List.not_mem_nil

theorem Accounted.askFor (h : s.Accounted) (demand : Demand) : (s.askFor demand).Accounted := by
  intro name version hasked
  rw [inProgress_askFor, resolved_askFor]
  exact h name version (find_mem_calls_askFor.mp hasked)

theorem Accounted.start (h : s.Accounted) (request : String × Version) (path : Path)
    (declared : Package) : (s.start request path declared).Accounted := by
  intro name version hasked
  simp only [calls_start, List.mem_append, List.mem_singleton, Query.find.injEq] at hasked
  rw [inProgress_start, resolved_start, List.mem_append, List.mem_singleton]
  rcases hasked with hasked | ⟨rfl, rfl⟩
  · exact (h name version hasked).imp_left .inl
  · exact .inl (.inr rfl)

/-- The package that was put under way last is done when it is taken back. -/
theorem Accounted.finish {request : String × Version} {path : Path} {declared : Package}
    (h : t.Accounted) (hstart : (s.start request path declared).LeadsTo t) (project : Project) :
    (t.leave.finish request project).Accounted := by
  intro name version hasked
  rw [inProgress_finish, hstart.leave.inProgress, resolved_finish, List.map_cons, List.mem_cons]
  rcases h name version hasked with hmem | hmem
  · rw [hstart.inProgress, inProgress_start, List.mem_append, List.mem_singleton] at hmem
    exact hmem.imp_right .inl
  · exact .inr (.inr hmem)

end Session

namespace Sources

variable {sources : Sources}

private theorem runInvariant_accounted : sources.RunInvariant
    (fun _ _ _ s outcome t => ∀ project, outcome = .ok project → s.Accounted → t.Accounted)
    (fun _ s outcome t => ∀ projects, outcome = .ok projects → s.Accounted → t.Accounted) := by
  constructor
  case recalled => exact fun _ _ _ hs => hs
  case cyclic => exact fun _ _ _ h => by cases h
  case unfetched => exact fun _ _ _ h => by cases h
  case failed => exact fun _ _ _ _ _ h => by cases h
  case loaded =>
    intro name version requirement s path declared dependencies t _ _ hrun ih _ _ hs
    exact (ih _ rfl (hs.start _ path declared)).finish (loadAll_leadsTo hrun) _
  case nil => exact fun _ _ hs => hs
  case unselected => exact fun _ _ h => by cases h
  case headFailed => exact fun _ _ _ _ h => by cases h
  case tail =>
    intro name requirement rest s version project t outcome u _ _ ih _ ihRest projects h hs
    cases outcome with
    | error error => cases h
    | ok others => exact ihRest _ rfl (ih _ rfl (hs.askFor _))

/-- After a package has been loaded, whatever has been looked up is accounted for. -/
theorem accounted_of_load {name : String} {version : Version} {requirement : Requirement}
    {s t : Session} {project : Project}
    (h : sources.load name version requirement s = some (.ok project, t)) (hs : s.Accounted) :
    t.Accounted :=
  runInvariant_accounted.load h project rfl hs

/-- After packages have been loaded, whatever has been looked up is accounted for. -/
theorem accounted_of_loadAll {demands : List Demand} {s t : Session} {projects : List Project}
    (h : sources.loadAll demands s = some (.ok projects, t)) (hs : s.Accounted) : t.Accounted :=
  runInvariant_accounted.loadAll h projects rfl hs

/-- A package that is wanted by demands which have been met is done. -/
theorem mem_doneKeys_of_wants {done : List ((String × Version) × Project)}
    {demands : List Demand} {projects : List Project}
    (h : List.Forall₂ (sources.Meets done) demands projects) {key : String × Release}
    (hwants : sources.Wants demands key) : key ∈ doneKeys done := by
  obtain ⟨name, requirement, version, hmem, hselect, rfl⟩ := hwants
  obtain ⟨project, -, version', hselect', hkept⟩ := exists_left_of_forall₂ h.flip hmem
  cases hselect.symm.trans hselect'
  obtain ⟨entry, hentry, hkey, -⟩ := exists_mem_of_kept? hkept
  exact List.mem_map.mpr ⟨entry, hentry, hkey⟩

/-- The manifest of a package that is done has been read. -/
theorem exists_reads_of_mem_doneKeys {s : Session} (hs : s.Sound sources)
    {key : String × Release} (h : key ∈ doneKeys s.resolved) :
    ∃ declared, sources.Reads s.calls key declared := by
  obtain ⟨entry, hentry, rfl⟩ := List.mem_map.mp h
  obtain ⟨-, -, path, declared, -, -, -, hfound, hread, -⟩ := hs.settled.exists_of_mem hentry
  exact ⟨declared, entry.1.2, path, rfl, hs.logged entry hentry, hfound, hread⟩

/-- When nothing is under way, a manifest that has been read is the one that a kept result was
settled from. -/
theorem Reads.exists_settled {s : Session} {key : String × Release} {declared : Package}
    (h : sources.Reads s.calls key declared) (hs : s.Sound sources) (haccounted : s.Accounted)
    (hidle : s.inProgress = []) :
    ∃ newer entry earlier, s.resolved = newer ++ entry :: earlier ∧ packageKey entry.1 = key ∧
      entry.2.declaration = .package declared ∧
      List.Forall₂ (sources.Meets earlier) (rangeDemands declared.dependencies)
        entry.2.dependencies := by
  obtain ⟨version, path, hrelease, hasked, hfound, hread⟩ := h
  have hmem : (key.1, version) ∈ s.resolved.map Prod.fst := by
    simpa [hidle] using haccounted _ _ hasked
  obtain ⟨entry, hentry, hrequest⟩ := List.mem_map.mp hmem
  obtain ⟨newer, earlier, path', declared', hdone, -, hdeclares, hfound', hread', hmet⟩ :=
    hs.settled.exists_of_mem hentry
  rw [hrequest] at hfound' hread'
  -- The package was asked for in one spelling, so this is the manifest that it was settled from.
  cases hfound.symm.trans hfound'
  cases hread.symm.trans hread'
  refine ⟨newer, entry, earlier, hdone, ?_, hdeclares, hmet⟩
  rw [hrequest, packageKey, hrelease]

/-- When nothing is under way, a manifest that has been read is that of a package that is done, and
what it wants was done before. -/
theorem Reads.exists_doneKeys {s : Session} {key : String × Release} {declared : Package}
    (h : sources.Reads s.calls key declared) (hs : s.Sound sources) (haccounted : s.Accounted)
    (hidle : s.inProgress = []) :
    ∃ newer earlier, doneKeys s.resolved = newer ++ key :: earlier ∧
      ∀ other, sources.Wants (rangeDemands declared.dependencies) other → other ∈ earlier := by
  obtain ⟨newer, entry, earlier, hdone, rfl, -, hmet⟩ := h.exists_settled hs haccounted hidle
  refine ⟨doneKeys newer, doneKeys earlier, ?_, fun other => mem_doneKeys_of_wants hmet⟩
  rw [hdone, doneKeys_append, doneKeys_cons]

/-- **Along an edge one comes to a package that was done before**, when nothing is under way any
more.  So the order in which packages were done is one in which dependencies come first, and there
is no way back. -/
theorem Edge.idxOf_lt {s : Session} {a b : String × Release} (h : sources.Edge s.calls a b)
    (hs : s.Sound sources) (haccounted : s.Accounted) (hidle : s.inProgress = []) :
    (doneKeys s.resolved).idxOf a < (doneKeys s.resolved).idxOf b := by
  obtain ⟨declared, hreads, hwants⟩ := h
  obtain ⟨newer, earlier, hkeys, hbefore⟩ := hreads.exists_doneKeys hs haccounted hidle
  have hnodup := hs.settled.nodup
  rw [hkeys, List.nodup_append] at hnodup
  obtain ⟨-, hrest, hapart⟩ := hnodup
  have hb : b ∈ earlier := hbefore b hwants
  have hab : a ≠ b := fun he => (List.nodup_cons.mp hrest).1 (he ▸ hb)
  have ha : a ∉ newer := fun hmem => hapart a hmem a (List.mem_cons_self ..) rfl
  have hb' : b ∉ newer := fun hmem => hapart b hmem b (List.mem_cons_of_mem _ hb) rfl
  rw [hkeys, List.idxOf_append_of_notMem ha, List.idxOf_append_of_notMem hb',
    List.idxOf_cons_self, List.idxOf_cons_ne _ hab]
  omega

/-- When nothing is under way any more, no path of edges comes back to where it starts. -/
theorem not_transGen_edge_self {s : Session} (hs : s.Sound sources) (haccounted : s.Accounted)
    (hidle : s.inProgress = []) (key : String × Release) :
    ¬ Relation.TransGen (sources.Edge s.calls) key key := by
  have hlt : ∀ {a b}, Relation.TransGen (sources.Edge s.calls) a b →
      (doneKeys s.resolved).idxOf a < (doneKeys s.resolved).idxOf b := by
    intro a b hpath
    induction hpath with
    | single hedge => exact hedge.idxOf_lt hs haccounted hidle
    | tail _ hedge ih => exact ih.trans (hedge.idxOf_lt hs haccounted hidle)
  exact fun hpath => (hlt hpath).false

/-- What can be reached from demands that have been met is done. -/
theorem Reaches.mem_doneKeys {s : Session} {demands : List Demand} {key : String × Release}
    (h : sources.Reaches s.calls demands key) (hs : s.Sound sources) (haccounted : s.Accounted)
    (hidle : s.inProgress = [])
    (hroot : ∀ key, sources.Wants demands key → key ∈ doneKeys s.resolved) :
    key ∈ doneKeys s.resolved := by
  obtain ⟨first, hwants, hpath⟩ := h
  induction hpath with
  | refl => exact hroot first hwants
  | tail _ hedge _ =>
      obtain ⟨declared, hreads, hwants⟩ := hedge
      obtain ⟨newer, earlier, hkeys, hbefore⟩ := hreads.exists_doneKeys hs haccounted hidle
      rw [hkeys]
      exact List.mem_append_right _ (List.mem_cons_of_mem _ (hbefore _ hwants))

end Sources

/-! ## Whole runs -/

section Root

variable {sources : Sources} {ignoreTests : Bool} {path : Path} {manifest : Manifest}
  {outcome : Outcome}

/-- A run that reports a cycle has found one. -/
theorem isCycle_of_resolve? {chain : List (String × Version)}
    (h : resolve? sources ignoreTests path manifest = some outcome)
    (hchain : outcome.result = .error (.dependencyCycle chain)) :
    sources.IsCycle outcome.calls (rootDemands ignoreTests manifest) chain := by
  have hneeds : ∀ {wanted}, wanted ⊆ rootDemands ignoreTests manifest → ∀ key,
      sources.Wants wanted key →
        Session.empty.Needs sources (rootDemands ignoreTests manifest) key :=
    fun hsub _ hwants => .of_empty (hwants.mono hsub)
  rcases resolve?_cases h with ⟨error, t, hruntime, rfl⟩ |
    ⟨dependencies, t, error, u, hruntime, htests, rfl⟩ | ⟨_, _, _, _, _, _, rfl⟩
  · cases hchain
    exact Sources.isCycle_of_loadAll hruntime (.empty sources) .empty
      (hneeds (List.subset_append_left _ _))
  · cases hchain
    -- The test dependencies are loaded in the session that the others leave behind, which has
    -- nothing under way either.
    have hleads := Sources.loadAll_leadsTo hruntime
    exact Sources.isCycle_of_loadAll htests (Sources.loadAll_sound hruntime (.empty sources))
      (Session.Traced.empty.leadsTo hleads) fun key hwants =>
        (hneeds (List.subset_append_right _ _) key hwants).leadsTo hleads
  · cases hchain

/-- After a run that succeeds, every package that can be reached has been read, and none lies on a
cycle. -/
theorem acyclic_of_resolve? {project : Project}
    (h : resolve? sources ignoreTests path manifest = some outcome)
    (hproject : outcome.result = .ok project) {key : String × Release}
    (hkey : sources.Reaches outcome.calls (rootDemands ignoreTests manifest) key) :
    (∃ declared, sources.Reads outcome.calls key declared) ∧
      ¬ Relation.TransGen (sources.Edge outcome.calls) key key := by
  obtain ⟨dependencies, tests, t, u, hruntime, htests, hu, hidle, hcalls, -, hdependencies,
    hmet⟩ := exists_session_of_resolve? h hproject
  rw [← hcalls] at hkey ⊢
  have haccounted : u.Accounted :=
    Sources.accounted_of_loadAll htests (Sources.accounted_of_loadAll hruntime .empty)
  have hroot : List.Forall₂ (sources.Meets u.resolved) (rootDemands ignoreTests manifest)
      (dependencies ++ tests) := List.rel_append hdependencies hmet
  have hdone := hkey.mem_doneKeys hu haccounted hidle fun _ => Sources.mem_doneKeys_of_wants hroot
  exact ⟨Sources.exists_reads_of_mem_doneKeys hu hdone,
    Sources.not_transGen_edge_self hu haccounted hidle key⟩

/-- **Cycles are reported exactly when there are any.**  A cycle that is reported is one in the
graph of the run, and after a run that succeeds there is none among the packages that can be
reached, all of which have been read.  The cycle is looked for in `in_progress` alone, and no other
graph is ever built. -/
theorem isCycle_and_acyclic_of_resolve?
    (h : resolve? sources ignoreTests path manifest = some outcome) :
    (∀ chain, outcome.result = .error (.dependencyCycle chain) →
      sources.IsCycle outcome.calls (rootDemands ignoreTests manifest) chain) ∧
    (∀ project, outcome.result = .ok project → ∀ key,
      sources.Reaches outcome.calls (rootDemands ignoreTests manifest) key →
        (∃ declared, sources.Reads outcome.calls key declared) ∧
          ¬ Relation.TransGen (sources.Edge outcome.calls) key key) :=
  ⟨fun _ hchain => isCycle_of_resolve? h hchain,
    fun _ hproject _ hkey => acyclic_of_resolve? h hproject hkey⟩

end Root

/-! ## A package that depends on itself -/

/-- The manifest of a package that depends on itself. -/
def loopText : String :=
  "\x7b\"type\":\"package\",\"name\":\"a/loop\",\"version\":\"1.0.0\"," ++
    "\"elm-version\":\"0.19.0 <= v < 0.20.0\"," ++
    "\"dependencies\":\x7b\"a/loop\":\"1.0.0 <= v < 2.0.0\"\x7d\x7d"

/-- The version of the package. -/
def loopVersion : Version := .ofNumbers 1 0 0

/-- The versions of itself that the package accepts. -/
def loopRange : Constraint := ⟨.ofNumbers 1 0 0, true, .ofNumbers 2 0 0, false⟩

/-- What `loopText` declares. -/
def loopPackage : Package where
  name := "a/loop"
  version := loopVersion
  summary := none
  license := none
  elmVersion := ⟨.ofNumbers 0 19 0, true, .ofNumbers 0 20 0, false⟩
  exposedModules := []
  dependencies := .ofList [("a/loop", loopRange)]
  testDependencies := .empty

/-- A repository that has the package and nothing else. -/
def loopSources : Sources where
  repository := ⟨fun _ _ => some ⟨"loop/elm.json"⟩, fun _ => .ofList [loopVersion]⟩
  read _ := .ok loopText.toUTF8

/-- An application that is pinned to the package. -/
def loopRoot : Application where
  elmVersion := .ofNumbers 0 19 1
  sourceDirectories := ["src"]
  dependencies := ⟨.ofList [("a/loop", loopVersion)], .empty⟩
  testDependencies := .empty
  testDirectory := none

theorem readPackage_loop :
    loopSources.readPackage "a/loop" ⟨"loop/elm.json"⟩ = .ok loopPackage :=
  eq_ok_of_toOption (by decide +kernel)

/-- The package that depends on itself is reported as a cycle of one, when an application pins
it. -/
theorem isCycle_of_resolve?_loopRoot :
    let chain := [("a/loop", loopVersion), ("a/loop", loopVersion)]
    let calls : List Query := [.find "a/loop" loopVersion, .versions "a/loop"]
    resolve? loopSources false ⟨"elm.json"⟩ (.application loopRoot) =
        some ⟨.error (.dependencyCycle chain), calls, []⟩ ∧
      loopSources.IsCycle calls (rootDemands false (.application loopRoot)) chain := by
  intro chain calls
  have hselect : loopSources.select "a/loop" (.within loopRange) = .ok loopVersion := by
    decide +kernel
  have hfetch : loopSources.fetch "a/loop" loopVersion (.pinned loopVersion) =
      .ok (⟨"loop/elm.json"⟩, loopPackage) :=
    Sources.fetch_eq_ok_iff.mpr ⟨rfl, readPackage_loop⟩
  have hnew : Session.empty.Lacks ("a/loop", loopVersion) :=
    ⟨List.not_mem_nil, List.not_mem_nil⟩
  have hagain : loopSources.load "a/loop" loopVersion (.within loopRange)
      ⟨[("a/loop", loopVersion)], [], calls, []⟩ =
        some (.error (.dependencyCycle chain), ⟨[("a/loop", loopVersion)], [], calls, []⟩) :=
    loopSources.load_of_closedChain? _ rfl rfl
  have hinside : loopSources.loadAll (rangeDemands loopPackage.dependencies)
      (Session.empty.start ("a/loop", loopVersion) ⟨"loop/elm.json"⟩ loopPackage) =
        some (.error (.dependencyCycle chain), ⟨[("a/loop", loopVersion)], [], calls, []⟩) :=
    loopSources.loadAll_of_load_error [] hselect hagain
  have hload : loopSources.load "a/loop" loopVersion (.pinned loopVersion) .empty =
      some (.error (.dependencyCycle chain), ⟨[], [], calls, []⟩) := by
    rw [loopSources.load_of_fetch_ok hnew hfetch, hinside]
    rfl
  have hruntime : loopSources.loadAll (Manifest.application loopRoot).demands .empty =
      some (.error (.dependencyCycle chain), ⟨[], [], calls, []⟩) :=
    loopSources.loadAll_of_load_error [] rfl hload
  have hrun := resolve?_of_loadAll_error false ⟨"elm.json"⟩ hruntime
  exact ⟨hrun, (isCycle_and_acyclic_of_resolve? hrun).1 chain rfl⟩

end ElmManifest
