import ElmManifest.Cache
import ElmManifest.Proofs.Resolution.Cycle
import Mathlib.Data.Set.Card
import Mathlib.Data.Set.Finite.Lattice

/-!
# Runs that end

A run follows manifests that it reads on the way, so what it is called with says nothing about how
long it goes on.  What keeps it from going on for ever is the repository: a package that is put
under way has a manifest there and was not under way before, so with finitely many packages the
nesting of calls comes to an end.  At every nesting only finitely many demands are left to be
loaded.

## Main Definitions

* `Repository.held` — the packages that a repository has a manifest for.
* `Task` — a call of `Sources.load` or `Sources.loadAll`.
* `Sources.Calls` — the calls that a run makes, each with the look-ups it is nested in.
* `Sources.Passes` — the points that a run passes.
* `PinsIn` — demands whose pins are among others.
* `Sources.LooksUp` — the packages that are looked up in these calls.

## Main Statements

* `Sources.looksUp_of_resolve?` — the calls account for every look-up of a run.
* `resolve?_ends_of_finite_held` — a run ends, and never goes deeper than there are packages.
* `Repository.finite_held_of_listed` — a repository whose manifests can be listed is finite.
* `Cache.finite_held` — so is every cache.
* `resolve?_cache_eq_some` — with a cache, `resolve` never stands in for a run that does not end.

## Design Notes

`Sources.Calls` and `Sources.Passes` retrace the definitions of `Sources.load` and `Sources.loadAll`
without asking whether anything ends, so that they speak of runs that do not end as well.  They
count the look-ups that a call is nested in by themselves; that the session holds the very same
packages under way is the discipline of the stack (`Sources.Calls.opened_eq`).
-/

namespace ElmManifest

/-- The packages that a repository has a manifest for, in some spelling of the version.  If there
are finitely many of them, they bound how deep a run can go, whatever the manifests say. -/
def Repository.held (repository : Repository) : Set (String × Release) :=
  {key | ∃ version path, version.toRelease = key.2 ∧ repository.find key.1 version = some path}

theorem Repository.mem_held {repository : Repository} {name : String} {version : Version}
    {path : Path} (h : repository.find name version = some path) :
    packageKey (name, version) ∈ repository.held :=
  ⟨version, path, rfl, h⟩

/-! ## Finite repositories -/

/-- A repository that finds manifests only for listed packages, by the spellings of their versions,
has finitely many packages. -/
theorem Repository.finite_held_of_listed {repository : Repository}
    (listed : List (String × String))
    (h : ∀ name version path, repository.find name version = some path →
      (name, version.text) ∈ listed) : repository.held.Finite := by
  have hcover : repository.held ⊆ ⋃ entry ∈ {entry | entry ∈ listed},
      {key | ∃ version : Version, version.text = entry.2 ∧
        packageKey (entry.1, version) = key} := by
    rintro ⟨name, _⟩ ⟨version, path, rfl, hfind⟩
    exact Set.mem_biUnion (h name version path hfind) ⟨version, rfl, rfl⟩
  -- A spelling stands for one release only.
  refine Set.Finite.subset (Set.Finite.biUnion listed.finite_toSet fun entry _ =>
    Set.Subsingleton.finite ?_) hcover
  rintro _ ⟨version, htext, rfl⟩ _ ⟨version', htext', rfl⟩
  rw [packageKey, packageKey, Version.toRelease_eq_of_text_eq (htext.trans htext'.symm)]

/-- A repository that is written down has finitely many packages. -/
theorem Repository.finite_held_ofTable (manifests : List ((String × String) × Path))
    (versions : NameMap VersionSet) : (Repository.ofTable manifests versions).held.Finite := by
  refine finite_held_of_listed (manifests.map Prod.fst) fun name version path hfind => ?_
  obtain ⟨front, back, hmanifests, -⟩ := List.lookup_eq_some_iff.mp hfind
  simp [hmanifests]

/-- A cache has finitely many packages: each of them is a file. -/
theorem Cache.finite_held (cache : Cache) : cache.repository.held.Finite :=
  Repository.finite_held_of_listed cache.holdings fun _ _ _ hfind => mem_holdings_of_find hfind

/-! ## The points of a run -/

/-- A call that a run makes.  Both kinds of call are there because a run can fail, or go on for
ever, inside either. -/
inductive Task where
  /-- A package is loaded with all it depends on. -/
  | one (name : String) (version : Version) (requirement : Requirement)
  /-- A package is loaded for each demand. -/
  | all (demands : List Demand)

namespace Sources

/-- The calls that a run makes, finished or not: the packages that have been looked up in the calls
around it, outermost first, the call, and the session it is made in.  It is a relation and not a
function, since a run that does not end makes calls, too. -/
inductive Calls (sources : Sources) (ignoreTests : Bool) (manifest : Manifest) :
    List (String × Version) → Task → Session → Prop where
  /-- The run starts with the runtime dependencies of the manifest. -/
  | runtime : Calls sources ignoreTests manifest [] (.all manifest.demands) .empty
  /-- The test dependencies come last. -/
  | tests {dependencies : List Project} {t : Session}
      (hruntime : sources.loadAll manifest.demands .empty = some (.ok dependencies, t)) :
      Calls sources ignoreTests manifest []
        (.all (if ignoreTests then [] else manifest.testDemands)) t
  /-- A package is loaded for the first demand. -/
  | first {opened : List (String × Version)} {name : String} {requirement : Requirement}
      {rest : List Demand} {s : Session} {version : Version}
      (hcall : Calls sources ignoreTests manifest opened (.all ((name, requirement) :: rest)) s)
      (hselect : sources.select name requirement = .ok version) :
      Calls sources ignoreTests manifest opened (.one name version requirement)
        (s.askFor (name, requirement))
  /-- After the first demand has been met come the others. -/
  | rest {opened : List (String × Version)} {name : String} {requirement : Requirement}
      {rest : List Demand} {s t : Session} {version : Version} {project : Project}
      (hcall : Calls sources ignoreTests manifest opened (.all ((name, requirement) :: rest)) s)
      (hselect : sources.select name requirement = .ok version)
      (hload : sources.load name version requirement (s.askFor (name, requirement)) =
        some (.ok project, t)) :
      Calls sources ignoreTests manifest opened (.all rest) t
  /-- A package that has been looked up is loaded by loading what it depends on. -/
  | inside {opened : List (String × Version)} {name : String} {version : Version}
      {requirement : Requirement} {s : Session} {path : Path} {declared : Package}
      (hcall : Calls sources ignoreTests manifest opened (.one name version requirement) s)
      (hnew : s.Lacks (name, version))
      (hfetch : sources.fetch name version requirement = .ok (path, declared)) :
      Calls sources ignoreTests manifest (opened ++ [(name, version)])
        (.all (rangeDemands declared.dependencies)) (s.start (name, version) path declared)

/-- The points that a run passes: the packages that have been looked up in the calls around the
point, outermost first, and the session there. -/
inductive Passes (sources : Sources) (ignoreTests : Bool) (manifest : Manifest) :
    List (String × Version) → Session → Prop where
  /-- A call begins. -/
  | begins {opened : List (String × Version)} {task : Task} {s : Session}
      (hcall : sources.Calls ignoreTests manifest opened task s) :
      Passes sources ignoreTests manifest opened s
  /-- The versions that a demand can be met by have been asked for. -/
  | asked {opened : List (String × Version)} {demand : Demand} {rest : List Demand} {s : Session}
      (hcall : sources.Calls ignoreTests manifest opened (.all (demand :: rest)) s) :
      Passes sources ignoreTests manifest opened (s.askFor demand)
  /-- A package has been looked up, with or without success. -/
  | lookedUp {opened : List (String × Version)} {name : String} {version : Version}
      {requirement : Requirement} {s : Session}
      (hcall : sources.Calls ignoreTests manifest opened (.one name version requirement) s)
      (hnew : s.Lacks (name, version)) :
      Passes sources ignoreTests manifest opened (s.ask (.find name version))
  /-- The manifest of a package has been found and is to be read. -/
  | found {opened : List (String × Version)} {name : String} {version : Version}
      {requirement : Requirement} {s : Session} {path : Path}
      (hcall : sources.Calls ignoreTests manifest opened (.one name version requirement) s)
      (hnew : s.Lacks (name, version))
      (hfind : sources.repository.find name version = some path) :
      Passes sources ignoreTests manifest (opened ++ [(name, version)])
        (s.ask (.find name version))
  /-- The manifest has been read and checked. -/
  | checked {opened : List (String × Version)} {name : String} {version : Version}
      {requirement : Requirement} {s : Session} {path : Path} {declared : Package}
      (hcall : sources.Calls ignoreTests manifest opened (.one name version requirement) s)
      (hnew : s.Lacks (name, version))
      (hfetch : sources.fetch name version requirement = .ok (path, declared)) :
      Passes sources ignoreTests manifest (opened ++ [(name, version)])
        ((s.ask (.find name version)).check (name, version) path declared)
  /-- What the package depends on has been loaded, or has failed to, and the package is taken
  back. -/
  | left {opened : List (String × Version)} {name : String} {version : Version}
      {requirement : Requirement} {s t : Session} {path : Path} {declared : Package}
      {outcome : Except LoadError (List Project)}
      (hcall : sources.Calls ignoreTests manifest opened (.one name version requirement) s)
      (hnew : s.Lacks (name, version))
      (hfetch : sources.fetch name version requirement = .ok (path, declared))
      (hinside : sources.loadAll (rangeDemands declared.dependencies)
        (s.start (name, version) path declared) = some (outcome, t)) :
      Passes sources ignoreTests manifest (opened ++ [(name, version)]) t.leave
  /-- A package has been loaded, or has failed to. -/
  | returns {opened : List (String × Version)} {name : String} {version : Version}
      {requirement : Requirement} {s t : Session} {outcome : Except LoadError Project}
      (hcall : sources.Calls ignoreTests manifest opened (.one name version requirement) s)
      (hload : sources.load name version requirement s = some (outcome, t)) :
      Passes sources ignoreTests manifest opened t
  /-- Several packages have been loaded, or one of them has failed to. -/
  | returnsAll {opened : List (String × Version)} {demands : List Demand} {s t : Session}
      {outcome : Except LoadError (List Project)}
      (hcall : sources.Calls ignoreTests manifest opened (.all demands) s)
      (hload : sources.loadAll demands s = some (outcome, t)) :
      Passes sources ignoreTests manifest opened t

/-! ## The discipline of the stack -/

variable {sources : Sources} {ignoreTests : Bool} {manifest : Manifest}
  {opened : List (String × Version)} {task : Task} {s : Session}

/-- Every call is made in a sound session. -/
theorem Calls.sound (h : sources.Calls ignoreTests manifest opened task s) : s.Sound sources := by
  induction h with
  | runtime => exact .empty sources
  | tests hruntime => exact loadAll_sound hruntime (.empty sources)
  | first _ _ ih => exact ih.askFor _
  | rest _ _ hload ih => exact load_sound hload (ih.askFor _)
  | inside _ hnew _ ih => exact ih.start hnew _ _

/-- **The packages under way are those that have been looked up in the calls around.**  A call
inside another one is made between entering a package and leaving it. -/
theorem Calls.opened_eq (h : sources.Calls ignoreTests manifest opened task s) :
    opened = s.inProgress := by
  induction h with
  | runtime => rfl
  | tests hruntime => rw [(loadAll_leadsTo hruntime).inProgress]; rfl
  | first _ _ ih => rw [ih, Session.inProgress_askFor]
  | rest _ _ hload ih => rw [ih, (load_leadsTo hload).inProgress, Session.inProgress_askFor]
  | inside _ _ _ ih => rw [ih, Session.inProgress_start]

/-- Whatever has been looked up in the calls around has a manifest. -/
theorem Calls.held (h : sources.Calls ignoreTests manifest opened task s) :
    ∀ request ∈ opened, packageKey request ∈ sources.repository.held := by
  induction h with
  | runtime => exact fun _ hmem => absurd hmem List.not_mem_nil
  | tests _ => exact fun _ hmem => absurd hmem List.not_mem_nil
  | first _ _ ih => exact ih
  | rest _ _ _ ih => exact ih
  | inside _ _ hfetch ih =>
      intro request hmem
      rcases List.mem_append.mp hmem with hmem | hmem
      · exact ih request hmem
      · rw [List.mem_singleton.mp hmem]
        exact Repository.mem_held (fetch_eq_ok_iff.mp hfetch).1

/-- The session at every point that a run passes is sound. -/
theorem Passes.sound (h : sources.Passes ignoreTests manifest opened s) : s.Sound sources := by
  cases h with
  | begins hcall => exact hcall.sound
  | asked hcall => exact hcall.sound.askFor _
  | lookedUp hcall _ => exact hcall.sound.ask _
  | found hcall _ _ => exact hcall.sound.ask _
  | checked hcall _ _ => exact (hcall.sound.ask _).check _ _ _
  | left hcall hnew _ hinside => exact (loadAll_sound hinside (hcall.sound.start hnew _ _)).leave
  | returns hcall hload => exact load_sound hload hcall.sound
  | returnsAll hcall hload => exact loadAll_sound hload hcall.sound

end Sources

/-! ## What calls are made for -/

/-- Whatever is pinned among the wanted demands is pinned in the others. -/
def PinsIn (demands wanted : List Demand) : Prop :=
  ∀ demand ∈ wanted, ∀ required, demand.2 = .pinned required → demand ∈ demands

theorem pinsIn_rangeDemands (demands : List Demand) (ranges : NameMap Constraint) :
    PinsIn demands (rangeDemands ranges) := by
  intro demand hdemand required hpinned
  obtain ⟨entry, -, rfl⟩ := List.mem_map.mp hdemand
  cases hpinned

theorem pinsIn_of_subset {demands wanted : List Demand} (h : wanted ⊆ demands) :
    PinsIn demands wanted :=
  fun _ hmem _ _ => h hmem

namespace Sources

variable {sources : Sources} {ignoreTests : Bool} {manifest : Manifest}
  {opened : List (String × Version)} {task : Task} {s : Session}

/-- Pins come from the manifest that is resolved. -/
theorem Calls.pinsIn (h : sources.Calls ignoreTests manifest opened task s) {wanted : List Demand}
    (htask : task = .all wanted) : PinsIn (rootDemands ignoreTests manifest) wanted := by
  induction h generalizing wanted with
  | runtime =>
      cases htask
      exact pinsIn_of_subset (List.subset_append_left _ _)
  | tests _ =>
      cases htask
      exact pinsIn_of_subset (List.subset_append_right _ _)
  | first _ _ _ => cases htask
  | rest _ _ _ ih =>
      cases htask
      exact fun other hother => ih rfl other (List.mem_cons_of_mem _ hother)
  | inside _ _ _ _ =>
      cases htask
      exact pinsIn_rangeDemands _ _

/-- A package is loaded in the version that is selected for a requirement, and a pin comes from the
manifest that is resolved. -/
theorem Calls.selects {name : String} {version : Version} {requirement : Requirement}
    (h : sources.Calls ignoreTests manifest opened (.one name version requirement) s) :
    sources.select name requirement = .ok version ∧
      ∀ required, requirement = .pinned required →
        (name, requirement) ∈ rootDemands ignoreTests manifest := by
  cases h with
  | first hcall hselect =>
      exact ⟨hselect, hcall.pinsIn rfl _ (List.mem_cons_self ..)⟩

/-! ## Look-ups -/

/-- A package is looked up in a call of the run. -/
def LooksUp (sources : Sources) (ignoreTests : Bool) (manifest : Manifest) (name : String)
    (version : Version) : Prop :=
  ∃ opened requirement s,
    sources.Calls ignoreTests manifest opened (.one name version requirement) s ∧
      s.Lacks (name, version)

/-- A look-up that a call has just made is a look-up in that call. -/
theorem Calls.find_mem_or_looksUp {name other : String} {version found : Version}
    {requirement : Requirement}
    (hcall : sources.Calls ignoreTests manifest opened (.one name version requirement) s)
    (hnew : s.Lacks (name, version))
    (hmem : .find other found ∈ s.calls ∨ other = name ∧ found = version) :
    .find other found ∈ s.calls ∨ sources.LooksUp ignoreTests manifest other found := by
  rcases hmem with hmem | ⟨rfl, rfl⟩
  · exact .inl hmem
  · exact .inr ⟨opened, requirement, s, hcall, hnew⟩

private theorem runInvariant_looksUp (sources : Sources) (ignoreTests : Bool)
    (manifest : Manifest) : sources.RunInvariant
    (fun name version requirement s _ t => ∀ opened,
      sources.Calls ignoreTests manifest opened (.one name version requirement) s →
        ∀ other found, .find other found ∈ t.calls →
          .find other found ∈ s.calls ∨ sources.LooksUp ignoreTests manifest other found)
    (fun demands s _ t => ∀ opened,
      sources.Calls ignoreTests manifest opened (.all demands) s →
        ∀ other found, .find other found ∈ t.calls →
          .find other found ∈ s.calls ∨ sources.LooksUp ignoreTests manifest other found) := by
  constructor
  case recalled => exact fun _ _ _ _ _ hmem => .inl hmem
  case cyclic => exact fun _ _ _ _ _ _ hmem => .inl hmem
  case unfetched =>
    intro name version requirement s error hnew _ opened hcall other found hmem
    exact hcall.find_mem_or_looksUp hnew (by simpa using hmem)
  case failed | loaded =>
    intro name version requirement s path declared result t hnew hfetch _ ih opened hcall other
      found hmem
    rcases ih _ (hcall.inside hnew hfetch) other found hmem with hmem | hlooked
    · exact hcall.find_mem_or_looksUp hnew (by simpa using hmem)
    · exact .inr hlooked
  case nil => exact fun _ _ _ _ hmem => .inl hmem
  case unselected => exact fun _ _ _ _ _ hmem => .inl (Session.find_mem_calls_askFor.mp hmem)
  case headFailed =>
    intro name requirement rest s version error t hselect _ ih opened hcall other found hmem
    exact (ih opened (hcall.first hselect) other found hmem).imp_left
      Session.find_mem_calls_askFor.mp
  case tail =>
    intro name requirement rest s version project t outcome u hselect hload ih _ ihRest opened hcall
      other found hmem
    rcases ihRest opened (hcall.rest hselect hload) other found hmem with hmem | hlooked
    · exact (ih opened (hcall.first hselect) other found hmem).imp_left
        Session.find_mem_calls_askFor.mp
    · exact .inr hlooked

/-- Whatever has been looked up when a call begins was looked up in a call. -/
theorem Calls.looksUp_of_mem {name : String} {version : Version}
    (h : sources.Calls ignoreTests manifest opened task s)
    (hasked : .find name version ∈ s.calls) :
    sources.LooksUp ignoreTests manifest name version := by
  have hinvariant := runInvariant_looksUp sources ignoreTests manifest
  induction h with
  | runtime => exact absurd hasked List.not_mem_nil
  | tests hruntime =>
      exact (hinvariant.loadAll hruntime [] .runtime name version hasked).resolve_left
        List.not_mem_nil
  | first _ _ ih => exact ih (Session.find_mem_calls_askFor.mp hasked)
  | rest hcall hselect hload ih =>
      rcases hinvariant.load hload _ (hcall.first hselect) name version hasked with hmem | hlooked
      · exact ih (Session.find_mem_calls_askFor.mp hmem)
      · exact hlooked
  | inside hcall hnew _ ih =>
      rcases hcall.find_mem_or_looksUp hnew (by simpa using hasked) with hmem | hlooked
      · exact ih hmem
      · exact hlooked

/-- **Every look-up of a run is made in one of its calls.**  The invariant is proved for each call,
and a whole run is one of them. -/
theorem looksUp_of_resolve? {path : Path} {outcome : Outcome} {name : String} {version : Version}
    (h : resolve? sources ignoreTests path manifest = some outcome)
    (hasked : .find name version ∈ outcome.calls) :
    sources.LooksUp ignoreTests manifest name version := by
  have hinvariant := runInvariant_looksUp sources ignoreTests manifest
  have htests : ∀ {dependencies t outcome u},
      sources.loadAll manifest.demands .empty = some (.ok dependencies, t) →
      sources.loadAll (if ignoreTests then [] else manifest.testDemands) t = some (outcome, u) →
      .find name version ∈ u.calls → sources.LooksUp ignoreTests manifest name version := by
    intro dependencies t outcome u hrun hrest hmem
    rcases hinvariant.loadAll hrest [] (.tests hrun) name version hmem with hmem | hlooked
    · exact (Calls.tests hrun).looksUp_of_mem hmem
    · exact hlooked
  rcases resolve?_cases h with ⟨_, _, hrun, rfl⟩ | ⟨_, _, _, _, hrun, hrest, rfl⟩ |
    ⟨_, _, _, _, hrun, hrest, rfl⟩
  · exact (hinvariant.loadAll hrun [] .runtime name version hasked).resolve_left List.not_mem_nil
  · exact htests hrun hrest hasked
  · exact htests hrun hrest hasked

end Sources

/-! ## The depth of a run -/

/-- Different packages that a repository has manifests for are no more than it has. -/
theorem Repository.length_le_ncard_held {repository : Repository}
    (hfinite : repository.held.Finite) {requests : List (String × Version)}
    (hdistinct : (requests.map packageKey).Nodup)
    (hheld : ∀ request ∈ requests, packageKey request ∈ repository.held) :
    requests.length ≤ repository.held.ncard := by
  have hsub : ((requests.map packageKey).toFinset : Set (String × Release)) ⊆
      repository.held := by
    intro key hkey
    obtain ⟨request, hmem, rfl⟩ := List.mem_map.mp (List.mem_toFinset.mp hkey)
    exact hheld request hmem
  calc requests.length
      = (requests.map packageKey).toFinset.card := by
        rw [List.toFinset_card_of_nodup hdistinct, List.length_map]
    _ = ((requests.map packageKey).toFinset : Set (String × Release)).ncard :=
        (Set.ncard_coe_finset _).symm
    _ ≤ repository.held.ncard := Set.ncard_le_ncard hsub hfinite

namespace Sources

variable {sources : Sources} {ignoreTests : Bool} {manifest : Manifest}
  {opened : List (String × Version)} {task : Task} {s : Session}

/-- A call is nested in look-ups of packages that the repository has, no two of them for the same
package. -/
theorem Calls.length_le (h : sources.Calls ignoreTests manifest opened task s)
    (hfinite : sources.repository.held.Finite) :
    opened.length ≤ sources.repository.held.ncard := by
  refine Repository.length_le_ncard_held hfinite ?_ h.held
  rw [h.opened_eq]
  exact h.sound.distinct

/-- There is room for one more look-up with success than there are around a call: what comes after
it is no deeper than there are packages. -/
theorem Calls.length_concat_le {name : String} {version : Version} {path : Path}
    (h : sources.Calls ignoreTests manifest opened task s) (hnew : s.Lacks (name, version))
    (hfind : sources.repository.find name version = some path)
    (hfinite : sources.repository.held.Finite) :
    (opened ++ [(name, version)]).length ≤ sources.repository.held.ncard := by
  refine Repository.length_le_ncard_held hfinite ?distinct fun request hmem => ?held
  case distinct =>
    rw [h.opened_eq, List.map_append, List.map_singleton, ← List.concat_eq_append]
    exact List.Nodup.concat hnew.notUnderWay h.sound.distinct
  case held =>
    rcases List.mem_append.mp hmem with hmem | hmem
    · exact h.held request hmem
    · rw [List.mem_singleton.mp hmem]
      exact Repository.mem_held hfind

/-- **No point of a run lies deeper than there are packages.**  The packages that are under way are
different ones, and the repository has a manifest for each. -/
theorem Passes.length_le (h : sources.Passes ignoreTests manifest opened s)
    (hfinite : sources.repository.held.Finite) :
    opened.length ≤ sources.repository.held.ncard := by
  cases h with
  | begins hcall => exact hcall.length_le hfinite
  | asked hcall => exact hcall.length_le hfinite
  | lookedUp hcall _ => exact hcall.length_le hfinite
  | found hcall hnew hfind => exact hcall.length_concat_le hnew hfind hfinite
  | checked hcall hnew hfetch =>
      exact hcall.length_concat_le hnew (fetch_eq_ok_iff.mp hfetch).1 hfinite
  | left hcall hnew hfetch _ =>
      exact hcall.length_concat_le hnew (fetch_eq_ok_iff.mp hfetch).1 hfinite
  | returns hcall _ => exact hcall.length_le hfinite
  | returnsAll hcall _ => exact hcall.length_le hfinite

/-! ## Ends -/

/-- A depth is enough for several packages if it is enough for each of them, whatever has been done
before with the same packages under way. -/
theorem exists_loadEach_eq_some {depth : ℕ} (hload : ∀ {t}, s.LeadsTo t → t.Sound sources →
      ∀ name version requirement, ∃ r,
        sources.loadWithin depth name version requirement t = some r)
    (hs : s.Sound sources) (demands : List Demand) :
    ∃ r, sources.loadEach (sources.loadWithin depth) demands s = some r := by
  induction demands generalizing s with
  | nil => exact ⟨_, rfl⟩
  | cons demand rest ih =>
      obtain ⟨name, requirement⟩ := demand
      have hleads := Session.LeadsTo.askFor s (name, requirement)
      cases hselect : sources.select name requirement with
      | error error => exact ⟨_, sources.loadEach_of_select_error _ rest hselect⟩
      | ok version =>
          obtain ⟨⟨outcome, t⟩, hfirst⟩ := hload hleads (hs.askFor _) name version requirement
          rw [sources.loadEach_cons _ rest hselect, hfirst]
          cases outcome with
          | error error => exact ⟨_, rfl⟩
          | ok project =>
              have hrun := sources.load_eq_some_iff.mpr ⟨depth, hfirst⟩
              have hst := hleads.trans (load_leadsTo hrun)
              -- The first package is not under way any more, so the depth is enough again.
              obtain ⟨r, hr⟩ := ih (fun htu hu => hload (hst.trans htu) hu)
                (load_sound hrun (hs.askFor _))
              exact ⟨_, Option.map_eq_some_iff.mpr ⟨r, hr, rfl⟩⟩

/-- **A depth is enough** for a package when there are no more packages than are under way and may
still be put under way.  The induction is on the depth: every package that is put under way is one
that was not under way before. -/
theorem exists_loadWithin_eq_some (hfinite : sources.repository.held.Finite) {depth : ℕ}
    (hs : s.Sound sources)
    (hheld : ∀ request ∈ s.inProgress, packageKey request ∈ sources.repository.held)
    (hdepth : sources.repository.held.ncard ≤ s.inProgress.length + depth)
    (name : String) (version : Version) (requirement : Requirement) :
    ∃ r, sources.loadWithin depth name version requirement s = some r := by
  induction depth using Nat.strong_induction_on generalizing s name version requirement with
  | _ depth ih =>
      rcases s.kept_or_closes_or_lacks (name, version) with ⟨project, hdone⟩ |
        ⟨hdone, chain, hchain⟩ | hnew
      · exact ⟨_, sources.loadWithin_of_kept? depth hdone⟩
      · exact ⟨_, sources.loadWithin_of_closedChain? depth hdone hchain⟩
      rcases hfetch : sources.fetch name version requirement with error | ⟨path, declared⟩
      · exact ⟨_, sources.loadWithin_of_fetch_error depth hnew hfetch⟩
      have hstart := hs.start hnew path declared
      have hheld' : ∀ request ∈ (s.start (name, version) path declared).inProgress,
          packageKey request ∈ sources.repository.held := by
        intro request hmem
        rw [Session.inProgress_start, List.mem_append, List.mem_singleton] at hmem
        rcases hmem with hmem | rfl
        · exact hheld request hmem
        · exact Repository.mem_held (fetch_eq_ok_iff.mp hfetch).1
      have hroom := Repository.length_le_ncard_held hfinite hstart.distinct hheld'
      rw [Session.inProgress_start, List.length_append, List.length_singleton] at hroom
      cases depth with
      -- With this package there would be more under way than there are.
      | zero => omega
      | succ depth =>
          obtain ⟨r, hr⟩ := exists_loadEach_eq_some
            (fun {t} hst ht name version requirement =>
              ih depth (Nat.lt_succ_self depth) ht (hst.inProgress ▸ hheld') (by
                rw [hst.inProgress, Session.inProgress_start, List.length_append,
                  List.length_singleton]
                omega) name version requirement)
            hstart (rangeDemands declared.dependencies)
          rw [sources.loadWithin_succ_of_fetch_ok depth hnew hfetch, hr]
          exact ⟨_, rfl⟩

/-- Every package of a run is loaded within the depth that the packages under way leave. -/
theorem Calls.exists_loadWithin_eq_some {name : String} {version : Version}
    {requirement : Requirement}
    (h : sources.Calls ignoreTests manifest opened (.one name version requirement) s)
    (hfinite : sources.repository.held.Finite) :
    ∃ r, sources.loadWithin (sources.repository.held.ncard - opened.length) name version
      requirement s = some r := by
  refine Sources.exists_loadWithin_eq_some hfinite h.sound (h.opened_eq ▸ h.held) ?_ _ _ _
  rw [h.opened_eq]
  omega

/-- Loading packages ends when nothing is under way. -/
theorem exists_loadAll_eq_some (hfinite : sources.repository.held.Finite) (hs : s.Sound sources)
    (hidle : s.inProgress = []) (demands : List Demand) :
    ∃ r, sources.loadAll demands s = some r := by
  obtain ⟨r, hr⟩ := exists_loadEach_eq_some
    (fun {t} hst ht => Sources.exists_loadWithin_eq_some hfinite ht
      (by
        rw [hst.inProgress, hidle]
        exact fun _ hmem => absurd hmem List.not_mem_nil)
      (Nat.le_add_left sources.repository.held.ncard _)) hs demands
  exact ⟨r, sources.loadAll_eq_some_iff.mpr ⟨_, hr⟩⟩

theorem exists_resolve?_eq_some (hfinite : sources.repository.held.Finite) (ignoreTests : Bool)
    (path : Path) (manifest : Manifest) :
    ∃ outcome, resolve? sources ignoreTests path manifest = some outcome := by
  obtain ⟨⟨runtime, t⟩, hruntime⟩ := exists_loadAll_eq_some hfinite (.empty sources) rfl
    manifest.demands
  cases runtime with
  | error error => exact ⟨_, resolve?_of_loadAll_error ignoreTests path hruntime⟩
  | ok dependencies =>
      obtain ⟨r, htests⟩ := exists_loadAll_eq_some hfinite
        (loadAll_sound hruntime (.empty sources)) (loadAll_leadsTo hruntime).inProgress
        (if ignoreTests then [] else manifest.testDemands)
      exact ⟨_, resolve?_of_loadAll_ok ignoreTests path hruntime htests⟩

end Sources

/-- **A run ends** when the repository has finitely many packages.  It never goes deeper than there
are packages; wherever it comes to, no package is under way twice, and none that is done is under
way; and every call that loads a package ends, within the depth that is left, with the packages
under way that it found, whether it fails or not.  That `in_progress` is restored after a failure as
well is due to the `pop` in front of the `?`. -/
theorem resolve?_ends_of_finite_held {sources : Sources}
    (hfinite : sources.repository.held.Finite) (ignoreTests : Bool) (path : Path)
    (manifest : Manifest) :
    (∃ outcome, resolve? sources ignoreTests path manifest = some outcome) ∧
    (∀ opened s, sources.Passes ignoreTests manifest opened s →
      opened.length ≤ sources.repository.held.ncard ∧
        s.underWay.Nodup ∧ s.underWay.Disjoint (doneKeys s.resolved)) ∧
    (∀ opened name version requirement s,
      sources.Calls ignoreTests manifest opened (.one name version requirement) s →
        ∃ outcome t,
          sources.loadWithin (sources.repository.held.ncard - opened.length) name version
            requirement s = some (outcome, t) ∧
          sources.load name version requirement s = some (outcome, t) ∧
          t.inProgress = s.inProgress) := by
  refine ⟨Sources.exists_resolve?_eq_some hfinite ignoreTests path manifest, ?points, ?calls⟩
  case points =>
    intro opened s hpoint
    exact ⟨hpoint.length_le hfinite, hpoint.sound.distinct, hpoint.sound.apart⟩
  case calls =>
    intro opened name version requirement s hcall
    obtain ⟨⟨outcome, t⟩, hdepth⟩ := hcall.exists_loadWithin_eq_some hfinite
    have hload := sources.load_eq_some_iff.mpr ⟨_, hdepth⟩
    exact ⟨outcome, t, hdepth, hload, (Sources.load_leadsTo hload).inProgress⟩

/-- A repository that is written down: it has one package. -/
def tableSources : Sources where
  repository := .ofTable [(("a/leaf", "1.0.0"), ⟨"leaf/elm.json"⟩)] .empty
  read _ := .error .notFound

/-- An application that is pinned to the package. -/
def tableRoot : Application where
  elmVersion := .ofNumbers 0 19 1
  sourceDirectories := ["src"]
  dependencies := ⟨.ofList [("a/leaf", .ofNumbers 1 0 0)], .empty⟩
  testDependencies := .empty
  testDirectory := none

/-- What is written down is finite, so the run that resolves an application against it ends, and
comes to the project or to an error. -/
theorem resolve?_ends_of_finite_held_tableRoot :
    tableSources.repository.held.Finite ∧
    (∃ outcome, resolve? tableSources false ⟨"elm.json"⟩ (.application tableRoot) =
      some outcome) ∧
    (∀ opened s, tableSources.Passes false (.application tableRoot) opened s →
      opened.length ≤ tableSources.repository.held.ncard ∧
        s.underWay.Nodup ∧ s.underWay.Disjoint (doneKeys s.resolved)) ∧
    (∀ opened name version requirement s,
      tableSources.Calls false (.application tableRoot) opened (.one name version requirement) s →
        ∃ outcome t,
          tableSources.loadWithin (tableSources.repository.held.ncard - opened.length) name version
            requirement s = some (outcome, t) ∧
          tableSources.load name version requirement s = some (outcome, t) ∧
          t.inProgress = s.inProgress) := by
  have hfinite : tableSources.repository.held.Finite := Repository.finite_held_ofTable _ _
  exact ⟨hfinite, resolve?_ends_of_finite_held hfinite false ⟨"elm.json"⟩ (.application tableRoot)⟩

/-! ## Runs with a cache -/

/-- With a cache every run ends, so its outcome is that of a run. -/
theorem resolve?_cache_eq_some (cache : Cache) (read : Path → Except ReadFault ByteArray)
    (ignoreTests : Bool) (path : Path) (manifest : Manifest) :
    resolve? ⟨cache.repository, read⟩ ignoreTests path manifest =
      some (resolve ⟨cache.repository, read⟩ ignoreTests path manifest) := by
  have hfinite : (Sources.mk cache.repository read).repository.held.Finite := cache.finite_held
  obtain ⟨outcome, h⟩ := Sources.exists_resolve?_eq_some hfinite ignoreTests path manifest
  rw [resolve, h, Option.getD_some]

end ElmManifest
