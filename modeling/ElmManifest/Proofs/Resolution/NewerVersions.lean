import ElmManifest.Proofs.Resolution.Failures

/-!
# Newer versions

Publishing newer versions changes no resolution.  Of the versions in a range the smallest one is
selected, so versions that are later than all others are selected only where there was nothing to
select before, and a run that comes to such a place is one that fails for want of a version.  Every
other run asks the same questions and gets answers that come to the same, although the lists of
versions among them differ.

Runs that do not end are compared by the points that they pass.  For this it is enough to compare
the two runs call by call, at calls that both of them make (`Sources.GoAlike`).

## Main Definitions

* `Sources.UpdatedTo` — the same repository with newer versions in it.
* `Unmet` — what comes of a dependency that cannot be resolved.
* `Sources.DoAlike`, `Sources.GoAlike` — calls, and runs, that come to the same.

## Main Statements

* `Sources.UpdatedTo.select` — what is selected is selected again.
* `Sources.UpdatedTo.load`, `Sources.UpdatedTo.loadAll` — a call comes to the same, unless a
  dependency could not be resolved.
* `resolve?_of_updatedTo` — so does a run, and it passes the same points, whether it ends or not.
-/

namespace ElmManifest

/-- The second repository lists the versions that the first one lists and versions that are later
than all of these, and has the same manifests for what the first one lists and for what is pinned in
the demands; the files are the same.  Of the versions that are new nothing else is asked; they need
not even have a manifest. -/
structure Sources.UpdatedTo (a b : Sources) (demands : List Demand) : Prop where
  /-- The files are the same. -/
  read : b.read = a.read
  /-- What is listed stays listed. -/
  kept : ∀ name, ∀ version ∈ (a.repository.versions name).toList,
    version ∈ (b.repository.versions name).toList
  /-- What is listed besides is later. -/
  newer : ∀ name, ∀ version ∈ (b.repository.versions name).toList,
    version ∉ (a.repository.versions name).toList →
      ∀ older ∈ (a.repository.versions name).toList, older.toRelease < version.toRelease
  /-- The manifests are the same. -/
  found : ∀ name version,
    version ∈ (a.repository.versions name).toList ∨ (name, .pinned version) ∈ demands →
      b.repository.find name version = a.repository.find name version

/-- A dependency cannot be resolved.  It is left out because a newer version may be what was
missing. -/
def Unmet {α : Type} (result : Except LoadError α) : Prop :=
  ∃ name requirement shortage, result = .error (.unresolvedDependency name requirement shortage)

theorem unmet_error_iff {α β : Type} {error : LoadError} :
    Unmet (.error error : Except LoadError α) ↔ Unmet (.error error : Except LoadError β) := by
  simp only [Unmet, Except.error.injEq]

/-- The call does not fail for a dependency that cannot be resolved, if it ends at all. -/
def Unhindered {α : Type} (call : Option (Except LoadError α × Session)) : Prop :=
  ∀ r, call = some r → ¬ Unmet r.1

theorem unhindered_iff {α : Type} {call : Option (Except LoadError α × Session)} :
    Unhindered call ↔ ∀ error t, call = some (.error error, t) →
      ¬ Unmet (.error error : Except LoadError α) := by
  refine ⟨fun h error t hr => h _ hr, fun h => ?_⟩
  rintro ⟨outcome, t⟩ hr ⟨name, requirement, shortage, hunmet⟩
  change outcome = _ at hunmet
  subst hunmet
  exact h _ t hr ⟨name, requirement, shortage, rfl⟩

namespace Unhindered

variable {call : Option (Except LoadError Project × Session)}
  {loadRest : Session → Option (Except LoadError (List Project) × Session)}

/-- The first of several packages is no hindrance if all of them are none. -/
theorem first (h : Unhindered (call.bind (withRest loadRest))) : Unhindered call := by
  refine unhindered_iff.mpr fun error t hr hunmet => ?_
  exact unhindered_iff.mp h error t (by rw [hr]; rfl) (unmet_error_iff.mp hunmet)

/-- The calls for the other demands do not fail for a dependency that cannot be resolved either,
once the first has been loaded. -/
theorem rest (h : Unhindered (call.bind (withRest loadRest))) {project : Project} {t : Session}
    (hcall : call = some (.ok project, t)) : Unhindered (loadRest t) := by
  refine unhindered_iff.mpr fun error u hr => unhindered_iff.mp h error u ?_
  rw [hcall, Option.bind_some, withRest, hr]
  rfl

/-- What a package depends on is no hindrance if the package is none. -/
theorem inside {call : Option (Except LoadError (List Project) × Session)}
    {request : String × Version} {path : Path} {declared : Package}
    (h : Unhindered (call.map fun r => r.2.conclude request path declared r.1)) :
    Unhindered call := by
  refine unhindered_iff.mpr fun error t hr hunmet => ?_
  exact unhindered_iff.mp h error t.leave (by rw [hr]; rfl) (unmet_error_iff.mp hunmet)

end Unhindered

namespace Sources

/-- A selection fails only because a dependency cannot be resolved. -/
theorem unmet_of_select_error {α : Type} {sources : Sources} {name : String}
    {requirement : Requirement} {error : LoadError}
    (h : sources.select name requirement = .error error) :
    Unmet (.error error : Except LoadError α) := by
  obtain ⟨range, -, -, rfl⟩ := exists_of_select_error h
  exact ⟨name, requirement, _, rfl⟩

/-- Fetching a package looks it up and reads a file, and nothing else. -/
theorem fetch_congr {a b : Sources} {name : String} {version : Version} (hread : b.read = a.read)
    (hfind : b.repository.find name version = a.repository.find name version)
    (requirement : Requirement) :
    b.fetch name version requirement = a.fetch name version requirement := by
  have hpackage : ∀ path, b.readPackage name path = a.readPackage name path :=
    fun path => readPackage_congr (congrFun hread path) name
  simp only [fetch, hfind, hpackage]

/-! ## Single steps -/

namespace UpdatedTo

variable {a b : Sources} {demands wanted : List Demand} {name : String} {version : Version}
  {requirement : Requirement} {s : Session}

/-- **What is selected is selected again**: it is still the smallest version in the range.  Every
new version is later than one that is in the range, or the range would have had none. -/
theorem select (h : a.UpdatedTo b demands) (hselect : a.select name requirement = .ok version) :
    b.select name requirement = .ok version := by
  cases requirement with
  | pinned required => exact hselect
  | within range =>
      have hleast := isMinimum_of_select hselect
      have hleast' : range.IsMinimum (b.repository.versions name).toList version := by
        refine ⟨h.kept name version hleast.listed, hleast.contained, fun other hother hin => ?_⟩
        by_cases hlisted : other ∈ (a.repository.versions name).toList
        · exact hleast.least other hlisted hin
        · exact le_of_lt (h.newer name other hother hlisted version hleast.listed)
      unfold Sources.select
      dsimp only
      rw [hleast'.selectMinimum_eq_some]

/-- What is selected is found again, if it is listed or pinned in the demands. -/
theorem find_of_select (h : a.UpdatedTo b demands)
    (hpins : ∀ required, requirement = .pinned required → (name, requirement) ∈ demands)
    (hselect : a.select name requirement = .ok version) :
    b.repository.find name version = a.repository.find name version := by
  cases requirement with
  | pinned required =>
      cases hselect
      exact h.found name version (.inr (hpins version rfl))
  | within range => exact h.found name version (.inl (isMinimum_of_select hselect).listed)

/-! ## Calls -/

/-- Demands are dealt with alike when single packages are, up to the first that cannot be
resolved. -/
theorem loadEach (h : a.UpdatedTo b demands)
    {load load' : String → Version → Requirement → Session →
      Option (Except LoadError Project × Session)}
    (hload : ∀ {name version requirement s},
      b.repository.find name version = a.repository.find name version →
      Unhindered (load name version requirement s) →
        load' name version requirement s = load name version requirement s)
    (hpins : PinsIn demands wanted) (hfree : Unhindered (a.loadEach load wanted s)) :
    b.loadEach load' wanted s = a.loadEach load wanted s := by
  induction wanted generalizing s with
  | nil => rfl
  | cons demand rest ih =>
      obtain ⟨name, requirement⟩ := demand
      cases hselect : a.select name requirement with
      | error error =>
          exact absurd (unmet_of_select_error hselect)
            (hfree _ (a.loadEach_of_select_error load rest hselect))
      | ok version =>
          rw [a.loadEach_cons load rest hselect] at hfree ⊢
          have hfind := h.find_of_select (hpins _ (List.mem_cons_self ..)) hselect
          rw [b.loadEach_cons load' rest (h.select hselect), hload hfind hfree.first]
          -- The others matter only after a first package that has been loaded.
          refine Option.bind_congr fun ⟨outcome, t⟩ hr => ?_
          cases outcome with
          | error error => rfl
          | ok project =>
              have hrest := ih (fun other hother => hpins other (List.mem_cons_of_mem _ hother))
                (hfree.rest hr)
              simp only [withRest, hrest]

/-- Within every depth a package comes to the same, unless a dependency cannot be resolved. -/
theorem loadWithin (h : a.UpdatedTo b demands) (depth : ℕ)
    (hfind : b.repository.find name version = a.repository.find name version)
    (hfree : Unhindered (a.loadWithin depth name version requirement s)) :
    b.loadWithin depth name version requirement s =
      a.loadWithin depth name version requirement s := by
  induction depth generalizing name version requirement s with
  | zero => rw [Sources.loadWithin, Sources.loadWithin, fetch_congr h.read hfind]
  | succ depth ih =>
      have hfetch := fetch_congr h.read hfind requirement
      rcases s.kept_or_closes_or_lacks (name, version) with ⟨project, hdone⟩ |
        ⟨hdone, chain, hchain⟩ | hnew
      · rw [b.loadWithin_of_kept? _ hdone, a.loadWithin_of_kept? _ hdone]
      · rw [b.loadWithin_of_closedChain? _ hdone hchain,
          a.loadWithin_of_closedChain? _ hdone hchain]
      rcases hfetched : a.fetch name version requirement with error | ⟨path, declared⟩
      · rw [b.loadWithin_of_fetch_error _ hnew (hfetch.trans hfetched),
          a.loadWithin_of_fetch_error _ hnew hfetched]
      rw [b.loadWithin_succ_of_fetch_ok _ hnew (hfetch.trans hfetched)]
      rw [a.loadWithin_succ_of_fetch_ok _ hnew hfetched] at hfree ⊢
      rw [h.loadEach ih (pinsIn_rangeDemands _ _) hfree.inside]

/-- **A package comes to the same**, unless a dependency cannot be resolved.  The induction is on
the depth, and the sessions of both runs are the same all the way. -/
theorem load (h : a.UpdatedTo b demands)
    (hfind : b.repository.find name version = a.repository.find name version)
    (hfree : Unhindered (a.load name version requirement s)) :
    b.load name version requirement s = a.load name version requirement s := by
  unfold Sources.load
  congr 1
  funext depth
  exact h.loadWithin depth hfind fun r hr => hfree r (a.load_eq_some_iff.mpr ⟨depth, hr⟩)

/-- Several packages come to the same, unless a dependency cannot be resolved. -/
theorem loadAll (h : a.UpdatedTo b demands) (hpins : PinsIn demands wanted)
    (hfree : Unhindered (a.loadAll wanted s)) : b.loadAll wanted s = a.loadAll wanted s := by
  unfold Sources.loadAll
  congr 1
  funext depth
  exact h.loadEach (h.loadWithin depth) hpins fun r hr =>
    hfree r (a.loadAll_eq_some_iff.mpr ⟨depth, hr⟩)

end UpdatedTo

/-! ## Runs -/

/-- The call comes to the same: the same version is selected, the same manifest is found, and what
comes of the whole call is the same. -/
def DoAlike (a b : Sources) : Task → Session → Prop
  | .one name version requirement, s =>
    b.repository.find name version = a.repository.find name version ∧
      b.load name version requirement s = a.load name version requirement s
  | .all demands, s =>
    (∀ demand ∈ demands.head?, b.select demand.1 demand.2 = a.select demand.1 demand.2) ∧
      b.loadAll demands s = a.loadAll demands s

theorem DoAlike.symm {a b : Sources} {task : Task} {s : Session} (h : a.DoAlike b task s) :
    b.DoAlike a task s := by
  cases task with
  | one name version requirement => exact ⟨h.1.symm, h.2.symm⟩
  | all demands => exact ⟨fun demand hdemand => (h.1 demand hdemand).symm, h.2.symm⟩

/-- With the same files, every call that is made in both runs comes to the same. -/
structure GoAlike (a b : Sources) (ignoreTests : Bool) (manifest : Manifest) : Prop where
  /-- The files are the same. -/
  read : b.read = a.read
  /-- Calls come to the same. -/
  alike : ∀ {opened task s}, a.Calls ignoreTests manifest opened task s →
    b.Calls ignoreTests manifest opened task s → a.DoAlike b task s

namespace GoAlike

variable {a b : Sources} {ignoreTests : Bool} {manifest : Manifest}
  {opened : List (String × Version)} {task : Task} {s : Session}

theorem symm (h : a.GoAlike b ignoreTests manifest) : b.GoAlike a ignoreTests manifest :=
  ⟨h.read.symm, fun hb ha => (h.alike ha hb).symm⟩

/-- **Runs that go alike make the same calls.**  The call that makes a call is one of both runs, so
it comes to the same in them. -/
theorem calls (h : a.GoAlike b ignoreTests manifest)
    (hcall : a.Calls ignoreTests manifest opened task s) :
    b.Calls ignoreTests manifest opened task s := by
  induction hcall with
  | runtime => exact .runtime
  | tests hruntime => exact .tests ((h.alike .runtime .runtime).2.trans hruntime)
  | first hcall hselect ih => exact .first ih (((h.alike hcall ih).1 _ rfl).trans hselect)
  | rest hcall hselect hload ih =>
      have hselect' := ((h.alike hcall ih).1 _ rfl).trans hselect
      have hone := h.alike (hcall.first hselect) (ih.first hselect')
      exact .rest ih hselect' (hone.2.trans hload)
  | inside hcall hnew hfetch ih =>
      have hfind := (h.alike hcall ih).1
      exact .inside ih hnew ((fetch_congr h.read hfind _).trans hfetch)

/-- Runs that go alike pass the same points. -/
theorem passes (h : a.GoAlike b ignoreTests manifest)
    (hpoint : a.Passes ignoreTests manifest opened s) :
    b.Passes ignoreTests manifest opened s := by
  cases hpoint with
  | begins hcall => exact .begins (h.calls hcall)
  | asked hcall => exact .asked (h.calls hcall)
  | lookedUp hcall hnew => exact .lookedUp (h.calls hcall) hnew
  | found hcall hnew hfind =>
      exact .found (h.calls hcall) hnew ((h.alike hcall (h.calls hcall)).1.trans hfind)
  | checked hcall hnew hfetch =>
      have hfind := (h.alike hcall (h.calls hcall)).1
      exact .checked (h.calls hcall) hnew ((fetch_congr h.read hfind _).trans hfetch)
  | left hcall hnew hfetch hinside =>
      have hfind := (h.alike hcall (h.calls hcall)).1
      have hall := hcall.inside hnew hfetch
      exact .left (h.calls hcall) hnew ((fetch_congr h.read hfind _).trans hfetch)
        ((h.alike hall (h.calls hall)).2.trans hinside)
  | returns hcall hload =>
      exact .returns (h.calls hcall) ((h.alike hcall (h.calls hcall)).2.trans hload)
  | returnsAll hcall hload =>
      exact .returnsAll (h.calls hcall) ((h.alike hcall (h.calls hcall)).2.trans hload)

/-- Runs that go alike have the same outcome, or both have none. -/
theorem resolve?_eq (h : a.GoAlike b ignoreTests manifest) (path : Path) :
    resolve? b ignoreTests path manifest = resolve? a ignoreTests path manifest := by
  have hruntime := (h.alike .runtime .runtime).2
  rw [resolve?, resolve?, loadManifest, loadManifest, hruntime]
  rcases hrun : a.loadAll manifest.demands .empty with _ | ⟨error | dependencies, t⟩
  · rfl
  · rfl
  · have htests := (h.alike (.tests hrun) (.tests (hruntime.trans hrun))).2
    simp only [Option.bind_eq_bind, Option.bind_some, htests]

end GoAlike

end Sources

/-! ## Updates and runs -/

namespace Sources

variable {a b : Sources} {ignoreTests : Bool} {path : Path} {manifest : Manifest}
  {opened : List (String × Version)} {task : Task} {s : Session}

/-- In a run that does not fail for a dependency that cannot be resolved, no call does. -/
theorem Calls.not_unmet (hcall : a.Calls ignoreTests manifest opened task s)
    (hmet : ∀ outcome, resolve? a ignoreTests path manifest = some outcome →
      ¬ Unmet outcome.result) {error : LoadError} {t : Session} (h : a.Fails task s error t) :
    ¬ Unmet (.error error : Except LoadError Project) :=
  hmet _ (hcall.resolve?_of_fails h path)

theorem UpdatedTo.goAlike (h : a.UpdatedTo b (rootDemands ignoreTests manifest))
    (hmet : ∀ outcome, resolve? a ignoreTests path manifest = some outcome →
      ¬ Unmet outcome.result) : a.GoAlike b ignoreTests manifest := by
  refine ⟨h.read, fun {opened task s} hcall _ => ?_⟩
  cases task with
  | one name version requirement =>
      obtain ⟨hselect, hpins⟩ := hcall.selects
      have hfind := h.find_of_select hpins hselect
      exact ⟨hfind, h.load hfind (unhindered_iff.mpr fun _ _ hr => hcall.not_unmet hmet hr)⟩
  | all demands =>
      refine ⟨?selects, h.loadAll (hcall.pinsIn rfl) ?free⟩
      case selects =>
        rintro ⟨name, requirement⟩ hhead
        obtain ⟨rest, rfl⟩ := List.head?_eq_some_iff.mp hhead
        cases hselect : a.select name requirement with
        | error error =>
            exact absurd (unmet_of_select_error hselect)
              (hcall.not_unmet hmet (a.loadAll_of_select_error rest s hselect))
        | ok version => exact h.select hselect
      case free =>
        refine unhindered_iff.mpr fun error t hr hunmet => ?_
        exact hcall.not_unmet hmet hr (unmet_error_iff.mp hunmet)

end Sources

/-- **Newer versions change no resolution** that does not fail for a dependency which cannot be
resolved: against a repository to which only later versions have been added, the run has the same
outcome, with the same questions and warnings, and if it does not end, it passes the same points.
The reason is that `select_minimum` takes the smallest version in a range, and what comes behind it
plays no part. -/
theorem resolve?_of_updatedTo {a b : Sources} {ignoreTests : Bool} {path : Path}
    {manifest : Manifest} (h : a.UpdatedTo b (rootDemands ignoreTests manifest))
    (hmet : ∀ outcome, resolve? a ignoreTests path manifest = some outcome →
      ¬ Unmet outcome.result) :
    resolve? b ignoreTests path manifest = resolve? a ignoreTests path manifest ∧
      ∀ opened s, b.Passes ignoreTests manifest opened s ↔
        a.Passes ignoreTests manifest opened s :=
  have halike := h.goAlike hmet
  ⟨halike.resolve?_eq path, fun _ _ => ⟨halike.symm.passes, halike.passes⟩⟩

/-- A newer version of the package without dependencies. -/
def newerLeafVersion : Version := .ofNumbers 1 1 0

/-- The repository that has the package, after the newer version has been listed in front of the
older one, and without a manifest. -/
def newerLeafSources : Sources where
  repository := ⟨fun _ version => if version = newerLeafVersion then none
    else some ⟨"leaf/elm.json"⟩, fun _ => .ofList [newerLeafVersion, leafVersion]⟩
  read := leafSources.read

/-- The newer version is listed, and in the range that the root accepts, and the run does not
notice: it asks and finds what it did before. -/
theorem resolve?_of_updatedTo_leafRoot :
    let outcome : Outcome := ⟨.ok ⟨⟨"elm.json"⟩, .package leafRoot, [leafProject], []⟩,
      [.versions "a/leaf", .find "a/leaf" leafVersion], []⟩
    leafSources.UpdatedTo newerLeafSources (rootDemands true (.package leafRoot)) ∧
      leafRange.contains newerLeafVersion = true ∧
      (∀ other, resolve? leafSources true ⟨"elm.json"⟩ (.package leafRoot) = some other →
        ¬ Unmet other.result) ∧
      resolve? newerLeafSources true ⟨"elm.json"⟩ (.package leafRoot) = some outcome ∧
      ∀ opened s, newerLeafSources.Passes true (.package leafRoot) opened s ↔
        leafSources.Passes true (.package leafRoot) opened s := by
  intro outcome
  have hlisted : ∀ name, (leafSources.repository.versions name).toList = [leafVersion] :=
    fun _ => rfl
  have hlisted' : ∀ name, (newerLeafSources.repository.versions name).toList =
      [leafVersion, newerLeafVersion] := fun _ => rfl
  have hupdate : leafSources.UpdatedTo newerLeafSources (rootDemands true (.package leafRoot)) := by
    refine ⟨rfl, fun name version hmem => ?_, fun name version hmem hnew older holder => ?_,
      fun name version hmem => ?_⟩
    · rw [hlisted, List.mem_singleton] at hmem
      rw [hlisted', hmem]
      exact List.mem_cons_self ..
    · rw [hlisted] at hnew holder
      rw [hlisted'] at hmem
      rcases List.mem_cons.mp hmem with rfl | hmem
      · exact absurd (List.mem_singleton_self _) hnew
      · rw [List.mem_singleton.mp hmem, List.mem_singleton.mp holder]
        decide
    · rcases hmem with hmem | hmem
      · rw [hlisted, List.mem_singleton] at hmem
        rw [hmem]
        rfl
      · cases List.mem_singleton.mp hmem
  have hmet : ∀ other, resolve? leafSources true ⟨"elm.json"⟩ (.package leafRoot) = some other →
      ¬ Unmet other.result := by
    rintro other hother ⟨_, _, _, hunmet⟩
    rw [← Option.some.inj (resolve?_leafRoot.symm.trans hother)] at hunmet
    cases hunmet
  obtain ⟨hsame, hpasses⟩ := resolve?_of_updatedTo hupdate hmet
  exact ⟨hupdate, by decide, hmet, hsame.trans resolve?_leafRoot, hpasses⟩

end ElmManifest
