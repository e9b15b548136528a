import ElmManifest.Proofs.Resolution.Sharing
import ElmManifest.Proofs.Resolution.Termination
import ElmManifest.Proofs.Version.Reading

/-!
# Tags of versions

Versions that differ in their tags only are the same version, and a run treats them so wherever it
compares packages: in what it keeps, in the packages under way, and in what it selects.  The one
place where a tag decides anything is the look-up, which asks the repository for the version as it
is spelled.  A cache keeps a package below its spelled version, so it may have a package in one
spelling and not in the other, and then applications that are the same come to different ends.
Where the repository gives the same answer for both spellings of every pin, they come to the same
end; for a cache this means that each pin is spelled alike, or is found in neither spelling.

Two runs are compared step by step, in sessions where what is kept for a package is the same and the
packages under way are the same, however they are spelled.  Only the pins of the root are spelled
differently in the two runs; below them versions are selected, and the same ones.

## Main Definitions

* `Session.SameKeys` — sessions that differ in the spelling of versions only.
* `Sources.SpelledAlike` — demands for one package in spellings that lead to one manifest.
* `SameVerdict` — two runs fail, or two runs succeed with projects that are the same.

## Main Statements

* `Sources.exists_loadAll_of_spelledAlike` — what is loaded does not depend on the spelling.
* `Cache.find_eq_find_iff` — a cache tells two spellings apart wherever it finds one of them.
* `rel_resolve?_of_sameDeclaration`, `resolve_of_sameDeclaration` — applications that are the same
  are resolved alike, if the repository, or the cache, finds alike what they are pinned to.
* `tag_decides` — otherwise one may be resolved and the other not.
-/

namespace ElmManifest

/-! ## Sessions -/

/-- The same packages are under way, and for every package the same result is kept or none. -/
structure Session.SameKeys (s t : Session) : Prop where
  /-- The packages under way are the same. -/
  underWay : t.underWay = s.underWay
  /-- What is kept is the same. -/
  kept : ∀ request, kept? t.resolved request = kept? s.resolved request

namespace Session.SameKeys

variable {s t : Session} {request request' : String × Version}

theorem refl (s : Session) : s.SameKeys s :=
  ⟨rfl, fun _ => rfl⟩

theorem askFor (h : s.SameKeys t) (demand demand' : Demand) :
    (s.askFor demand).SameKeys (t.askFor demand') := by
  refine ⟨?_, fun request => ?_⟩
  · rw [Session.underWay, Session.underWay, inProgress_askFor, inProgress_askFor]
    exact h.underWay
  · rw [resolved_askFor, resolved_askFor]
    exact h.kept request

/-- What is kept for a package is the same in both spellings. -/
theorem kept?_eq (h : s.SameKeys t) (hkey : packageKey request' = packageKey request) :
    kept? t.resolved request' = kept? s.resolved request :=
  (kept?_congr t.resolved hkey).trans (h.kept request)

/-- A package that is new in one session is new in the other. -/
theorem lacks (h : s.SameKeys t) (hkey : packageKey request' = packageKey request)
    (hnew : s.Lacks request) : t.Lacks request' := by
  refine ⟨?_, ?_⟩
  · rw [← kept?_eq_none_iff, h.kept?_eq hkey]
    exact kept?_eq_none_iff.mpr hnew.notDone
  · rw [hkey, h.underWay]
    exact hnew.notUnderWay

/-- A package that closes a cycle in one session closes one in the other. -/
theorem exists_closedChain? (h : s.SameKeys t) (hkey : packageKey request' = packageKey request)
    {chain : List (String × Version)} (hchain : closedChain? s.inProgress request = some chain) :
    ∃ chain', closedChain? t.inProgress request' = some chain' := by
  rw [← Option.ne_none_iff_exists']
  intro hnone
  have hway : packageKey request' ∉ t.underWay := closedChain?_eq_none_iff.mp hnone
  rw [hkey, h.underWay] at hway
  rw [closedChain?_eq_none_iff.mpr hway] at hchain
  cases hchain

theorem start (h : s.SameKeys t) (hkey : packageKey request' = packageKey request) (path : Path)
    (declared : Package) :
    (s.start request path declared).SameKeys (t.start request' path declared) := by
  refine ⟨?_, fun other => ?_⟩
  · have hway := h.underWay
    rw [Session.underWay, Session.underWay] at hway ⊢
    rw [inProgress_start, inProgress_start, List.map_append, List.map_append, hway]
    exact congrArg (_ ++ [·]) hkey
  · rw [resolved_start, resolved_start]
    exact h.kept other

theorem leave (h : s.SameKeys t) : s.leave.SameKeys t.leave := by
  refine ⟨?_, h.kept⟩
  have hway := h.underWay
  rw [Session.underWay, Session.underWay] at hway ⊢
  rw [inProgress_leave, inProgress_leave, List.map_dropLast, List.map_dropLast, hway]

theorem finish (h : s.SameKeys t) (hkey : packageKey request' = packageKey request)
    (project : Project) : (s.finish request project).SameKeys (t.finish request' project) := by
  refine ⟨h.underWay, fun other => ?_⟩
  rw [resolved_finish, resolved_finish, kept?_cons, kept?_cons, hkey, h.kept other]

end Session.SameKeys

/-- Two calls fail, or they come to the same in sessions that differ in the spelling of versions
only. -/
inductive EndAlike {α : Type} : Except LoadError α × Session → Except LoadError α × Session → Prop
    where
  | failed {error error' : LoadError} {s t : Session} :
      EndAlike (.error error, s) (.error error', t)
  | loaded {a : α} {s t : Session} (h : s.SameKeys t) : EndAlike (.ok a, s) (.ok a, t)

/-! ## Demands -/

namespace Sources

variable {sources : Sources} {name : String} {version version' : Version}
  {requirement requirement' : Requirement}

/-- Two demands that are the same, or pins of one version for whose spellings the repository finds
the same manifest or none.  A pin that is found under neither spelling fails under both, with
different words. -/
inductive SpelledAlike (sources : Sources) : Demand → Demand → Prop where
  | refl (demand : Demand) : SpelledAlike sources demand demand
  | pinned {name : String} {version version' : Version} (hrelease : version.SameRelease version')
      (hfind : sources.repository.find name version' = sources.repository.find name version) :
      SpelledAlike sources (name, .pinned version) (name, .pinned version')

theorem SpelledAlike.symm {demand demand' : Demand} (h : sources.SpelledAlike demand demand') :
    sources.SpelledAlike demand' demand := by
  cases h with
  | refl => exact .refl demand
  | pinned hrelease hfind => exact .pinned hrelease.symm hfind.symm

/-- A demand that no version meets fails in both spellings. -/
theorem SpelledAlike.select_error {demand' : Demand} {error : LoadError}
    (h : sources.SpelledAlike (name, requirement) demand')
    (hselect : sources.select name requirement = .error error) :
    demand' = (name, requirement) := by
  cases h with
  | refl => rfl
  | pinned _ _ => cases hselect

/-- In both spellings one version is selected, and the same manifest is found for it. -/
theorem SpelledAlike.exists_select {demand' : Demand}
    (h : sources.SpelledAlike (name, requirement) demand')
    (hselect : sources.select name requirement = .ok version) :
    ∃ requirement' version', demand' = (name, requirement') ∧
      sources.select name requirement' = .ok version' ∧
      packageKey (name, version') = packageKey (name, version) ∧
      sources.repository.find name version' = sources.repository.find name version := by
  cases h with
  | refl => exact ⟨requirement, version, rfl, hselect, rfl, rfl⟩
  | @pinned _ required required' hrelease hfind =>
      cases hselect
      refine ⟨.pinned required', required', rfl, rfl, ?_, hfind⟩
      rw [packageKey, packageKey, hrelease]

/-- What is fetched does not depend on the spelling when what is found does not. -/
theorem fetch_eq_ok_of_find
    (hfind : sources.repository.find name version' = sources.repository.find name version)
    {path : Path} {declared : Package}
    (h : sources.fetch name version requirement = .ok (path, declared)) :
    sources.fetch name version' requirement' = .ok (path, declared) := by
  rw [fetch_eq_ok_iff, hfind]
  exact fetch_eq_ok_iff.mp h

theorem exists_fetch_error_of_find
    (hfind : sources.repository.find name version' = sources.repository.find name version)
    {error : LoadError} (h : sources.fetch name version requirement = .error error) :
    ∃ error', sources.fetch name version' requirement' = .error error' := by
  cases hfetch : sources.fetch name version' requirement' with
  | error error' => exact ⟨error', rfl⟩
  | ok found =>
      rw [fetch_eq_ok_of_find hfind.symm hfetch] at h
      cases h

/-! ## Calls -/

private theorem runInvariant_spelledAlike (sources : Sources) : sources.RunInvariant
    (fun name version _ s outcome t => ∀ version' requirement' s',
      packageKey (name, version') = packageKey (name, version) →
      sources.repository.find name version' = sources.repository.find name version →
      s.SameKeys s' → ∃ r, sources.load name version' requirement' s' = some r ∧
        EndAlike (outcome, t) r)
    (fun demands s outcome t => ∀ demands' s',
      List.Forall₂ sources.SpelledAlike demands demands' → s.SameKeys s' →
        ∃ r, sources.loadAll demands' s' = some r ∧ EndAlike (outcome, t) r) := by
  constructor
  case recalled =>
    intro name version requirement s project hdone version' requirement' s' hkey _ hs
    rw [← hs.kept?_eq hkey] at hdone
    exact ⟨_, sources.load_of_kept? requirement' hdone, .loaded hs⟩
  case cyclic =>
    intro name version requirement s chain hdone hchain version' requirement' s' hkey _ hs
    rw [← hs.kept?_eq hkey] at hdone
    -- The second run spells the chain in its own way, so the two errors need not be equal.
    obtain ⟨chain', hchain'⟩ := hs.exists_closedChain? hkey hchain
    exact ⟨_, sources.load_of_closedChain? requirement' hdone hchain', .failed⟩
  case unfetched =>
    intro name version requirement s error hnew hfetch version' requirement' s' hkey hfind hs
    obtain ⟨error', hfetch'⟩ := exists_fetch_error_of_find hfind hfetch
    exact ⟨_, sources.load_of_fetch_error (hs.lacks hkey hnew) hfetch', .failed⟩
  case failed =>
    intro name version requirement s path declared error t hnew hfetch _ ih version' requirement' s'
      hkey hfind hs
    -- Below a package there are ranges only, and both runs have the same ones.
    obtain ⟨⟨outcome', t'⟩, hrun', hend⟩ := ih _ _ (List.forall₂_same.mpr fun _ _ => .refl _)
      (hs.start hkey path declared)
    cases hend with
    | @failed _ error' =>
      refine ⟨(.error error', t'.leave), ?_, .failed⟩
      rw [sources.load_of_fetch_ok (hs.lacks hkey hnew) (fetch_eq_ok_of_find hfind hfetch), hrun']
      rfl
  case loaded =>
    intro name version requirement s path declared dependencies t hnew hfetch _ ih version'
      requirement' s' hkey hfind hs
    obtain ⟨⟨outcome', t'⟩, hrun', hend⟩ := ih _ _ (List.forall₂_same.mpr fun _ _ => .refl _)
      (hs.start hkey path declared)
    cases hend with
    | loaded ht =>
      refine ⟨_, ?_, .loaded (ht.leave.finish hkey _)⟩
      rw [sources.load_of_fetch_ok (hs.lacks hkey hnew) (fetch_eq_ok_of_find hfind hfetch), hrun']
      rfl
  case nil =>
    intro s demands' s' hdemands hs
    cases hdemands
    exact ⟨_, sources.loadAll_nil s', .loaded hs⟩
  case unselected =>
    intro name requirement rest s error hselect demands' s' hdemands hs
    cases hdemands with
    | cons hdemand _ =>
      -- A pin is always selected, so the demand is a range and the same in both runs.
      cases hdemand.select_error hselect
      exact ⟨_, sources.loadAll_of_select_error _ s' hselect, .failed⟩
  case headFailed =>
    intro name requirement rest s version error t hselect _ ih demands' s' hdemands hs
    cases hdemands with
    | cons hdemand _ =>
      obtain ⟨requirement', version', rfl, hselect', hkey, hfind⟩ := hdemand.exists_select hselect
      obtain ⟨⟨outcome', t'⟩, hload', hend⟩ := ih version' requirement' _ hkey hfind
        (hs.askFor _ (name, requirement'))
      cases hend
      exact ⟨_, sources.loadAll_of_load_error _ hselect' hload', .failed⟩
  case tail =>
    intro name requirement rest s version project t outcome u hselect _ ih _ ihRest demands' s'
      hdemands hs
    cases hdemands with
    | @cons _ _ _ rest' hdemand hrest =>
      obtain ⟨requirement', version', rfl, hselect', hkey, hfind⟩ := hdemand.exists_select hselect
      obtain ⟨⟨outcome', t'⟩, hload', hend⟩ := ih version' requirement' _ hkey hfind
        (hs.askFor _ (name, requirement'))
      cases hend with
      | loaded ht =>
        obtain ⟨⟨others', u'⟩, hothers', hend'⟩ := ihRest rest' t' hrest ht
        refine ⟨(others'.map (project :: ·), u'), ?_, ?_⟩
        · rw [sources.loadAll_of_load_ok rest' hselect' hload', hothers']
          rfl
        · cases hend' with
          | failed => exact .failed
          | loaded hu => exact .loaded hu

/-- **What is loaded for demands does not depend on how they are spelled**, as long as the spellings
lead to the same manifests.  The sessions differ in how versions are spelled, and neither what is
kept nor what is under way is told by the spelling. -/
theorem exists_loadAll_of_spelledAlike {demands demands' : List Demand} {s t s' : Session}
    {outcome : Except LoadError (List Project)}
    (h : sources.loadAll demands s = some (outcome, t))
    (hdemands : List.Forall₂ sources.SpelledAlike demands demands') (hs : s.SameKeys s') :
    ∃ r, sources.loadAll demands' s' = some r ∧ EndAlike (outcome, t) r :=
  (runInvariant_spelledAlike sources).loadAll h demands' s' hdemands hs

end Sources

/-! ## Projects that are the same -/

theorem Declaration.same_refl (d : Declaration) : d.same d = true := by
  cases d with
  | application declared => exact decide_eq_true ⟨rfl, rfl, rfl, rfl, rfl⟩
  | package declared => exact decide_eq_true ⟨rfl, rfl, rfl, rfl, rfl, rfl, rfl, rfl⟩

mutual

theorem Project.same_refl : ∀ p : Project, p.same p = true
  | ⟨path, declaration, dependencies, tests⟩ => by
    rw [Project.same, Declaration.same_refl, Project.sameAll_refl dependencies,
      Project.sameAll_refl tests]
    simp [Path.SamePlace]

theorem Project.sameAll_refl : ∀ ps : List Project, Project.sameAll ps ps = true
  | [] => rfl
  | p :: ps => by
    rw [Project.sameAll, Project.same_refl p, Project.sameAll_refl ps]
    rfl

end

/-- Projects that differ in what they declare are the same if the declarations are. -/
theorem Project.same_of_declaration {declaration declaration' : Declaration}
    (h : declaration.same declaration' = true) (path : Path) (dependencies tests : List Project) :
    Project.same ⟨path, declaration, dependencies, tests⟩
      ⟨path, declaration', dependencies, tests⟩ = true := by
  rw [Project.same, h, Project.sameAll_refl, Project.sameAll_refl]
  simp [Path.SamePlace]

/-- Both fail, or both succeed with projects that are the same. -/
inductive SameVerdict : Except LoadError Project → Except LoadError Project → Prop where
  | failed {error error' : LoadError} : SameVerdict (.error error) (.error error')
  | loaded {p q : Project} (h : p.same q = true) : SameVerdict (.ok p) (.ok q)

/-! ## Whole runs -/

section Root

variable {sources : Sources} {ignoreTests : Bool} {path : Path}

/-- Manifests that declare the same are resolved alike when their demands lead to the same
manifests. -/
theorem exists_resolve?_of_spelledAlike {manifest manifest' : Manifest} {outcome : Outcome}
    (hdeclaration : manifest.declaration.same manifest'.declaration = true)
    (hdemands : List.Forall₂ sources.SpelledAlike manifest.demands manifest'.demands)
    (htests : List.Forall₂ sources.SpelledAlike (if ignoreTests then [] else manifest.testDemands)
      (if ignoreTests then [] else manifest'.testDemands))
    (h : resolve? sources ignoreTests path manifest = some outcome) :
    ∃ outcome', resolve? sources ignoreTests path manifest' = some outcome' ∧
      SameVerdict outcome.result outcome'.result := by
  rcases resolve?_cases h with ⟨error, t, hrun, rfl⟩ |
    ⟨dependencies, t, error, u, hrun, hrest, rfl⟩ | ⟨dependencies, t, tests, u, hrun, hrest, rfl⟩
  · obtain ⟨⟨_, t'⟩, hrun', hend⟩ := Sources.exists_loadAll_of_spelledAlike hrun hdemands (.refl _)
    cases hend
    exact ⟨_, resolve?_of_loadAll_error ignoreTests path hrun', .failed⟩
  · obtain ⟨⟨_, t'⟩, hrun', hend⟩ := Sources.exists_loadAll_of_spelledAlike hrun hdemands (.refl _)
    cases hend with
    | loaded ht =>
      obtain ⟨⟨_, u'⟩, hrest', hend'⟩ := Sources.exists_loadAll_of_spelledAlike hrest htests ht
      cases hend'
      exact ⟨_, resolve?_of_loadAll_ok ignoreTests path hrun' hrest', .failed⟩
  · obtain ⟨⟨_, t'⟩, hrun', hend⟩ := Sources.exists_loadAll_of_spelledAlike hrun hdemands (.refl _)
    cases hend with
    | loaded ht =>
      obtain ⟨⟨_, u'⟩, hrest', hend'⟩ := Sources.exists_loadAll_of_spelledAlike hrest htests ht
      cases hend'
      exact ⟨_, resolve?_of_loadAll_ok ignoreTests path hrun' hrest',
        .loaded (Project.same_of_declaration hdeclaration path dependencies tests)⟩

end Root

/-! ## Applications that are the same -/

theorem Application.SameDeclaration.symm {a b : Application} (h : a.SameDeclaration b) :
    b.SameDeclaration a :=
  ⟨h.1.symm, h.2.1.symm, h.2.2.1.symm, h.2.2.2.1.symm, h.2.2.2.2.symm⟩

/-- Two pins of one package to one version. -/
def SamePin (demand demand' : Demand) : Prop :=
  ∃ name version version', demand = (name, .pinned version) ∧ demand' = (name, .pinned version') ∧
    version.SameRelease version'

/-- Maps with the same releases under the same names have the same names in the same order. -/
theorem forall₂_of_map_eq {m n : NameMap Version}
    (h : m.map Version.toRelease = n.map Version.toRelease) :
    List.Forall₂ (fun a b => a.1 = b.1 ∧ a.2.SameRelease b.2) m.toList n.toList := by
  have hlists : List.Forall₂ (· = ·) (m.toList.map fun a => (a.1, a.2.toRelease))
      (n.toList.map fun b => (b.1, b.2.toRelease)) := by
    rw [List.forall₂_eq_eq_eq]
    exact congrArg NameMap.toList h
  rw [List.forall₂_map_left_iff, List.forall₂_map_right_iff] at hlists
  exact hlists.imp fun a b hab => Prod.mk.inj hab

theorem forall₂_samePin {d e : ExactDependencies} (h : d.pins = e.pins) :
    List.Forall₂ SamePin (pinDemands d) (pinDemands e) := by
  obtain ⟨hdirect, hindirect⟩ := Prod.mk.inj h
  have hpins := List.rel_append (forall₂_of_map_eq hdirect) (forall₂_of_map_eq hindirect)
  rw [pinDemands, pinDemands, List.forall₂_map_left_iff, List.forall₂_map_right_iff]
  refine hpins.imp fun a b hab => ?_
  obtain ⟨name, version⟩ := a
  obtain ⟨name', version'⟩ := b
  obtain ⟨rfl, hrelease⟩ := hab
  exact ⟨name, version, version', rfl, rfl, hrelease⟩

namespace Sources

variable {sources : Sources} {demands demands' : List Demand}

/-- Pins of the same versions lead to the same manifests if the repository finds the same place by
place. -/
theorem forall₂_spelledAlike (h : List.Forall₂ SamePin demands demands')
    (hfind : ∀ name version version',
      ((name, .pinned version), (name, .pinned version')) ∈ demands.zip demands' →
        sources.repository.find name version' = sources.repository.find name version) :
    List.Forall₂ sources.SpelledAlike demands demands' := by
  refine List.forall₂_iff_zip.mpr ⟨h.length_eq, fun hmem => ?_⟩
  obtain ⟨name, version, version', rfl, rfl, hrelease⟩ := List.forall₂_zip h hmem
  exact .pinned hrelease (hfind name version version' hmem)

end Sources

/-- Applications that are the same are resolved alike by any repository that answers alike for both
spellings of every pin, with one manifest or with none: both runs fail, or both succeed with
projects that are the same, or neither of them ends.  A repository is free to keep one manifest for
all spellings of a version; a cache of files is not such a repository. -/
theorem rel_resolve?_of_sameDeclaration {sources : Sources} {ignoreTests : Bool} {path : Path}
    {a b : Application} (h : a.SameDeclaration b)
    (hfind : ∀ name version version', ((name, .pinned version), (name, .pinned version')) ∈
      (rootDemands ignoreTests (.application a)).zip (rootDemands ignoreTests (.application b)) →
        sources.repository.find name version' = sources.repository.find name version) :
    Option.Rel (fun x y => SameVerdict x.result y.result)
      (resolve? sources ignoreTests path (.application a))
      (resolve? sources ignoreTests path (.application b)) := by
  have hpins : List.Forall₂ SamePin (Manifest.application a).demands
      (Manifest.application b).demands := forall₂_samePin h.2.2.1
  have htestPins : List.Forall₂ SamePin
      (if ignoreTests then [] else (Manifest.application a).testDemands)
      (if ignoreTests then [] else (Manifest.application b).testDemands) := by
    split
    · exact .nil
    · exact forall₂_samePin h.2.2.2.1
  rw [rootDemands, rootDemands, List.zip_append hpins.length_eq] at hfind
  have hdemands : List.Forall₂ sources.SpelledAlike _ _ := Sources.forall₂_spelledAlike hpins
    fun name version version' hmem => hfind name version version' (List.mem_append_left _ hmem)
  have htests : List.Forall₂ sources.SpelledAlike _ _ := Sources.forall₂_spelledAlike htestPins
    fun name version version' hmem => hfind name version version' (List.mem_append_right _ hmem)
  have hsame : (Manifest.application a).declaration.same (Manifest.application b).declaration =
      true := decide_eq_true h
  have hsame' : (Manifest.application b).declaration.same (Manifest.application a).declaration =
      true := decide_eq_true h.symm
  -- Neither run is the first one: what is said of one against the other is said both ways.
  refine rel_of_exists (fun x hx => ?_) fun y hy => ?_
  · exact exists_resolve?_of_spelledAlike hsame hdemands htests hx
  · obtain ⟨x, hx, -⟩ := exists_resolve?_of_spelledAlike hsame'
      (hdemands.imp fun _ _ hd => hd.symm).flip (htests.imp fun _ _ hd => hd.symm).flip hy
    exact ⟨x, hx⟩

/-- A cache finds one and the same manifest for two versions exactly if they are spelled alike, or
if there is none for either of them: the path that is found has the spelling in it. -/
theorem Cache.find_eq_find_iff {cache : Cache} {name : String} {version version' : Version} :
    cache.find name version' = cache.find name version ↔
      version' = version ∨ cache.find name version' = none ∧ cache.find name version = none := by
  constructor
  · intro h
    cases hfind : cache.find name version with
    | none => exact .inr ⟨h.trans hfind, rfl⟩
    | some path =>
      obtain ⟨hpath, -⟩ := Option.filter_eq_some_iff.mp hfind
      obtain ⟨hpath', -⟩ := Option.filter_eq_some_iff.mp (h.trans hfind)
      obtain ⟨dir, hdir, -⟩ := Option.map_eq_some_iff.mp hpath
      obtain ⟨⟨author, project⟩, hsplit, -⟩ := Option.map_eq_some_iff.mp hdir
      obtain ⟨front, hsegments⟩ := segments_manifestPath? hsplit hpath
      obtain ⟨front', hsegments'⟩ := segments_manifestPath? hsplit hpath'
      have hspelled : version.text = version'.text := by
        have hend := List.append_inj' (hsegments.symm.trans hsegments') rfl
        simpa using hend.2
      have hparse := Version.parse_eq_ok_iff.mpr hspelled
      rw [Version.parse_eq_ok_iff.mpr rfl] at hparse
      exact .inl (Except.ok.inj hparse).symm
  · rintro (rfl | ⟨h, h'⟩)
    · rfl
    · rw [h, h']

/-- **Applications that are the same are resolved alike from a cache** that finds for every pin what
it finds for the other spelling of the pin: both fail, or both succeed with projects that are the
same.

What the hypothesis asks of a pin is that it is spelled alike in both applications, or that the
cache has nothing under either spelling (`Cache.find_eq_find_iff`); a cache that keeps the manifest
under one of two spellings, or a copy of it under each, does not meet it.  Nothing is asked of the
compiler version, whose tags are free.  The condition cannot be dropped: `find_package_manifest`
looks under the version as it is spelled, tags included, and `tag_decides` is a pin that is found
without its tag only. -/
theorem resolve_of_sameDeclaration {cache : Cache} {read : Path → Except ReadFault ByteArray}
    {ignoreTests : Bool} {path : Path} {a b : Application} (h : a.SameDeclaration b)
    (hfind : ∀ name version version', ((name, .pinned version), (name, .pinned version')) ∈
      (rootDemands ignoreTests (.application a)).zip (rootDemands ignoreTests (.application b)) →
        cache.find name version' = cache.find name version) :
    SameVerdict (resolve ⟨cache.repository, read⟩ ignoreTests path (.application a)).result
      (resolve ⟨cache.repository, read⟩ ignoreTests path (.application b)).result := by
  have hrel : Option.Rel (fun x y => SameVerdict x.result y.result)
      (resolve? ⟨cache.repository, read⟩ ignoreTests path (.application a))
      (resolve? ⟨cache.repository, read⟩ ignoreTests path (.application b)) :=
    rel_resolve?_of_sameDeclaration h hfind
  -- With a cache both runs end.
  rw [resolve?_cache_eq_some, resolve?_cache_eq_some] at hrel
  cases hrel with
  | some hverdict => exact hverdict

/-! ## A cache with one package -/

/-- A cache that has the package without dependencies. -/
def leafCache : Cache where
  config := ⟨⟨"home"⟩, .ofNumbers 0 19 1⟩
  files := ⟨[(["elm.json", "1.0.0", "leaf", "a", "packages", "0.19.1", "home"],
    .file leafText.toUTF8)], []⟩

/-- The cache with its files. -/
def cachedSources : Sources := ⟨leafCache.repository, leafCache.files.read⟩

/-- Where the package is in the cache. -/
def cachedPath : Path := ⟨"home/0.19.1/packages/a/leaf/1.0.0/elm.json"⟩

/-- The package, resolved from the cache. -/
def cachedProject : Project := ⟨cachedPath, .package leafPackage, [], []⟩

theorem readPackage_cached :
    cachedSources.readPackage "a/leaf" cachedPath = .ok leafPackage :=
  eq_ok_of_toOption (by decide +kernel)

/-- An application that is pinned to the package is resolved. -/
theorem resolve?_cached :
    resolve? cachedSources false ⟨"elm.json"⟩ (.application tableRoot) =
      some ⟨.ok ⟨⟨"elm.json"⟩, .application tableRoot, [cachedProject], []⟩,
        [.find "a/leaf" leafVersion], []⟩ := by
  have hfind : cachedSources.repository.find "a/leaf" leafVersion = some cachedPath := by
    decide +kernel
  have hfetch : cachedSources.fetch "a/leaf" leafVersion (.pinned leafVersion) =
      .ok (cachedPath, leafPackage) := Sources.fetch_eq_ok_iff.mpr ⟨hfind, readPackage_cached⟩
  have hload : cachedSources.load "a/leaf" leafVersion (.pinned leafVersion) .empty =
      some (.ok cachedProject, ⟨[], [(("a/leaf", leafVersion), cachedProject)],
        [.find "a/leaf" leafVersion], []⟩) :=
    cachedSources.load_of_no_demands ⟨List.not_mem_nil, List.not_mem_nil⟩ hfetch rfl
  have hruntime : cachedSources.loadAll (Manifest.application tableRoot).demands .empty =
      some (.ok [cachedProject], ⟨[], [(("a/leaf", leafVersion), cachedProject)],
        [.find "a/leaf" leafVersion], []⟩) :=
    cachedSources.loadAll_singleton rfl hload
  rw [resolve?_of_loadAll_ok false ⟨"elm.json"⟩ hruntime (Sources.loadAll_nil cachedSources _)]
  rfl

/-- A tag. -/
def betaTag : Identifier := ⟨"beta", by decide, List.all_eq_true.mp (by decide)⟩

/-- The application for a compiler version with a tag. -/
def betaCompilerRoot : Application :=
  { tableRoot with elmVersion := ⟨⟨0, 19, 1⟩, [betaTag], [], by decide⟩ }

/-- The tag of the compiler version does not matter: two applications that differ in it only are
resolved alike from the cache that has their package. -/
theorem resolve_of_sameDeclaration_betaCompilerRoot :
    tableRoot.SameDeclaration betaCompilerRoot ∧
    (∀ name version version', ((name, .pinned version), (name, .pinned version')) ∈
      (rootDemands false (.application tableRoot)).zip
        (rootDemands false (.application betaCompilerRoot)) →
        leafCache.find name version' = leafCache.find name version) ∧
    (resolve cachedSources false ⟨"elm.json"⟩ (.application tableRoot)).result =
      .ok ⟨⟨"elm.json"⟩, .application tableRoot, [cachedProject], []⟩ ∧
    SameVerdict (resolve cachedSources false ⟨"elm.json"⟩ (.application tableRoot)).result
      (resolve cachedSources false ⟨"elm.json"⟩ (.application betaCompilerRoot)).result := by
  have hsame : tableRoot.SameDeclaration betaCompilerRoot := by decide +kernel
  have hfind : ∀ name version version', ((name, .pinned version), (name, .pinned version')) ∈
      (rootDemands false (.application tableRoot)).zip
        (rootDemands false (.application betaCompilerRoot)) →
        leafCache.find name version' = leafCache.find name version := by
    intro name version version' hmem
    cases List.mem_singleton.mp hmem
    rfl
  refine ⟨hsame, hfind, ?_, resolve_of_sameDeclaration hsame hfind⟩
  rw [resolve, resolve?_cached]
  rfl

/-- The version of the package with a tag. -/
def betaVersion : Version := ⟨⟨1, 0, 0⟩, [betaTag], [], by decide⟩

/-- The application with a tag in its pin. -/
def betaRoot : Application :=
  { tableRoot with dependencies := ⟨.ofList [("a/leaf", betaVersion)], .empty⟩ }

/-- **The tag of a pin decides over success**: the two applications are the same, and the package is
found for one of them and not for the other.  `find_package_manifest` looks in the directory that is
named like the version as it is spelled. -/
theorem tag_decides :
    tableRoot.SameDeclaration betaRoot ∧
    resolve? cachedSources false ⟨"elm.json"⟩ (.application tableRoot) =
      some ⟨.ok ⟨⟨"elm.json"⟩, .application tableRoot, [cachedProject], []⟩,
        [.find "a/leaf" leafVersion], []⟩ ∧
    resolve? cachedSources false ⟨"elm.json"⟩ (.application betaRoot) =
      some ⟨.error (.unresolvedDependency "a/leaf" (.pinned betaVersion) (.noManifest betaVersion)),
        [.find "a/leaf" betaVersion], []⟩ := by
  have hfind : cachedSources.repository.find "a/leaf" betaVersion = none := by
    decide +kernel
  have hfetch : cachedSources.fetch "a/leaf" betaVersion (.pinned betaVersion) =
      .error (.unresolvedDependency "a/leaf" (.pinned betaVersion) (.noManifest betaVersion)) := by
    rw [Sources.fetch, hfind]
  have hruntime : cachedSources.loadAll (Manifest.application betaRoot).demands .empty =
      some (.error (.unresolvedDependency "a/leaf" (.pinned betaVersion)
        (.noManifest betaVersion)), Session.empty.ask (.find "a/leaf" betaVersion)) :=
    cachedSources.loadAll_of_load_error (s := .empty) [] rfl
      (cachedSources.load_of_fetch_error ⟨List.not_mem_nil, List.not_mem_nil⟩ hfetch)
  exact ⟨by decide +kernel, resolve?_cached, resolve?_of_loadAll_error false ⟨"elm.json"⟩ hruntime⟩

end ElmManifest
