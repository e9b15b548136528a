import ElmManifest.Proofs.Resolution.Sharing

/-!
# Look-ups

Which packages a run looks up, and how often.  A package is looked up only when it is neither done
nor under way, and as long as nothing has failed every package that has been looked up is one or the
other (`Session.Accounted`), so no package is looked up twice, however its version is spelled.  What
is looked up is needed: it can be reached from the manifest that is resolved (`Sources.Grounded`).
When the run succeeds nothing that can be reached is left out, and the tree shows all of it.

## Main Definitions

* `lookUps` — the packages that are looked up by questions, in order.
* `Sources.Grounded` — questions that look up only what can be reached.

## Main Statements

* `lookUps_of_resolve?` — every package is looked up at most once, and in a run that succeeds the
  packages that are looked up are those that can be reached, and those that the tree was made of.
-/

namespace ElmManifest

/-- The package that a question looks up, if it looks one up. -/
def Query.lookUp? : Query → Option (String × Release)
  | .versions _ => none
  | .find name version => some (packageKey (name, version))

/-- The packages that are looked up by questions, in order.  The questions for versions are not
among them. -/
def lookUps (calls : List Query) : List (String × Release) :=
  calls.filterMap Query.lookUp?

theorem mem_lookUps {calls : List Query} {key : String × Release} :
    key ∈ lookUps calls ↔
      ∃ name version, .find name version ∈ calls ∧ packageKey (name, version) = key := by
  unfold lookUps
  rw [List.mem_filterMap]
  constructor
  · rintro ⟨query, hmem, hkey⟩
    cases query with
    | versions name => cases hkey
    | find name version => exact ⟨name, version, hmem, Option.some.inj hkey⟩
  · rintro ⟨name, version, hmem, rfl⟩
    exact ⟨.find name version, hmem, rfl⟩

@[simp] theorem lookUps_concat_find (calls : List Query) (name : String) (version : Version) :
    lookUps (calls ++ [.find name version]) = lookUps calls ++ [packageKey (name, version)] := by
  unfold lookUps
  rw [List.filterMap_append]
  rfl

@[simp] theorem lookUps_askFor (s : Session) (demand : Demand) :
    lookUps (s.askFor demand).calls = lookUps s.calls := by
  obtain ⟨name, requirement⟩ := demand
  cases requirement with
  | pinned version => rfl
  | within range => simp [lookUps, Session.askFor, Query.lookUp?]

/-! ## At most once -/

/-- A package that is neither done nor under way has not been looked up, under any spelling. -/
theorem Session.Accounted.notMem_lookUps {s : Session} (h : s.Accounted)
    {request : String × Version} (hnew : s.Lacks request) :
    packageKey request ∉ lookUps s.calls := by
  intro hmem
  obtain ⟨name, version, hasked, hkey⟩ := mem_lookUps.mp hmem
  rcases h name version hasked with hway | hdone
  · have : packageKey (name, version) ∈ s.underWay := List.mem_map_of_mem hway
    rw [hkey] at this
    exact hnew.notUnderWay this
  · obtain ⟨entry, hentry, hrequest⟩ := List.mem_map.mp hdone
    have : packageKey entry.1 ∈ doneKeys s.resolved := List.mem_map.mpr ⟨entry, hentry, rfl⟩
    rw [hrequest, hkey] at this
    exact hnew.notDone this

/-- One more look-up of a package that is neither done nor under way. -/
theorem Session.Accounted.nodup_lookUps_concat {s : Session} (h : s.Accounted) {name : String}
    {version : Version} (hnew : s.Lacks (name, version)) (hnodup : (lookUps s.calls).Nodup) :
    (lookUps (s.calls ++ [.find name version])).Nodup := by
  rw [lookUps_concat_find, ← List.concat_eq_append]
  exact List.Nodup.concat (h.notMem_lookUps hnew) hnodup

namespace Sources

variable {sources : Sources} {demands : List Demand}

private theorem runInvariant_nodup_lookUps : sources.RunInvariant
    (fun _ _ _ s _ t => s.Accounted → (lookUps s.calls).Nodup → (lookUps t.calls).Nodup)
    (fun _ s _ t => s.Accounted → (lookUps s.calls).Nodup → (lookUps t.calls).Nodup) := by
  constructor
  case recalled => exact fun _ _ hnodup => hnodup
  case cyclic => exact fun _ _ _ hnodup => hnodup
  case unfetched =>
    intro name version requirement s error hnew _ hs hnodup
    exact hs.nodup_lookUps_concat hnew hnodup
  case failed | loaded =>
    intro name version requirement s path declared result t hnew _ _ ih hs hnodup
    refine ih (hs.start _ path declared) ?_
    rw [Session.calls_start]
    exact hs.nodup_lookUps_concat hnew hnodup
  case nil => exact fun _ hnodup => hnodup
  case unselected =>
    intro name requirement rest s error _ _ hnodup
    rwa [lookUps_askFor]
  case headFailed =>
    intro name requirement rest s version error t _ _ ih hs hnodup
    refine ih (hs.askFor _) ?_
    rwa [lookUps_askFor]
  case tail =>
    intro name requirement rest s version project t outcome u _ hload ih _ ihRest hs hnodup
    -- Nothing has failed yet, so what has been looked up is still accounted for.
    have ht : t.Accounted := accounted_of_load hload (hs.askFor _)
    refine ihRest ht (ih (hs.askFor _) ?_)
    rwa [lookUps_askFor]

/-- Loading packages looks up none that has been looked up, as long as nothing has failed. -/
theorem nodup_lookUps_of_loadAll {s t : Session} {outcome : Except LoadError (List Project)}
    (h : sources.loadAll demands s = some (outcome, t)) (hs : s.Accounted)
    (hnodup : (lookUps s.calls).Nodup) : (lookUps t.calls).Nodup :=
  runInvariant_nodup_lookUps.loadAll h hs hnodup

/-! ## Only what can be reached -/

/-- Every package that is looked up by the questions can be reached from the demands.  So nothing is
looked up that is not needed. -/
def Grounded (sources : Sources) (demands : List Demand) (calls : List Query) : Prop :=
  ∀ key ∈ lookUps calls, sources.Reaches calls demands key

/-- What can be reached may be looked up. -/
theorem Grounded.concat {calls : List Query} (h : sources.Grounded demands calls) {name : String}
    {version : Version} (hreach : sources.Reaches calls demands (packageKey (name, version))) :
    sources.Grounded demands (calls ++ [.find name version]) := by
  intro key hkey
  have hcalls : calls ⊆ calls ++ [.find name version] := List.subset_append_left _ _
  rw [lookUps_concat_find, List.mem_append, List.mem_singleton] at hkey
  rcases hkey with hkey | rfl
  · exact (h key hkey).mono hcalls
  · exact hreach.mono hcalls

theorem Grounded.askFor {s : Session} (h : sources.Grounded demands s.calls) (demand : Demand) :
    sources.Grounded demands (s.askFor demand).calls := by
  intro key hkey
  rw [lookUps_askFor] at hkey
  exact (h key hkey).mono (Session.LeadsTo.askFor s demand).calls.subset

/-- What the manifest of a package that can be reached wants can be reached when it is read. -/
theorem Reaches.start {s : Session} {name : String} {version : Version}
    {requirement : Requirement} {path : Path} {declared : Package}
    (h : sources.Reaches s.calls demands (packageKey (name, version)))
    (hfetch : sources.fetch name version requirement = .ok (path, declared))
    {key : String × Release} (hwants : sources.Wants (rangeDemands declared.dependencies) key) :
    sources.Reaches (s.start (name, version) path declared).calls demands key := by
  have hcalls : s.calls ⊆ (s.start (name, version) path declared).calls := by simp
  exact (h.mono hcalls).tail ⟨declared, Session.reads_start hfetch, hwants⟩

private theorem runInvariant_grounded (sources : Sources) (demands : List Demand) :
    sources.RunInvariant
      (fun name version _ s _ t => sources.Reaches s.calls demands (packageKey (name, version)) →
        sources.Grounded demands s.calls → sources.Grounded demands t.calls)
      (fun wanted s _ t => (∀ key, sources.Wants wanted key → sources.Reaches s.calls demands key) →
        sources.Grounded demands s.calls → sources.Grounded demands t.calls) := by
  constructor
  case recalled => exact fun _ _ hs => hs
  case cyclic => exact fun _ _ _ hs => hs
  case unfetched =>
    intro name version requirement s error _ _ hreach hs
    exact hs.concat hreach
  case failed | loaded =>
    intro name version requirement s path declared result t _ hfetch _ ih hreach hs
    refine ih (fun key => hreach.start hfetch) ?_
    rw [Session.calls_start]
    exact hs.concat hreach
  case nil => exact fun _ hs => hs
  case unselected =>
    intro name requirement rest s error _ _ hs
    exact hs.askFor _
  case headFailed =>
    intro name requirement rest s version error t hselect _ ih hreach hs
    have hcalls := (Session.LeadsTo.askFor s (name, requirement)).calls.subset
    exact ih ((hreach _ (.head hselect)).mono hcalls) (hs.askFor _)
  case tail =>
    intro name requirement rest s version project t outcome u hselect hload ih _ ihRest hreach hs
    have hasked := Session.LeadsTo.askFor s (name, requirement)
    have hcalls := (hasked.trans (load_leadsTo hload)).calls.subset
    refine ihRest (fun key hwants => ?_)
      (ih ((hreach _ (.head hselect)).mono hasked.calls.subset) (hs.askFor _))
    exact (hreach key (hwants.mono (List.subset_cons_self ..))).mono hcalls

/-- Loading packages for demands looks up only what can be reached from them. -/
theorem grounded_of_loadAll {s t : Session} {outcome : Except LoadError (List Project)}
    (h : sources.loadAll demands s = some (outcome, t)) (hs : sources.Grounded demands s.calls) :
    sources.Grounded demands t.calls :=
  (runInvariant_grounded sources demands).loadAll h (fun key hwants => ⟨key, hwants, .refl⟩) hs

/-! ## All that the tree shows -/

/-- A node below a node: what the manifest of a requested package declares was requested, too. -/
theorem Requests.extend {projects : List Project} {key : String × Release}
    {node child : Project} (h : sources.Requests demands projects key node) {declared : Package}
    (hdeclares : node.declaration = .package declared) {name : String} {requirement : Requirement}
    {version : Version}
    (hplace : ((name, requirement), child) ∈
      (rangeDemands declared.dependencies).zip node.dependencies)
    (hselect : sources.select name requirement = .ok version) :
    sources.Requests demands projects (packageKey (name, version)) child := by
  induction h with
  | child hplace' _ => exact .deeper hplace' hdeclares (.child hplace hselect)
  | deeper hplace' hdeclares' _ ih => exact .deeper hplace' hdeclares' (ih hdeclares hplace)

/-- What is wanted by demands that have been met was requested. -/
theorem exists_place_of_wants {done : List ((String × Version) × Project)}
    {projects : List Project} (hmet : List.Forall₂ (sources.Meets done) demands projects)
    {key : String × Release} (h : sources.Wants demands key) :
    ∃ name requirement version node, ((name, requirement), node) ∈ demands.zip projects ∧
      sources.select name requirement = .ok version ∧ packageKey (name, version) = key := by
  obtain ⟨name, requirement, version, hmem, hselect, hkey⟩ := h
  obtain ⟨node, hplace⟩ := exists_mem_zip_left hmet hmem
  exact ⟨name, requirement, version, node, hplace, hselect, hkey⟩

/-- A manifest that has been read for a package is that of the node that is kept for it. -/
theorem Reads.declaration_of_kept? {s : Session} {request : String × Version}
    {declared : Package} (h : sources.Reads s.calls (packageKey request) declared)
    (hs : s.Sound sources) (haccounted : s.Accounted) (hidle : s.inProgress = [])
    {node : Project} (hkept : kept? s.resolved request = some node) :
    node.declaration = .package declared := by
  obtain ⟨newer, entry, earlier, hdone, hkey, hdeclares, -⟩ :=
    h.exists_settled hs haccounted hidle
  have hentry : entry ∈ s.resolved := by
    rw [hdone]
    exact List.mem_append_right _ (List.mem_cons_self ..)
  rw [← kept?_congr s.resolved hkey, kept?_of_mem hs.settled.nodup hentry] at hkept
  cases hkept
  exact hdeclares

/-- **What can be reached is in the tree.**  The induction is on the path to the package.  At the
end of it stands the node that was kept for the package. -/
theorem Reaches.exists_requests {s : Session} {key : String × Release}
    (h : sources.Reaches s.calls demands key) (hs : s.Sound sources) (haccounted : s.Accounted)
    (hidle : s.inProgress = []) {projects : List Project}
    (hmet : List.Forall₂ (sources.Meets s.resolved) demands projects) :
    ∃ node, sources.Requests demands projects key node := by
  obtain ⟨first, hwants, hpath⟩ := h
  induction hpath with
  | refl =>
      obtain ⟨name, requirement, version, node, hplace, hselect, rfl⟩ :=
        exists_place_of_wants hmet hwants
      exact ⟨node, .child hplace hselect⟩
  | @tail before key _ hedge ih =>
      obtain ⟨parent, hparent⟩ := ih
      obtain ⟨declared, hreads, hwanted⟩ := hedge
      obtain ⟨request, rfl⟩ := exists_packageKey_eq before
      have hkept := hs.settled.kept?_of_requests hparent hmet rfl
      have hdeclares := hreads.declaration_of_kept? hs haccounted hidle hkept
      have hbelow := hs.settled.forall₂_of_kept? hkept hdeclares
      obtain ⟨name, requirement, version, node, hplace, hselect, rfl⟩ :=
        exists_place_of_wants hbelow hwanted
      exact ⟨node, hparent.extend hdeclares hplace hselect⟩

/-- A node of the tree was looked up as what it was requested as. -/
theorem Requests.mem_lookUps {s : Session} (hs : s.Sound sources) {projects : List Project}
    (hmet : List.Forall₂ (sources.Meets s.resolved) demands projects) {key : String × Release}
    {node : Project} (h : sources.Requests demands projects key node) :
    key ∈ lookUps s.calls := by
  obtain ⟨request, rfl⟩ := exists_packageKey_eq key
  have hkept := hs.settled.kept?_of_requests h hmet rfl
  obtain ⟨entry, hentry, hkey, -⟩ := exists_mem_of_kept? hkept
  exact ElmManifest.mem_lookUps.mpr ⟨entry.1.1, entry.1.2, hs.logged entry hentry, hkey⟩

end Sources

/-! ## Whole runs -/

section Root

variable {sources : Sources} {ignoreTests : Bool} {path : Path} {manifest : Manifest}
  {outcome : Outcome}

/-- However a run ends, it looks up every package at most once. -/
theorem nodup_lookUps_of_resolve?
    (h : resolve? sources ignoreTests path manifest = some outcome) :
    (lookUps outcome.calls).Nodup := by
  obtain ⟨result, t, hrun, hcalls, -⟩ := exists_loadAll_of_resolve? h
  rw [hcalls]
  exact Sources.nodup_lookUps_of_loadAll hrun .empty List.nodup_nil

/-- However a run ends, it looks up only what can be reached. -/
theorem grounded_of_resolve? (h : resolve? sources ignoreTests path manifest = some outcome) :
    sources.Grounded (rootDemands ignoreTests manifest) outcome.calls := by
  obtain ⟨result, t, hrun, hcalls, -⟩ := exists_loadAll_of_resolve? h
  rw [hcalls]
  exact Sources.grounded_of_loadAll hrun fun _ hkey => absurd hkey List.not_mem_nil

/-- **Every package is looked up at most once**, under whatever spellings of its version it is
requested, however the run ends.  When it succeeds, the packages that are looked up are exactly
those that can be reached from the dependencies of the manifest, and exactly those that the nodes of
the tree were requested as.  This is what `resolved` is for: `find_package_manifest` is asked once
for a package, however many others need it. -/
theorem lookUps_of_resolve?
    (h : resolve? sources ignoreTests path manifest = some outcome) :
    (lookUps outcome.calls).Nodup ∧
    ∀ project, outcome.result = .ok project → ∀ key,
      (key ∈ lookUps outcome.calls ↔
        sources.Reaches outcome.calls (rootDemands ignoreTests manifest) key) ∧
      (key ∈ lookUps outcome.calls ↔
        ∃ node, sources.Requested ignoreTests manifest project key node) := by
  refine ⟨nodup_lookUps_of_resolve? h, fun project hproject key => ?_⟩
  have hreaches := grounded_of_resolve? h key
  obtain ⟨dependencies, tests, t, u, hruntime, htests, hu, hidle, hcalls, rfl, hdependencies,
    hmet⟩ := exists_session_of_resolve? h hproject
  rw [← hcalls] at hreaches ⊢
  have haccounted : u.Accounted :=
    Sources.accounted_of_loadAll htests (Sources.accounted_of_loadAll hruntime .empty)
  have hroot : List.Forall₂ (sources.Meets u.resolved) (rootDemands ignoreTests manifest)
      (dependencies ++ tests) := List.rel_append hdependencies hmet
  -- Around in a circle: looked up, reached, in the tree, and so looked up.
  have htree : sources.Reaches u.calls (rootDemands ignoreTests manifest) key →
      ∃ node, sources.Requests (rootDemands ignoreTests manifest) (dependencies ++ tests) key
        node := fun hreach => hreach.exists_requests hu haccounted hidle hroot
  have hlooked : (∃ node, sources.Requests (rootDemands ignoreTests manifest)
      (dependencies ++ tests) key node) → key ∈ lookUps u.calls := by
    rintro ⟨node, hnode⟩
    exact hnode.mem_lookUps hu hroot
  exact ⟨⟨hreaches, fun hreach => hlooked (htree hreach)⟩, ⟨fun hkey => htree (hreaches hkey),
    hlooked⟩⟩

end Root

/-- The application with two names for one manifest asks for it under either name, each of them
once, although one of them is needed twice. -/
theorem lookUps_of_resolve?_aliasRoot :
    let calls : List Query := [.find "a/leaf" leafVersion, .find "b/leaf" leafVersion]
    resolve? leafSources false ⟨"elm.json"⟩ (.application aliasRoot) =
        some ⟨.ok aliasProject, calls, [aliasWarning]⟩ ∧
      (lookUps calls).Nodup ∧ ∀ key,
        (key ∈ lookUps calls ↔
          leafSources.Reaches calls (rootDemands false (.application aliasRoot)) key) ∧
        (key ∈ lookUps calls ↔
          ∃ node, leafSources.Requested false (.application aliasRoot) aliasProject key node) := by
  intro calls
  obtain ⟨hnodup, hkeys⟩ := lookUps_of_resolve? resolve?_aliasRoot
  exact ⟨resolve?_aliasRoot, hnodup, hkeys aliasProject rfl⟩

end ElmManifest
