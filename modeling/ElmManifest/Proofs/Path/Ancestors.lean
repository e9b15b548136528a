import ElmManifest.Proofs.Path.Normalizing

/-!
# Parents of a path

The parent of a path is the path without its last step.  It keeps the spelling of what is left, so
repeated slashes and dots stay in it; the segments behind the last step that say nothing go with
the step.  The paths above a path take its steps, one less each time, until there are none left or
only the root.

## Main Statements

* `Path.components_eq` — a segment that says where a path starts is no other step.
* `Path.components_of_parent?` — a parent takes every step but the last.
* `Path.parent?_eq_none_iff` — which paths have no parent.
* `Path.exists_mem_ancestors_iff` — which steps the paths above a path take.
* `Path.pairwise_ancestors` — each of them takes fewer than the one before.
* `Path.placeFrom_suffix_of_mem_ancestors` — where no step leads up, they denote the places above.
-/

namespace ElmManifest.Path

variable {p q : Path}

/-! ## Steps and segments -/

/-- The step that says where a path starts, if there is one. -/
def startSteps (p : Path) : List Component :=
  if p.isRooted then [.root] else if p.startsHere then [.here] else []

/-- A path starts at the root exactly if an empty segment stands in front of another one. -/
theorem isRooted_iff : p.isRooted = true ↔ ∃ rest, rest ≠ [] ∧ p.segments = "" :: rest := by
  constructor
  · intro h
    obtain ⟨rest, hrest⟩ := List.head?_eq_some_iff.mp (beq_iff_eq.mp h)
    refine ⟨(Text.split '/' rest).map String.ofList, ?_, by simp [segments, hrest, Text.split]⟩
    simpa using Text.split_ne_nil '/' rest
  · rintro ⟨rest, hne, hsegments⟩
    have hsplit : p.segments = [""] ++ rest := hsegments
    exact (isRooted_iff_of_segments hsplit (by simp) hne).mpr rfl

/-- A path starts with a dot exactly if that is its first segment. -/
theorem startsHere_iff : p.startsHere = true ↔ p.segments.head? = some "." :=
  beq_iff_eq

theorem lead_of_startsHere (h : p.startsHere = true) : p.lead = ["."] := by
  obtain ⟨rest, hsegments⟩ := List.head?_eq_some_iff.mp (startsHere_iff.mp h)
  rw [lead, h, Bool.or_true, if_pos rfl, hsegments]
  rfl

/-- The segment that says where a path starts is no other step. -/
theorem filterMap_lead (p : Path) : p.lead.filterMap component? = [] := by
  by_cases hrooted : p.isRooted = true
  · rw [lead_of_isRooted hrooted]
    decide
  · by_cases hhere : p.startsHere = true
    · rw [lead_of_startsHere hhere]
      decide
    · rw [lead, if_neg (by simp [hrooted, hhere])]
      rfl

/-- The steps of a path can be read off all of its segments alike. -/
theorem components_eq (p : Path) :
    p.components = p.startSteps ++ p.segments.filterMap component? := by
  rw [← p.lead_append_body, List.filterMap_append, filterMap_lead, List.nil_append]
  rfl

/-! ## Parents -/

theorem filterMap_dropWhile_isNoise (pieces : List String) :
    (pieces.dropWhile isNoise).filterMap component? = pieces.filterMap component? := by
  induction pieces with
  | nil => rfl
  | cons piece rest ih =>
    by_cases hnoise : isNoise piece = true
    · have hnone : component? piece = none := by simp [component?, isName, hnoise]
      rw [List.dropWhile_cons_of_pos hnoise, ih, List.filterMap_cons_none hnone]
    · rw [List.dropWhile_cons_of_neg hnoise]

theorem filterMap_trimNoise (pieces : List String) :
    (trimNoise pieces).filterMap component? = pieces.filterMap component? := by
  rw [trimNoise, List.filterMap_reverse, filterMap_dropWhile_isNoise, List.filterMap_reverse,
    List.reverse_reverse]

/-- A segment that says something is a step, and not the one to the root. -/
theorem exists_component?_eq {segment : String} (h : isNoise segment = false) :
    ∃ step, component? segment = some step ∧ step ≠ .root := by
  unfold component?
  split
  · exact ⟨_, rfl, by simp⟩
  · exact ⟨.up, by simp [h], by simp⟩

/-- Where all segments behind the start say nothing, there is no other step. -/
theorem filterMap_body_of_dropWhile (h : p.body.reverse.dropWhile isNoise = []) :
    p.body.filterMap component? = [] := by
  rw [← List.reverse_reverse p.body, List.filterMap_reverse, ← filterMap_dropWhile_isNoise, h]
  rfl

/-- The last step of a path, and the segments in front of it that its parent is spelled with. -/
theorem exists_last_of_dropWhile {last : String} {earlier : List String}
    (h : p.body.reverse.dropWhile isNoise = last :: earlier) :
    ∃ step, step ≠ .root ∧ p.body.filterMap component? =
      (trimNoise earlier.reverse).filterMap component? ++ [step] := by
  obtain ⟨step, hstep, hne⟩ := exists_component?_eq (exists_body_eq h).1
  refine ⟨step, hne, ?_⟩
  rw [filterMap_trimNoise, ← List.reverse_reverse p.body, List.filterMap_reverse,
    ← filterMap_dropWhile_isNoise, h, List.filterMap_cons_some hstep, List.filterMap_reverse,
    List.reverse_cons]

/-- A path that is spelled with the first segments of another one takes the steps of these segments
and starts where the other one does, unless nothing is left behind the root. -/
theorem components_ofSegments {kept : List String} (hkept : kept <+: p.body)
    (hroot : p.isRooted = true → kept ≠ []) :
    (ofSegments (p.lead ++ kept)).components = p.startSteps ++ kept.filterMap component? ∧
      (ofSegments (p.lead ++ kept)).isRooted = p.isRooted := by
  obtain ⟨rest, hrest⟩ := hkept
  have hfirst : (p.lead ++ kept) ++ rest = p.segments := by
    rw [List.append_assoc, hrest, p.lead_append_body]
  by_cases hnil : p.lead ++ kept = []
  · -- Nothing is left of a path that starts neither at the root nor with a dot.
    obtain ⟨hlead, hkeptNil⟩ := List.append_eq_nil_iff.mp hnil
    have hrooted : p.isRooted = false := by
      by_contra h
      exact hroot (by simpa using h) hkeptNil
    have hhere : p.startsHere = false := by
      by_contra h
      rw [lead_of_startsHere (by simpa using h)] at hlead
      cases hlead
    rw [hnil, hkeptNil, startSteps, hrooted, hhere]
    decide
  · have hsegments : (ofSegments (p.lead ++ kept)).segments = p.lead ++ kept := by
      apply segments_ofSegments hnil
      intro segment hs
      apply slash_notMem_of_mem_segments (p := p)
      rw [← hfirst]
      exact List.mem_append_left _ hs
    have hrooted : (ofSegments (p.lead ++ kept)).isRooted = p.isRooted := by
      rw [Bool.eq_iff_iff]
      constructor
      · intro h
        obtain ⟨more, hne, hmore⟩ := isRooted_iff.mp h
        rw [hsegments] at hmore
        exact isRooted_iff.mpr ⟨more ++ rest, by simp [hne], by rw [← hfirst, hmore]; rfl⟩
      · intro h
        exact isRooted_iff.mpr ⟨kept, hroot h, by rw [hsegments, lead_of_isRooted h]; rfl⟩
    have hhere : (ofSegments (p.lead ++ kept)).startsHere = p.startsHere := by
      rw [Bool.eq_iff_iff, startsHere_iff, startsHere_iff, hsegments, ← hfirst,
        List.head?_append_of_ne_nil _ hnil]
    refine ⟨?_, hrooted⟩
    rw [components_eq, hsegments, List.filterMap_append, filterMap_lead, List.nil_append,
      startSteps, hrooted, hhere, ← startSteps]

/-- **A parent takes every step of a path but the last**, and starts at the root if the path does.
Two dots at the end are a step as well, so the parent of such a path lies below what the path
names. -/
theorem components_of_parent? (h : p.parent? = some q) :
    (∃ step, step ≠ .root ∧ p.components = q.components ++ [step]) ∧ q.isRooted = p.isRooted := by
  have hcomponents : p.components = p.startSteps ++ p.body.filterMap component? := rfl
  unfold parent? at h
  split at h
  next hbody =>
    -- Nothing is said behind the start, so the start is the last step.
    split at h
    next hhere =>
      cases h
      have hrooted : p.isRooted = false := by
        by_contra hrooted
        obtain ⟨rest, -, hsegments⟩ := isRooted_iff.mp (by simpa using hrooted)
        simp [startsHere, hsegments] at hhere
      refine ⟨⟨.here, by simp, ?_⟩, by rw [hrooted]; rfl⟩
      rw [hcomponents, filterMap_body_of_dropWhile hbody, startSteps, hrooted, hhere]
      decide
    next => cases h
  next last earlier hbody =>
    obtain ⟨step, hne, hstep⟩ := exists_last_of_dropWhile hbody
    simp only at h
    split at h
    next hroot =>
      cases h
      refine ⟨⟨step, hne, ?_⟩, by rw [hroot.1]; decide⟩
      rw [hcomponents, hstep, hroot.2, startSteps, hroot.1]
      rfl
    next hroot =>
      cases h
      obtain ⟨-, noise, after, hsplit⟩ := exists_body_eq hbody
      have hfirst : trimNoise earlier.reverse <+: p.body := ⟨_, hsplit.symm⟩
      obtain ⟨hkept, hrooted⟩ := components_ofSegments hfirst fun hr hk => hroot ⟨hr, hk⟩
      refine ⟨⟨step, hne, ?_⟩, hrooted⟩
      rw [hcomponents, hstep, hkept, List.append_assoc]

/-- There is no path above a path that takes no step, or none behind the root. -/
theorem parent?_eq_none_iff : p.parent? = none ↔
    p.components = if p.isRooted then [.root] else [] := by
  constructor
  · intro h
    unfold parent? at h
    split at h
    next hbody =>
      split at h
      next => cases h
      next hhere =>
        rw [components, filterMap_body_of_dropWhile hbody, if_neg hhere, List.append_nil]
    next =>
      simp only at h
      split at h <;> cases h
  · intro h
    cases hparent : p.parent? with
    | none => rfl
    | some q =>
      obtain ⟨⟨step, hne, hstep⟩, -⟩ := components_of_parent? hparent
      rw [hstep] at h
      split at h
      · have hlast := congrArg List.getLast? h
        exact absurd (by simpa using hlast) hne
      · simp at h

/-! ## The paths above a path -/

theorem ancestors_of_parent?_eq_none (h : p.parent? = none) : p.ancestors = [p] := by
  rw [ancestors]
  split
  next => rfl
  next hsome => rw [h] at hsome; cases hsome

theorem ancestors_of_parent? (h : p.parent? = some q) : p.ancestors = p :: q.ancestors := by
  rw [ancestors]
  split
  next hnone => rw [h] at hnone; cases hnone
  next hsome =>
    rw [h] at hsome
    cases hsome
    rfl

/-- What holds of the path itself and is kept by taking a parent holds of all paths above. -/
theorem ancestors_induction {motive : Path → Prop}
    (top : ∀ p, p.parent? = none → motive p)
    (below : ∀ p q, p.parent? = some q → motive q → motive p) (p : Path) : motive p := by
  induction p using ancestors.induct with
  | case1 p h => exact top p h
  | case2 p q h _ ih => exact below p q h ih

/-- A path above a path takes its first steps, and starts at the root if the path does. -/
theorem prefix_of_mem_ancestors (h : q ∈ p.ancestors) :
    q.components <+: p.components ∧ q.isRooted = p.isRooted := by
  induction p using ancestors_induction with
  | top p hnone =>
    rw [ancestors_of_parent?_eq_none hnone, List.mem_singleton] at h
    exact h ▸ ⟨List.prefix_rfl, rfl⟩
  | below p r hparent ih =>
    rw [ancestors_of_parent? hparent, List.mem_cons] at h
    obtain ⟨⟨step, -, hstep⟩, hrooted⟩ := components_of_parent? hparent
    rcases h with rfl | h
    · exact ⟨List.prefix_rfl, rfl⟩
    · obtain ⟨hfirst, hsame⟩ := ih h
      rw [hstep, hsame, hrooted]
      exact ⟨hfirst.trans (List.prefix_append _ _), rfl⟩

/-- Each path above a path takes the first steps of the one before, and fewer. -/
theorem pairwise_ancestors (p : Path) : p.ancestors.Pairwise fun q r =>
    r.components <+: q.components ∧ r.components.length < q.components.length := by
  induction p using ancestors_induction with
  | top p hnone =>
    rw [ancestors_of_parent?_eq_none hnone]
    exact List.pairwise_singleton ..
  | below p r hparent ih =>
    rw [ancestors_of_parent? hparent, List.pairwise_cons]
    refine ⟨fun q hq => ?_, ih⟩
    obtain ⟨⟨step, -, hstep⟩, -⟩ := components_of_parent? hparent
    have hfirst := (prefix_of_mem_ancestors hq).1
    rw [hstep, List.length_append, List.length_singleton]
    exact ⟨hfirst.trans (List.prefix_append _ _), Nat.lt_succ_of_le hfirst.length_le⟩

/-- A path that starts at the root takes that step at least. -/
theorem components_ne_nil_of_isRooted (h : p.isRooted = true) : p.components ≠ [] := by
  rw [components_eq, startSteps, if_pos h]
  simp

/-- **The steps that the paths above a path take** are the first steps of the path, any number of
them, but the root is never left out.  So the search upward comes to all of them and to nothing
else. -/
theorem exists_mem_ancestors_iff {steps : List Component} :
    (∃ q ∈ p.ancestors, q.components = steps) ↔
      steps <+: p.components ∧ (p.isRooted = true → steps ≠ []) := by
  constructor
  · rintro ⟨q, hq, rfl⟩
    obtain ⟨hfirst, hrooted⟩ := prefix_of_mem_ancestors hq
    exact ⟨hfirst, fun h => components_ne_nil_of_isRooted (hrooted.trans h)⟩
  · induction p using ancestors_induction with
    | top p hnone =>
      rintro ⟨hfirst, hne⟩
      rw [ancestors_of_parent?_eq_none hnone]
      refine ⟨p, List.mem_singleton_self p, ?_⟩
      rw [parent?_eq_none_iff.mp hnone] at hfirst ⊢
      split at hfirst
      next hrooted =>
        have hlength : steps.length = [Component.root].length :=
          Nat.le_antisymm hfirst.length_le (List.length_pos_iff.mpr (hne hrooted))
        rw [if_pos hrooted, hfirst.eq_of_length hlength]
      next hrooted => rw [if_neg hrooted, List.prefix_nil.mp hfirst]
    | below p r hparent ih =>
      rintro ⟨hfirst, hne⟩
      obtain ⟨⟨step, -, hstep⟩, hrooted⟩ := components_of_parent? hparent
      rw [ancestors_of_parent? hparent]
      rw [hstep, List.prefix_concat_iff] at hfirst
      rcases hfirst with heq | hfirst
      · exact ⟨p, List.mem_cons_self .., heq ▸ hstep⟩
      · obtain ⟨q, hq, hsteps⟩ := ih ⟨hfirst, hrooted ▸ hne⟩
        exact ⟨q, List.mem_cons_of_mem _ hq, hsteps⟩

/-! ## Places above a path -/

/-- Behind its start, a path never goes to the root. -/
theorem root_notMem_of_components {front taken : List Component} (h : p.components = front ++ taken)
    (hfront : p.isRooted = true → front ≠ []) : .root ∉ taken := by
  have hbody : .root ∉ p.body.filterMap component? := fun hroot =>
    (reads_of_mem_body hroot).2 (by decide)
  have hcomponents : p.components = p.startSteps ++ p.body.filterMap component? := rfl
  rw [hcomponents, startSteps] at h
  split at h
  next hrooted =>
    obtain ⟨first, rest, rfl⟩ := List.exists_cons_of_ne_nil (hfront hrooted)
    rw [List.singleton_append, List.cons_append, List.cons.injEq] at h
    rw [h.2, List.mem_append, not_or] at hbody
    exact hbody.2
  next =>
    intro hmem
    have hall := List.mem_append_right front hmem
    rw [← h] at hall
    split at hall
    · exact hbody (by simpa using hall)
    · exact hbody (by simpa using hall)

/-- Folding leaves two dots only where there are some. -/
theorem up_notMem_foldl_fold {taken left : List Component} (htaken : .up ∉ taken)
    (hleft : .up ∉ left) : .up ∉ taken.foldl (fold false) left := by
  induction taken generalizing left with
  | nil => exact hleft
  | cons step taken ih =>
    rw [List.mem_cons, not_or] at htaken
    refine ih htaken.2 fun hmem => ?_
    rcases mem_fold hmem with hmem | ⟨heq, -, -⟩
    · exact hleft hmem
    · exact htaken.1 heq

/-- Steps that leave no two dots when they are folded lead to where they start from or below it. -/
theorem suffix_foldl_apply {taken : List Component} (hroot : .root ∉ taken)
    (hup : .up ∉ taken.foldl (fold false) []) (place : Location) :
    place <:+ taken.foldl Component.apply place := by
  have hnone : Folded false [] 0 [] := ⟨rfl, fun _ => rfl⟩
  obtain ⟨names, rise, ⟨hsteps, -⟩, hplace⟩ := hnone.exists_foldl taken hroot
  have hrise : rise = 0 := by
    by_contra hrise
    exact hup (by simp [hsteps, hrise])
  subst hrise
  exact ⟨names, hplace place fun h => by cases h⟩

/-- What a path above a path takes in front, and what the path takes behind it. -/
theorem exists_taken_of_mem_ancestors (h : q ∈ p.ancestors) : ∃ taken, .root ∉ taken ∧
    p.components = q.components ++ taken ∧
      ∀ here, p.placeFrom here = taken.foldl Component.apply (q.placeFrom here) := by
  obtain ⟨⟨taken, htaken⟩, hrooted⟩ := prefix_of_mem_ancestors h
  refine ⟨taken, ?_, htaken.symm, fun here => ?_⟩
  · exact root_notMem_of_components htaken.symm fun hp =>
      components_ne_nil_of_isRooted (hrooted.trans hp)
  · rw [placeFrom, ← htaken, List.foldl_append, ← placeFrom]

/-- **Where no step leads up**, the paths above a path denote the place that it denotes and the
places above.  A step that leads up would be dropped like a name, and that leads down again. -/
theorem placeFrom_suffix_of_mem_ancestors (hup : .up ∉ p.components) (h : q ∈ p.ancestors)
    (here : Location) : q.placeFrom here <:+ p.placeFrom here := by
  obtain ⟨taken, hroot, hcomponents, hplace⟩ := exists_taken_of_mem_ancestors h
  rw [hcomponents, List.mem_append, not_or] at hup
  rw [hplace]
  exact suffix_foldl_apply hroot (up_notMem_foldl_fold hup.2 List.not_mem_nil) _

end ElmManifest.Path
