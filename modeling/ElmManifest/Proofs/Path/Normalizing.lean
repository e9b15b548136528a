import ElmManifest.FileTree
import ElmManifest.Proofs.Path.Segments
import Mathlib.Data.List.Basic

/-!
# Normalized paths

A path denotes a place, seen from a working directory: its steps are taken one after the other, and
two dots lead to the enclosing directory whatever stands there.  Folding the dots away changes the
spelling and not what it denotes.  What is left is names, behind the root or behind two dots any
number of times, and of two such spellings no two denote the same places.

## Main Definitions

* `Component.apply` — the place that a step leads to.
* `Path.placeFrom` — the place that a path denotes from a working directory.
* `Location.IsSpelled` — the places that a working directory can be.
* `Path.Folded` — steps, innermost first, that have nothing left to fold.

## Main Statements

* `Path.components_normalize` — the steps of a normalized path are those that are left.
* `Path.exists_placeFrom_eq` — which places a path denotes.
* `Path.normalize_canonical` — normalizing picks one path of all that denote the same places.

## Design Notes

A relative path that starts with two dots denotes different places from different directories, and
near the root two dots do nothing.  Two paths are told apart by a working directory that is deeper
than either of them rises, and by its names.
-/

namespace ElmManifest

/-! ## Places -/

/-- The place that a step leads to.  From the root two dots lead nowhere else. -/
def Component.apply (place : Location) : Component → Location
  | .root => []
  | .here => place
  | .up => place.tail
  | .name text => text :: place

/-- The place that a path denotes from a working directory, whatever stands there.  As there are no
links, this is where the path leads if it leads anywhere. -/
def Path.placeFrom (p : Path) (here : Location) : Location :=
  p.components.foldl Component.apply here

/-- A place that can be spelled: every name on the way to it is the name of a file or directory. -/
def Location.IsSpelled (place : Location) : Prop :=
  ∀ name ∈ place, Path.isName name = true ∧ '/' ∉ name.toList

namespace Path

/-! ## Steps as they are spelled -/

/-- A step that is read back from its spelling in the middle of a path. -/
def Reads (step : Component) : Prop :=
  component? step.text = some step ∧ '/' ∉ step.text.toList

/-- A segment that stands for a step is how the step is spelled. -/
theorem text_of_component? {segment : String} {step : Component}
    (h : component? segment = some step) : step.text = segment := by
  unfold component? at h
  split at h
  next => cases h; rfl
  next hname =>
    split at h
    next => cases h
    next hnoise =>
      cases h
      have hdots : segment = ".." := by
        simpa [isName, hnoise] using hname
      rw [hdots]
      rfl

/-- The steps of a path behind its start are read back from their spelling. -/
theorem reads_of_mem_body {p : Path} {step : Component}
    (h : step ∈ p.body.filterMap component?) : Reads step := by
  obtain ⟨segment, hsegment, hstep⟩ := List.mem_filterMap.mp h
  have hmem : segment ∈ p.segments := by
    rw [← p.lead_append_body]
    exact List.mem_append_right _ hsegment
  have htext := text_of_component? hstep
  rw [← htext] at hstep hmem
  exact ⟨hstep, slash_notMem_of_mem_segments hmem⟩

/-- A step that is read back is spelled neither as nothing nor as a dot. -/
theorem Reads.text_ne {step : Component} (h : Reads step) :
    step.text ≠ "" ∧ step.text ≠ "." := by
  have hsome : ∀ {segment : String}, component? segment = none → step.text ≠ segment := by
    rintro segment hnone rfl
    rw [h.1] at hnone
    cases hnone
  exact ⟨hsome (by decide), hsome (by decide)⟩

/-- Steps that are read back are read off the segments of the path that they spell. -/
theorem filterMap_segments_ofSegments {steps : List Component} (h : ∀ step ∈ steps, Reads step) :
    (ofSegments (steps.map Component.text)).segments.filterMap component? = steps := by
  by_cases hempty : steps = []
  · rw [hempty]
    decide
  · rw [segments_ofSegments (by simpa using hempty) (by simpa using fun step hs => (h step hs).2),
      List.filterMap_map]
    calc
      steps.filterMap (component? ∘ Component.text) = steps.filterMap some :=
        List.filterMap_congr fun step hs => (h step hs).1
      _ = steps := List.filterMap_some

/-- A path at the root starts with an empty segment. -/
theorem head?_segments_of_isRooted {p : Path} (h : p.isRooted = true) :
    p.segments.head? = some "" := by
  obtain ⟨rest, hrest⟩ := List.head?_eq_some_iff.mp (beq_iff_eq.mp h)
  simp [segments, hrest, Text.split]

/-- A path that is spelled with such steps starts neither at the root nor with a dot. -/
theorem start_ofSegments {steps : List Component} (h : ∀ step ∈ steps, Reads step) :
    (ofSegments (steps.map Component.text)).isRooted = false ∧
      (ofSegments (steps.map Component.text)).startsHere = false := by
  cases steps with
  | nil => decide
  | cons step rest =>
    have hhead : (ofSegments ((step :: rest).map Component.text)).segments.head? =
        some step.text := by
      rw [segments_ofSegments (by simp) (by simpa using fun step hs => (h step hs).2)]
      rfl
    obtain ⟨hempty, hdot⟩ := (h step (List.mem_cons_self ..)).text_ne
    constructor
    · by_contra hrooted
      rw [Bool.not_eq_false] at hrooted
      exact hempty (Option.some.inj (hhead.symm.trans (head?_segments_of_isRooted hrooted)))
    · rw [startsHere, hhead]
      simpa using hdot

/-! ## What is left when dots are folded -/

variable {rooted : Bool} {steps : List Component} {step : Component}

/-- Folding adds nothing but names and two dots. -/
theorem mem_fold {other : Component} (h : other ∈ fold rooted steps step) :
    other ∈ steps ∨ other = step ∧ step ≠ .root ∧ step ≠ .here := by
  cases step with
  | root => exact .inl h
  | here => exact .inl h
  | name text => simpa [fold, or_comm] using h
  | up =>
    simp only [fold] at h
    split at h
    · exact .inl (List.mem_cons_of_mem _ h)
    · split at h
      · exact .inl h
      · simpa [or_comm] using h

/-- The steps that are left are steps of the path behind its start. -/
theorem mem_body_of_mem_foldedSteps {p : Path} (h : step ∈ p.foldedSteps) :
    step ∈ p.body.filterMap component? := by
  have hfrom : ∀ (taken left : List Component),
      step ∈ taken.foldl (fold p.isRooted) left →
        step ∈ left ∨ step ∈ taken ∧ step ≠ .root ∧ step ≠ .here := by
    intro taken
    induction taken with
    | nil => exact fun left h => .inl h
    | cons first rest ih =>
      intro left h
      rcases ih _ h with h | ⟨hmem, hne⟩
      · rcases mem_fold h with h | ⟨rfl, hne⟩
        · exact .inl h
        · exact .inr ⟨List.mem_cons_self .., hne⟩
      · exact .inr ⟨List.mem_cons_of_mem _ hmem, hne⟩
  rcases hfrom p.components [] (List.mem_reverse.mp h) with h | ⟨hmem, hroot, hhere⟩
  · exact absurd h List.not_mem_nil
  · rcases List.mem_append.mp hmem with hstart | hbody
    · split at hstart
      · exact absurd (List.mem_singleton.mp hstart) hroot
      · split at hstart
        · exact absurd (List.mem_singleton.mp hstart) hhere
        · exact absurd hstart List.not_mem_nil
    · exact hbody

theorem reads_of_mem_foldedSteps {p : Path} : ∀ step ∈ p.foldedSteps, Reads step :=
  fun _ h => reads_of_mem_body (mem_body_of_mem_foldedSteps h)

/-- Normalizing keeps whether a path starts at the root. -/
theorem isRooted_normalize (p : Path) : p.normalize.isRooted = p.isRooted := by
  unfold normalize
  split
  next h =>
    rw [h]
    simp [isRooted, String.toList_append]
  next h => rw [(start_ofSegments reads_of_mem_foldedSteps).1, Bool.eq_false_iff.mpr h]

/-- **The steps of a normalized path** are those that are left, behind the root if it starts there.
A dot in front is not among them any more. -/
theorem components_normalize (p : Path) :
    p.normalize.components = (if p.isRooted then [.root] else []) ++ p.foldedSteps := by
  have hsteps := filterMap_segments_ofSegments (reads_of_mem_foldedSteps (p := p))
  by_cases h : p.isRooted = true
  · have hsegments : p.normalize.segments =
        "" :: (ofSegments (p.foldedSteps.map Component.text)).segments := by
      simp [normalize, h, segments, String.toList_append, Text.split]
    rw [components, body, isRooted_normalize, h, hsegments]
    simp only [Bool.true_or, if_true, List.drop_one, List.tail_cons, hsteps]
  · have hfolded : p.normalize = ofSegments (p.foldedSteps.map Component.text) := if_neg h
    obtain ⟨hroot, hhere⟩ := start_ofSegments (reads_of_mem_foldedSteps (p := p))
    rw [if_neg h, hfolded, components, body, hroot, hhere]
    simpa only [Bool.or_self, Bool.false_eq_true, if_false, List.nil_append] using hsteps

/-! ## What a path denotes -/

/-- Steps, innermost first, that have nothing left to fold: names, and two dots in front of all of
them, which there are none of behind the root. -/
def Folded (rooted : Bool) (names : List String) (rise : Nat) (steps : List Component) : Prop :=
  steps = names.map .name ++ List.replicate rise .up ∧ (rooted = true → rise = 0)

/-- Folding one more step leaves steps that have nothing left to fold, and they lead where the step
leads from where the others do. -/
theorem Folded.exists_fold {names : List String} {rise : Nat}
    (h : Folded rooted names rise steps) (hstep : step ≠ .root) :
    ∃ names' rise', Folded rooted names' rise' (fold rooted steps step) ∧
      ∀ here : Location, (rooted = true → here = []) →
        names' ++ here.drop rise' = step.apply (names ++ here.drop rise) := by
  obtain ⟨rfl, hrise⟩ := h
  cases step with
  | root => exact absurd rfl hstep
  | here => exact ⟨names, rise, ⟨rfl, hrise⟩, fun _ _ => rfl⟩
  | name text => exact ⟨text :: names, rise, ⟨rfl, hrise⟩, fun _ _ => rfl⟩
  | up =>
    cases names with
    | cons name names => exact ⟨names, rise, ⟨rfl, hrise⟩, fun _ _ => rfl⟩
    | nil =>
      cases rooted with
      | true =>
        -- Behind the root there are no two dots to add to.
        refine ⟨[], 0, ⟨?_, fun _ => rfl⟩, fun here hhere => ?_⟩
        · rw [hrise rfl]
          rfl
        · rw [hhere rfl]
          simp [Component.apply]
      | false =>
        refine ⟨[], rise + 1, ⟨?_, nofun⟩, fun here _ => ?_⟩
        · cases rise <;> rfl
        · simp [Component.apply]

theorem Folded.exists_foldl {names : List String} {rise : Nat}
    (h : Folded rooted names rise steps) (taken : List Component) (htaken : .root ∉ taken) :
    ∃ names' rise', Folded rooted names' rise' (taken.foldl (fold rooted) steps) ∧
      ∀ here : Location, (rooted = true → here = []) →
        names' ++ here.drop rise' = taken.foldl Component.apply (names ++ here.drop rise) := by
  induction taken generalizing steps names rise with
  | nil => exact ⟨names, rise, h, fun _ _ => rfl⟩
  | cons first rest ih =>
    simp only [List.mem_cons, not_or] at htaken
    have hfirst : first ≠ .root := Ne.symm htaken.1
    obtain ⟨names₁, rise₁, hfolded, happly⟩ := h.exists_fold hfirst
    obtain ⟨names', rise', hrest, hplace⟩ := ih hfolded htaken.2
    refine ⟨names', rise', hrest, fun here hhere => ?_⟩
    rw [List.foldl_cons, ← happly here hhere]
    exact hplace here hhere

/-- **The places that a path denotes.**  A path at the root denotes the place with its names.  Any
other path leads as far up as there are two dots left, and then along its names.  How far up and
along which names can be read off the folded steps. -/
theorem exists_placeFrom_eq (p : Path) :
    ∃ names rise, Folded p.isRooted names rise p.foldedSteps.reverse ∧
      ∀ here, p.placeFrom here = names ++ if p.isRooted then [] else here.drop rise := by
  have hbody : .root ∉ p.body.filterMap component? := fun hroot =>
    (reads_of_mem_body hroot).2 (by decide)
  have hempty : ∀ rooted, Folded rooted [] 0 [] := fun _ => ⟨rfl, fun _ => rfl⟩
  rw [foldedSteps, List.reverse_reverse]
  by_cases hrooted : p.isRooted = true
  · have hcomponents : p.components = .root :: p.body.filterMap component? := by
      rw [components, if_pos hrooted]
      rfl
    obtain ⟨names, rise, hfolded, hplace⟩ := (hempty true).exists_foldl _ hbody
    refine ⟨names, rise, ?_, fun here => ?_⟩
    · rw [hcomponents, hrooted]
      exact hfolded
    · have hroot := hplace [] fun _ => rfl
      rw [List.drop_nil, List.drop_nil] at hroot
      rw [placeFrom, hcomponents, if_pos hrooted, List.foldl_cons]
      exact hroot.symm
  · have hcomponents : .root ∉ p.components := by
      rw [components, if_neg hrooted, List.mem_append, not_or]
      refine ⟨?_, hbody⟩
      split <;> simp
    obtain ⟨names, rise, hfolded, hplace⟩ := (hempty p.isRooted).exists_foldl _ hcomponents
    refine ⟨names, rise, hfolded, fun here => ?_⟩
    rw [placeFrom, if_neg hrooted]
    exact (hplace here fun h => absurd h hrooted).symm

/-- Steps that have nothing left to fold lead up first, and then along their names. -/
theorem foldl_apply_reverse (names : List String) (rise : Nat) (place : Location) :
    (names.map Component.name ++ List.replicate rise Component.up).reverse.foldl Component.apply
      place = names ++ place.drop rise := by
  have hup : (List.replicate rise Component.up).foldl Component.apply place = place.drop rise := by
    induction rise generalizing place with
    | zero => rfl
    | succ rise ih => rw [List.replicate_succ, List.foldl_cons, ih, Component.apply, List.drop_tail]
  rw [List.reverse_append, List.reverse_replicate, List.foldl_append, hup, List.foldl_reverse,
    List.foldr_map]
  induction names with
  | nil => rfl
  | cons name names ih => rw [List.foldr_cons, ih, Component.apply, List.cons_append]

/-- **Normalizing changes nothing about what a path denotes.**  The induction is on the steps: one
that folds two others away has led to a place and back. -/
theorem placeFrom_normalize (p : Path) (here : Location) :
    p.normalize.placeFrom here = p.placeFrom here := by
  obtain ⟨names, rise, ⟨hsteps, hrise⟩, hplace⟩ := exists_placeFrom_eq p
  rw [hplace, placeFrom, components_normalize, List.foldl_append,
    List.reverse_eq_iff.mp hsteps, foldl_apply_reverse]
  by_cases hrooted : p.isRooted = true
  · simp [hrooted, Component.apply]
  · simp [hrooted]

/-! ## Paths that denote the same places -/

/-- Names in front of the same name any number of times are told apart by the number, if they can be
followed by either of two names. -/
theorem eq_of_append_replicate {names names' : List String} {count count' : Nat}
    (h : ∀ name ∈ ["a", "b"],
      names ++ List.replicate count name = names' ++ List.replicate count' name) :
    count = count' ∧ names = names' := by
  have ha := congrArg (List.count "a") (h "a" (by decide))
  have hb := congrArg (List.count "a") (h "b" (by decide))
  have hcount : count = count' := by
    simp [List.count_replicate] at ha hb
    omega
  subst hcount
  exact ⟨rfl, List.append_cancel_right (h "a" (by decide))⟩

/-- **Two paths that denote the same places are normalized to one path.**  Working directories that
are deeper than either path rises tell how far it rises, and whether it starts at the root.  So
nothing is lost when two paths are compared by their normalized spellings. -/
theorem normalize_eq_of_placeFrom_eq {p q : Path}
    (h : ∀ here : Location, here.IsSpelled → p.placeFrom here = q.placeFrom here) :
    p.normalize = q.normalize := by
  obtain ⟨names, rise, ⟨hsteps, hrise⟩, hplace⟩ := exists_placeFrom_eq p
  obtain ⟨names', rise', ⟨hsteps', hrise'⟩, hplace'⟩ := exists_placeFrom_eq q
  -- From a directory that is deeper than both paths rise, the names of the directory that are left
  -- tell how far each of them does.  Two different names tell these from the names of the paths.
  have hdeep : ∀ name ∈ ["a", "b"],
      names ++ List.replicate (if p.isRooted then 0 else rise' + 1) name =
        names' ++ List.replicate (if q.isRooted then 0 else rise + 1) name := by
    intro name hname
    have hspelled : Location.IsSpelled (List.replicate (rise + rise' + 1) name) := by
      intro other hother
      rw [List.eq_of_mem_replicate hother]
      exact (by decide : ∀ name ∈ ["a", "b"], isName name = true ∧ '/' ∉ name.toList) name hname
    have hboth := h _ hspelled
    rw [hplace, hplace', List.drop_replicate, List.drop_replicate,
      show rise + rise' + 1 - rise = rise' + 1 by omega,
      show rise + rise' + 1 - rise' = rise + 1 by omega] at hboth
    cases hp : p.isRooted <;> cases hq : q.isRooted <;> simpa [hp, hq] using hboth
  obtain ⟨hcount, hnames⟩ := eq_of_append_replicate hdeep
  have hrooted : p.isRooted = q.isRooted := by
    cases hp : p.isRooted <;> cases hq : q.isRooted <;> simp [hp, hq] at hcount ⊢
  have hsame : rise = rise' := by
    cases hq : q.isRooted with
    | true => rw [hrise (hrooted.trans hq), hrise' hq]
    | false =>
      rw [hrooted, hq] at hcount
      simpa [eq_comm] using hcount
  have hfolded : p.foldedSteps = q.foldedSteps := by
    rw [List.reverse_eq_iff.mp hsteps, List.reverse_eq_iff.mp hsteps', hnames, hsame]
  rw [normalize, normalize, hrooted, hfolded]

/-- A normalized path is names, behind the root or behind two dots any number of times. -/
theorem exists_components_normalize (p : Path) :
    ∃ rise names, (p.isRooted = true → rise = 0) ∧ p.normalize.components =
      (if p.isRooted then [.root] else []) ++
        (List.replicate rise .up ++ List.map Component.name names) := by
  obtain ⟨names, rise, ⟨hsteps, hrise⟩, -⟩ := exists_placeFrom_eq p
  refine ⟨rise, names.reverse, hrise, ?_⟩
  rw [components_normalize, List.reverse_eq_iff.mp hsteps, List.reverse_append,
    List.reverse_replicate, List.map_reverse]

/-- **Normalizing picks one path of all that denote the same places.**  A normalized path has no
dots, and two dots only in front of all names and only if it is relative.  It starts at the root
exactly if the path does, it is normalized already, and it denotes what the path denotes from every
working directory.  Two paths are normalized to one path exactly if they denote the same place from
every working directory; normalized paths with the same components have the same spelling.  So
`normalize_path` may be used for comparing paths, as far as there are no links. -/
theorem normalize_canonical (p : Path) :
    .here ∉ p.normalize.components ∧
    (∃ rise rest, p.normalize.components = List.replicate rise .up ++ rest ∧ .up ∉ rest) ∧
    (p.isRooted = true → .up ∉ p.normalize.components) ∧
    p.normalize.isRooted = p.isRooted ∧
    p.normalize.normalize = p.normalize ∧
    (∀ here, p.normalize.placeFrom here = p.placeFrom here) ∧
    ∀ q : Path,
      (p.normalize = q.normalize ↔
        ∀ here : Location, here.IsSpelled → p.placeFrom here = q.placeFrom here) ∧
      (p.normalize = q.normalize ↔ p.normalize.SamePlace q.normalize) := by
  obtain ⟨rise, names, hrise, hcomponents⟩ := exists_components_normalize p
  refine ⟨?dots, ?leading, ?relative, isRooted_normalize p, ?fixed, placeFrom_normalize p,
    fun q => ⟨?places, ?spelling⟩⟩
  case dots =>
    rw [hcomponents]
    cases p.isRooted <;> simp
  case leading =>
    cases hrooted : p.isRooted with
    | true => exact ⟨0, .root :: names.map .name, by simp [hcomponents, hrooted, hrise], by simp⟩
    | false => exact ⟨rise, names.map .name, by simp [hcomponents, hrooted], by simp⟩
  case relative =>
    intro hrooted
    simp [hcomponents, hrooted, hrise]
  case fixed => exact normalize_eq_of_placeFrom_eq fun here _ => placeFrom_normalize p here
  case places =>
    refine ⟨fun h here _ => ?_, normalize_eq_of_placeFrom_eq⟩
    rw [← placeFrom_normalize p, h, placeFrom_normalize q]
  case spelling =>
    refine ⟨fun h => h ▸ rfl, fun h => normalize_eq_of_placeFrom_eq fun here _ => ?_⟩
    rw [← placeFrom_normalize p, placeFrom, show p.normalize.components = _ from h, ← placeFrom,
      placeFrom_normalize q]

/-- Two dots at the root and two dots behind a name are folded away, and what is left is the path
that is spelled with the other name alone. -/
theorem normalize_canonical_rootedPath :
    let p : Path := ⟨"/../a/./b/.."⟩
    p.isRooted = true ∧ p.normalize = ⟨"/a"⟩ ∧ .up ∉ p.normalize.components ∧
      ∀ here : Location, here.IsSpelled → p.placeFrom here = Path.placeFrom ⟨"//a/"⟩ here := by
  have hrooted : isRooted ⟨"/../a/./b/.."⟩ = true := by decide
  obtain ⟨-, -, hrelative, -, -, -, hsame⟩ := normalize_canonical ⟨"/../a/./b/.."⟩
  exact ⟨hrooted, by decide, hrelative hrooted, (hsame ⟨"//a/"⟩).1.mp (by decide)⟩

end Path

end ElmManifest
