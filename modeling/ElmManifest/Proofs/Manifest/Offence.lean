import ElmManifest.Proofs.Manifest.Shapes
import ElmManifest.Proofs.Text.ByteOrder

/-!
# Texts at fault

A manifest may have the right shape and yet hold texts that are no versions or constraints.  Where
such a text stands is said by a path of keys.  Of several values under one key the last one counts,
so a path leads to one value at most.

Texts are read place after place, and where a place is a map, in the order of the bytes of its
names.  A sequence of readers therefore fails for the first text at fault in this order, whatever
the order of the entries, and its fault says where that text stands and what is wrong with it
(`Reports`).

## Main Definitions

* `Json.valueAt?` — the value at the end of a path of keys.
* `TextKind.complaint?` — what is said of a text that is at fault.
* `Place.Offence` — a text at fault in a place.
* `FirstOffence` — the first one, over several places.
* `TextKind.IsReadBy` — a parser that refuses the texts at fault.
* `Reports` — a step that fails for the first text at fault, and for no other reason.

## Main Statements

* `FirstOffence.unique` — there is one first text at fault at most.
* `Reports.bind` — steps that report, one after the other, report on all of their places.
* `HoldsTexts.reports_readTexts` — reading a map of texts reports on it.
-/

namespace ElmManifest

/-! ## Texts at fault -/

namespace Json

/-- The value that counts under a key of an object. -/
def member? : Json → String → Option Json
  | .object entries, key => effectiveValue? key entries
  | _, _ => none

/-- The value at the end of a path of keys. -/
def valueAt? (value : Json) (keys : List String) : Option Json :=
  keys.foldlM member? value

theorem valueAt?_append {value inner : Json} {keys : List String}
    (h : value.valueAt? keys = some inner) (keys' : List String) :
    value.valueAt? (keys ++ keys') = inner.valueAt? keys' := by
  unfold valueAt? at h ⊢
  rw [List.foldlM_append, h]
  rfl

theorem valueAt?_append_of_eq_none {value : Json} {keys : List String}
    (h : value.valueAt? keys = none) (keys' : List String) :
    value.valueAt? (keys ++ keys') = none := by
  unfold valueAt? at h ⊢
  rw [List.foldlM_append, h]
  rfl

theorem valueAt?_singleton (value : Json) (key : String) :
    value.valueAt? [key] = value.member? key := by
  simp [valueAt?]

end Json

/-- What a text in a manifest has to be. -/
inductive TextKind where
  /-- The name of a package. -/
  | name
  /-- A version. -/
  | version
  /-- A constraint. -/
  | constraint

/-- What is said of a text that is not what it has to be. -/
def TextKind.complaint? : TextKind → String → Option String
  | .name, text => if text = "" then some " cannot be empty" else none
  | .version, text =>
    match Version.parse text with
    | .ok _ => none
    | .error error => some (": " ++ error.message)
  | .constraint, text =>
    match Constraint.parse text with
    | .ok _ => none
    | .error error => some (": " ++ error.message)

/-- A place of a manifest that holds a text, or a map of texts. -/
inductive Place where
  /-- A text at a path. -/
  | text (keys : List String) (kind : TextKind)
  /-- A map at a path. -/
  | map (keys : List String) (kind : TextKind)

section Offences

variable (root : Json)

/-- At the path stands a text with which something is wrong. -/
def Offends (kind : TextKind) (keys : List String) (complaint : String) : Prop :=
  ∃ text, root.valueAt? keys = some (.string text) ∧ kind.complaint? text = some complaint

/-- A text of the place is at fault: the one that it holds, or one under some name. -/
inductive Place.Offence : Place → List String → String → Prop where
  | text {kind : TextKind} {keys : List String} {complaint : String}
      (h : Offends root kind keys complaint) : Offence (.text keys kind) keys complaint
  | entry {kind : TextKind} {keys : List String} {name complaint : String}
      (h : Offends root kind (keys ++ [name]) complaint) :
      Offence (.map keys kind) (keys ++ [name]) complaint

/-- No text of the place is at fault. -/
def Place.IsClean (place : Place) : Prop :=
  ∀ keys complaint, ¬ place.Offence root keys complaint

/-- The first text at fault: in the first place that is not clean, and under the name with the
smallest bytes.  The order of the places is that in which they are read. -/
inductive FirstOffence : List Place → List String → String → Prop where
  /-- It is the text of the first place. -/
  | text {kind : TextKind} {keys : List String} {complaint : String}
      (h : Offends root kind keys complaint) (places : List Place) :
      FirstOffence (.text keys kind :: places) keys complaint
  /-- It is in the map of the first place, and none under a smaller name is at fault. -/
  | entry {kind : TextKind} {keys : List String} {name complaint : String}
      (h : Offends root kind (keys ++ [name]) complaint)
      (hleast : ∀ other complaint', Offends root kind (keys ++ [other]) complaint' →
        ¬ utf8Bytes other < utf8Bytes name) (places : List Place) :
      FirstOffence (.map keys kind :: places) (keys ++ [name]) complaint
  /-- The first place is clean, and it is in a later one. -/
  | later {place : Place} {places : List Place} {keys : List String} {complaint : String}
      (hclean : place.IsClean root) (h : FirstOffence places keys complaint) :
      FirstOffence (place :: places) keys complaint

end Offences

section Reading

variable {root : Json} {places places' : List Place} {keys keys' : List String}
  {complaint complaint' : String} {kind : TextKind}

/-- There is one thing wrong with a text at most. -/
theorem Offends.unique (h : Offends root kind keys complaint)
    (h' : Offends root kind keys complaint') : complaint = complaint' := by
  obtain ⟨text, htext, hcomplaint⟩ := h
  obtain ⟨text', htext', hcomplaint'⟩ := h'
  rw [htext] at htext'
  cases htext'
  exact Option.some.inj (hcomplaint.symm.trans hcomplaint')

namespace FirstOffence

/-- There is one first text at fault at most. -/
theorem unique (h : FirstOffence root places keys complaint)
    (h' : FirstOffence root places keys' complaint') : keys = keys' ∧ complaint = complaint' := by
  induction h with
  | text h places =>
    cases h' with
    | text h' => exact ⟨rfl, h.unique h'⟩
    | later hclean => exact absurd (.text h) (hclean _ _)
  | @entry kind keys name complaint h hleast places =>
    cases h' with
    | @entry _ _ name' _ h' hleast' =>
      obtain rfl : name = name' := by
        obtain hlt | heq | hgt := lt_trichotomy name name'
        · exact absurd (utf8Bytes_lt hlt) (hleast' _ _ h)
        · exact heq
        · exact absurd (utf8Bytes_lt hgt) (hleast _ _ h')
      exact ⟨rfl, h.unique h'⟩
    | later hclean => exact absurd (.entry h) (hclean _ _)
  | later hclean h ih =>
    cases h' with
    | text h' => exact absurd (.text h') (hclean _ _)
    | entry h' => exact absurd (.entry h') (hclean _ _)
    | later _ h' => exact ih h'

theorem exists_offence (h : FirstOffence root places keys complaint) :
    ∃ place ∈ places, place.Offence root keys complaint := by
  induction h with
  | text h places => exact ⟨_, List.mem_cons_self, .text h⟩
  | entry h _ places => exact ⟨_, List.mem_cons_self, .entry h⟩
  | later _ _ ih =>
    obtain ⟨place, hplace, hoffence⟩ := ih
    exact ⟨place, List.mem_cons_of_mem _ hplace, hoffence⟩

/-- Places that are looked at later make no difference to it. -/
theorem append (h : FirstOffence root places keys complaint) (places' : List Place) :
    FirstOffence root (places ++ places') keys complaint := by
  induction h with
  | text h places => exact .text h _
  | entry h hleast places => exact .entry h hleast _
  | later hclean _ ih => exact .later hclean ih

theorem of_clean (hclean : ∀ place ∈ places, place.IsClean root)
    (h : FirstOffence root places' keys complaint) :
    FirstOffence root (places ++ places') keys complaint := by
  induction places with
  | nil => exact h
  | cons place places ih =>
    obtain ⟨hplace, hplaces⟩ := List.forall_mem_cons.mp hclean
    exact .later hplace (ih hplaces)

end FirstOffence

/-! ## Reports -/

/-- What a report says: where the text stands, and what is wrong with it. -/
def reportText (keys : List String) (complaint : String) : String :=
  "field `" ++ ".".intercalate keys ++ "`" ++ complaint

theorem intercalate_concat (h : keys ≠ []) (name : String) :
    ".".intercalate (keys ++ [name]) = entryName (".".intercalate keys) name := by
  rw [String.intercalate_append_of_ne_nil h (List.cons_ne_nil _ _), String.intercalate_singleton]
  rfl

/-- A step judges a text: it succeeds if nothing is wrong with it, and else it fails with a report
of the path.  A step is any function that reads one text, so that readers of versions and of
constraints are judged alike. -/
inductive Judges (kind : TextKind) (keys : List String) (text : String) {α : Type} :
    Except SchemaFault α → Prop where
  | passes {a : α} (h : kind.complaint? text = none) : Judges kind keys text (.ok a)
  | fails {fault : SchemaFault} {complaint : String} (h : kind.complaint? text = some complaint)
      (hreport : fault.message = reportText keys complaint) : Judges kind keys text (.error fault)

/-- The report of an error that a text was read with. -/
theorem reportText_error (keys : List String) (message : String) :
    "field `" ++ ".".intercalate keys ++ "`: " ++ message = reportText keys (": " ++ message) := by
  have hquote : "`: " = "`" ++ ": " := by decide
  rw [reportText, hquote]
  simp only [String.append_assoc]

/-- A parser refuses the texts that are at fault, and what a report says of such a text is what the
parser says. -/
structure TextKind.IsReadBy (kind : TextKind) {ε α : Type} (parse : String → Except ε α)
    (fault : String → ε → SchemaFault) : Prop where
  /-- Nothing is wrong with a text that is taken. -/
  passes : ∀ {text a}, parse text = .ok a → kind.complaint? text = none
  /-- A text that is refused is at fault, and the fault of a field tells where and why. -/
  fails : ∀ {text error}, parse text = .error error →
    ∃ complaint, kind.complaint? text = some complaint ∧
      ∀ keys, (fault (".".intercalate keys) error).message = reportText keys complaint

theorem isReadBy_version : TextKind.version.IsReadBy Version.parse .badVersion where
  passes h := by rw [TextKind.complaint?, h]
  fails h := ⟨_, by rw [TextKind.complaint?, h], fun keys => reportText_error keys _⟩

theorem isReadBy_constraint : TextKind.constraint.IsReadBy Constraint.parse .badConstraint where
  passes h := by rw [TextKind.complaint?, h]
  fails h := ⟨_, by rw [TextKind.complaint?, h], fun keys => reportText_error keys _⟩

theorem TextKind.IsReadBy.judges {ε α : Type} {parse : String → Except ε α}
    {fault : String → ε → SchemaFault} (h : kind.IsReadBy parse fault) (keys : List String)
    (text : String) : Judges kind keys text (readText parse fault (".".intercalate keys) text) := by
  unfold readText
  cases hparse : parse text with
  | ok a => exact .passes (h.passes hparse)
  | error error =>
    obtain ⟨complaint, hcomplaint, hmessage⟩ := h.fails hparse
    exact .fails hcomplaint (hmessage keys)

/-- A step reports on places: it succeeds if they are clean, and else it fails with a report of the
first text at fault. -/
inductive Reports (root : Json) (places : List Place) {α : Type} : Except SchemaFault α → Prop where
  | clean {a : α} (h : ∀ place ∈ places, place.IsClean root) : Reports root places (.ok a)
  | first {fault : SchemaFault} {keys : List String} {complaint : String}
      (h : FirstOffence root places keys complaint)
      (hreport : fault.message = reportText keys complaint) : Reports root places (.error fault)

section Reports

variable {α β : Type}

theorem reports_nil (a : α) : Reports root [] (.ok a) :=
  .clean (by simp)

/-- A step behind another one reports on what comes next. -/
theorem Reports.bind {x : Except SchemaFault α} {f : α → Except SchemaFault β}
    (hx : Reports root places x) (hf : ∀ a, Reports root places' (f a)) :
    Reports root (places ++ places') (x >>= f) := by
  cases hx with
  | @clean a hclean =>
    show Reports root (places ++ places') (f a)
    have hfa := hf a
    cases hfa' : f a with
    | ok b =>
      rw [hfa'] at hfa
      cases hfa with
      | clean hclean' =>
        exact .clean fun place hplace =>
          (List.mem_append.mp hplace).elim (hclean place) (hclean' place)
    | error fault =>
      rw [hfa'] at hfa
      cases hfa with
      | first h hreport => exact .first (.of_clean hclean h) hreport
  | first h hreport => exact .first (h.append places') hreport

/-- A step that judges the text at a path reports on that place. -/
theorem Judges.reports {text : String} {x : Except SchemaFault α}
    (htext : root.valueAt? keys = some (.string text)) (h : Judges kind keys text x) :
    Reports root [.text keys kind] x := by
  cases h with
  | passes hpasses =>
    refine .clean (List.forall_mem_singleton.mpr ?_)
    rintro _ complaint ⟨text', htext', hcomplaint⟩
    rw [htext] at htext'
    cases htext'
    rw [hpasses] at hcomplaint
    cases hcomplaint
  | fails hfails hreport => exact .first (.text ⟨text, htext, hfails⟩ []) hreport

/-- The map has the texts that stand under the names at the path. -/
def HoldsTexts (root : Json) (keys : List String) (m : NameMap String) : Prop :=
  ∀ name text, m.find? name = some text ↔ root.valueAt? (keys ++ [name]) = some (.string text)

/-- A step that judges every text of a map, in order of name, reports on that place. -/
theorem HoldsTexts.reports {m : NameMap String} {f : String → String → Except SchemaFault β}
    (hm : HoldsTexts root keys m)
    (hf : ∀ name text, Judges kind (keys ++ [name]) text (f name text)) :
    Reports root [.map keys kind] (m.traverse f) := by
  -- where the step has a result, there is nothing wrong with the text
  have hpasses : ∀ {name text complaint}, (∃ result, f name text = .ok result) →
      kind.complaint? text ≠ some complaint := by
    rintro name text complaint ⟨result, hresult⟩ hcomplaint
    have hjudges := hf name text
    rw [hresult] at hjudges
    cases hjudges with
    | passes h =>
      rw [h] at hcomplaint
      cases hcomplaint
  cases htraverse : m.traverse f with
  | ok n =>
    refine .clean (List.forall_mem_singleton.mpr ?_)
    rintro _ complaint (_ | ⟨text, htext, hcomplaint⟩)
    have hresults := NameMap.exists_traverse_eq_ok_iff.mp ⟨n, htraverse⟩
    exact hpasses (hresults _ text ((hm _ text).mpr htext)) hcomplaint
  | error fault =>
    obtain ⟨name, text, htext, hfirst, hsmaller⟩ :=
      NameMap.exists_first_of_traverse_eq_error htraverse
    have hjudges := hf name text
    rw [hfirst] at hjudges
    cases hjudges with
    | @fails _ complaint hcomplaint hreport =>
      refine .first (.entry ⟨text, (hm name text).mp htext, hcomplaint⟩ ?_ []) hreport
      rintro other complaint' ⟨text', htext', hcomplaint'⟩ hlt
      exact hpasses (hsmaller other text' ((hm other text').mpr htext') (utf8Bytes_lt_iff.mp hlt))
        hcomplaint'

/-- Reading the texts of a map reports on it. -/
theorem HoldsTexts.reports_readTexts {ε : Type} {parse : String → Except ε α}
    {fault : String → ε → SchemaFault} {m : NameMap String} (hm : HoldsTexts root keys m)
    (h : kind.IsReadBy parse fault) (hkeys : keys ≠ []) :
    Reports root [.map keys kind] (readTexts parse fault (".".intercalate keys) m) := by
  refine hm.reports fun name text => ?_
  rw [← intercalate_concat hkeys]
  exact h.judges ..

end Reports

end Reading

end ElmManifest
