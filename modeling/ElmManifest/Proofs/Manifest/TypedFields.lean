import ElmManifest.Manifest.TypedPass
import ElmManifest.Proofs.Json.Skipping
import ElmManifest.Proofs.Manifest.Shapes

/-!
# Typed fields

A typed field reads a value straight from the text.  Where the value has been read as JSON before,
the typed field gives this value, or refuses it for what the field of the entries refuses it for: it
follows the reader of values, seeing what the shape reader sees.

## Main Definitions

* `Json.asTextEntries` — a map of texts, as its entries are written.
* `TypedField.Follows` — a typed field that does what a field of the entries does.

## Main Statements

* `refuse_of_readLayer` — a value that has been read is refused for its shape.
* `follows_readName`, `follows_readNames`, `follows_readTextEntries`, `follows_readModules` — the
  readers of the shapes follow the reader of values.
* `Application.typedFields_follow`, `Package.typedFields_follow`,
  `LegacyManifest.typedFields_follow` — so do the typed fields of each kind of manifest.
-/

namespace ElmManifest

open Json (Follows Inner Reading underKey readLayer readValue skipSpace maxDepth
  reading_of_readLayer)

open ExposedModules (Fault refuse readName readNames)

/-! ## Readers of the shapes -/

/-- A scalar that has been read is refused for its shape. -/
private theorem refuse_of_scalar {α : Type} {text rest : List Char} {value : Json}
    (h : readLayer none text = .ok (value, rest)) (shape : Json.Shape) :
    (refuse shape text : Except Fault α) = .error (.wrongShape ⟨value.glimpse, shape⟩) := by
  unfold refuse
  split
  next => cases h
  next => cases h
  next => rw [h]

/-- A value that has been read is refused for its shape. -/
theorem refuse_of_readLayer {α : Type} {inner : Inner} {text rest : List Char} {value : Json}
    (h : readLayer inner text = .ok (value, rest)) (shape : Json.Shape) :
    (refuse shape (skipSpace text) : Except Fault α) =
      .error (.wrongShape ⟨value.glimpse, shape⟩) := by
  have hscalar : Reading none (skipSpace text) value rest → (refuse shape (skipSpace text) :
      Except Fault α) = .error (.wrongShape ⟨value.glimpse, shape⟩) := by
    intro hreading
    apply refuse_of_scalar
    apply Json.readLayer_of_reading
    rwa [Json.skipSpace_skipSpace]
  have hreading := reading_of_readLayer h
  generalize skipSpace text = start at hreading hscalar ⊢
  cases hreading with
  | string hcontent => exact hscalar (.string hcontent)
  | array => rfl
  | object => rfl
  | number hc hn => exact hscalar (.number hc hn)
  | null hliteral => exact hscalar (.null hliteral)
  | true hliteral => exact hscalar (.true hliteral)
  | false hliteral => exact hscalar (.false hliteral)

/-- The entries of a map of texts, as they are written. -/
def Json.asTextEntries : Json → Except Json.Mismatch (List (String × String))
  | .object entries => Json.entriesAsTexts entries
  | value => .error ⟨value.glimpse, .map⟩

theorem Json.asTextMap_eq (value : Json) :
    value.asTextMap = value.asTextEntries.map NameMap.ofList := by
  cases value <;> rfl

/-- Computing the values of entries is computing the entries and forgetting their names. -/
theorem mapM_values {α ε : Type} (view : Json → Except ε α) (entries : List (String × Json)) :
    (entries.mapM fun (_, value) => view value) =
      (entries.mapM (underKey view)).map (List.map Prod.snd) := by
  induction entries with
  | nil => rfl
  | cons entry entries ih =>
    obtain ⟨name, value⟩ := entry
    rw [List.mapM_cons, List.mapM_cons, ih, underKey]
    dsimp only
    cases view value with
    | error => rfl
    | ok => cases entries.mapM (underKey view) <;> rfl

/-- Entries that are read as groups of texts hold arrays of these. -/
theorem entries_eq_of_groups {entries : List (String × Json)} {groups : List (String × List String)}
    (h : entries.mapM (underKey Json.asTexts) = .ok groups) :
    entries = groups.map fun group => (group.1, .array (group.2.map .string)) := by
  rw [← List.forall₂_eq_eq_eq, List.forall₂_map_right_iff]
  apply (List.mapM_eq_ok_iff.mp h).imp
  rintro ⟨name, value⟩ group hgroup
  obtain ⟨texts, hvalue, hgroup⟩ := Except.bind_eq_ok_iff.mp hgroup
  cases hgroup
  rw [← Json.asTexts_eq_ok_iff.mp hvalue]

section Readers

variable {α : Type} {read : List Char → Except Fault (α × List Char)}
  {view : Json → Except Json.Mismatch α} (depth : Nat)

/-- Items are read, or refused, as the values they are. -/
theorem follows_items
    (h : Follows (readValue depth) read fun value => (view value).mapError .wrongShape) :
    Follows (Json.readItems id ']' (readValue depth)) (Json.readItems .broken ']' read)
      fun items => (items.mapM view).mapError .wrongShape := by
  intro text items rest hread
  rw [h.readItems .broken _ _ _ hread, List.mapM_mapError]

/-- The values of entries are read, or refused, as the values they are. -/
theorem follows_entries
    (h : Follows (readValue depth) read fun value => (view value).mapError .wrongShape) :
    Follows (Json.readItems id '\x7d' (Json.readEntry id (readValue depth)))
      (Json.readItems .broken '\x7d' (Json.readEntry .broken read))
      fun entries => (entries.mapM (underKey view)).mapError .wrongShape := by
  intro text entries rest hread
  rw [(h.readEntry .broken).readItems .broken _ _ _ hread]
  dsimp only
  rw [← List.mapM_mapError]
  congr 2
  ext entry : 1
  unfold underKey
  dsimp only
  cases view entry.2 <;> rfl

/-- A reader follows the reader of values if it does so in every way in which a value is read,
where it may refuse the value for its shape. -/
theorem follows_of_reading {view : Json → Except Fault α}
    (h : ∀ inner text value rest, readValue depth = readLayer inner →
      (∀ part, inner = some part → ∃ smaller, part = readValue smaller) →
      Reading inner (skipSpace text) value rest →
      (∀ shape, (refuse shape (skipSpace text) : Except Fault (α × List Char)) =
        .error (.wrongShape ⟨value.glimpse, shape⟩)) →
      read text = (view value).map fun a => (a, rest)) :
    Follows (readValue depth) read view := by
  obtain ⟨inner, hdepth, hinner⟩ := Json.readValue_eq_readLayer depth
  intro text value rest hread
  rw [hdepth] at hread
  exact h inner text value rest hdepth hinner (reading_of_readLayer hread)
    (refuse_of_readLayer hread)

/-- A text is read, or refused, as the value it is. -/
theorem follows_readName :
    Follows (readValue depth) readName fun value => value.asText.mapError .wrongShape := by
  apply follows_of_reading
  intro inner text value rest _ _ hreading hrefuse
  unfold readName
  generalize skipSpace text = start at hreading hrefuse ⊢
  cases hreading with
  | string hcontent =>
    show ((Json.readText _).mapError Fault.broken >>= _) = _
    rw [hcontent]
    rfl
  | number hc =>
    split
    next heq =>
      cases heq
      exact absurd hc (by decide)
    next => exact hrefuse _
  | _ => exact hrefuse _

/-- A text or `null` is read as the value it is. -/
theorem follows_readOptional : Follows (readValue depth) TypedField.readOptional
    fun value => value.asOptionalText.mapError .wrongShape := by
  apply follows_of_reading
  intro inner text value rest hdepth _ hreading _
  have hvalue : readValue depth (skipSpace text) = .ok (value, rest) := by
    rw [hdepth]
    apply Json.readLayer_of_reading
    rwa [Json.skipSpace_skipSpace]
  have hsome : (readName (skipSpace text) >>= fun r => return (some r.1, r.2)) =
      ((some <$> value.asText).mapError Fault.wrongShape).map fun name => (name, rest) := by
    rw [follows_readName depth _ _ _ hvalue]
    dsimp only
    cases value.asText <;> rfl
  unfold TypedField.readOptional
  generalize skipSpace text = start at hreading hsome ⊢
  cases hreading with
  | null hliteral =>
    show ((Json.readLiteral _ _).mapError Fault.broken >>= _) = _
    rw [hliteral]
    rfl
  | number hc =>
    split
    next heq =>
      cases heq
      exact absurd hc (by decide)
    next => exact hsome
  | _ => exact hsome

/-- A list of texts is read, or refused, as the value it is. -/
theorem follows_readNames :
    Follows (readValue depth) readNames fun value => value.asTexts.mapError .wrongShape := by
  apply follows_of_reading
  intro inner text value rest _ hinner hreading hrefuse
  unfold readNames
  generalize skipSpace text = start at hreading hrefuse ⊢
  cases hreading with
  | array hitems =>
    obtain ⟨smaller, rfl⟩ := hinner _ rfl
    exact follows_items smaller (follows_readName smaller) _ _ _ hitems
  | number hc =>
    split
    next heq =>
      cases heq
      exact absurd hc (by decide)
    next => exact hrefuse _
  | _ => exact hrefuse _

/-- A map of texts is read, or refused, as the value it is. -/
theorem follows_readTextEntries : Follows (readValue depth) TypedField.readTextEntries
    fun value => value.asTextEntries.mapError .wrongShape := by
  apply follows_of_reading
  intro inner text value rest _ hinner hreading hrefuse
  unfold TypedField.readTextEntries
  generalize skipSpace text = start at hreading hrefuse ⊢
  cases hreading with
  | object hentries =>
    obtain ⟨smaller, rfl⟩ := hinner _ rfl
    exact follows_entries smaller (follows_readName smaller) _ _ _ hentries
  | number hc =>
    split
    next heq =>
      cases heq
      exact absurd hc (by decide)
    next => exact hrefuse _
  | _ => exact hrefuse _

/-- Module names are read, or refused, as the value they are. -/
theorem follows_readModules : Follows (readValue depth) TypedField.readModules
    fun value => (value.asModuleNames.map fun _ => value).mapError .wrongShape := by
  apply follows_of_reading
  intro inner text value rest _ hinner hreading hrefuse
  unfold TypedField.readModules
  generalize skipSpace text = start at hreading hrefuse ⊢
  cases hreading with
  | @array _ text _ items hitems =>
    obtain ⟨smaller, rfl⟩ := hinner _ rfl
    show (Json.readItems Fault.broken ']' readName text >>= _) = _
    rw [follows_items smaller (follows_readName smaller) _ _ _ hitems]
    dsimp only [Json.asModuleNames]
    cases htexts : items.mapM Json.asText with
    | error => rfl
    | ok texts =>
      rw [Json.mapM_asText_eq_ok_iff.mp htexts]
      rfl
  | @object _ text _ entries hentries =>
    obtain ⟨smaller, rfl⟩ := hinner _ rfl
    show (Json.readItems Fault.broken '\x7d' (Json.readEntry Fault.broken readNames) text >>= _) = _
    rw [follows_entries smaller (follows_readNames smaller) _ _ _ hentries]
    dsimp only [Json.asModuleNames]
    rw [mapM_values]
    cases hgroups : entries.mapM (underKey Json.asTexts) with
    | error => rfl
    | ok groups =>
      rw [entries_eq_of_groups hgroups]
      rfl
  | number hc =>
    split
    next heq =>
      cases heq
      exact absurd hc (by decide)
    next heq =>
      cases heq
      exact absurd hc (by decide)
    next => exact hrefuse _
  | _ => exact hrefuse _

end Readers

/-! ## Typed fields -/

/-- A typed field of the text does what a field of the entries does: where its value has been read,
it gives the value, or the fault of the field. -/
structure TypedField.Follows (typed : TypedField) (f : Field Unit) : Prop where
  key_eq : typed.key = f.key
  read_follows : Json.Follows (readValue (maxDepth - 1)) typed.read
    fun value => ((f.read value).mapError .schema).map fun _ => value

namespace TypedField

variable (key : String)

/-- A typed reader makes a field that follows, if it refuses the values that the shape reader of the
field refuses. -/
theorem follows_ofReader {α β : Type} {shape : Json → Except Json.Mismatch β} {toJson : α → Json}
    {read : List Char → Except Fault (α × List Char)} {view : Json → Except Json.Mismatch α}
    (hread : Json.Follows (readValue (maxDepth - 1)) read
      fun value => (view value).mapError .wrongShape)
    (htoJson : ∀ value a, view value = .ok a → toJson a = value)
    (hview : ∀ value, ((shape value).map fun _ => ()) = (view value).map fun _ => ()) :
    (ofReader key toJson read).Follows (Field.ofShape key shape).check where
  key_eq := rfl
  read_follows := by
    intro text value rest hvalue
    have hfault : (Field.ofShape key shape).check.read value =
        ((view value).map fun _ => ()).mapError .wrongShape := by
      rw [← hview]
      unfold Field.ofShape Field.check
      dsimp only
      cases shape value <;> rfl
    unfold ofReader
    dsimp only
    rw [hread _ _ _ hvalue, hfault]
    dsimp only
    cases ha : view value with
    | error => rfl
    | ok a =>
      rw [← htoJson value a ha]
      rfl

theorem follows_text : (text key).Follows (Field.ofShape key Json.asText).check :=
  follows_ofReader key (follows_readName _) (fun _ _ h => (Json.asText_eq_ok_iff.mp h).symm)
    fun _ => rfl

theorem follows_optionalText :
    (optionalText key).Follows (Field.ofShape key Json.asOptionalText).check :=
  follows_ofReader key (follows_readOptional _)
    (fun _ _ h => (Json.asOptionalText_eq_ok_iff.mp h).symm) fun _ => rfl

theorem follows_texts : (texts key).Follows (Field.ofShape key Json.asTexts).check :=
  follows_ofReader key (follows_readNames _) (fun _ _ h => (Json.asTexts_eq_ok_iff.mp h).symm)
    fun _ => rfl

theorem follows_textMap : (textMap key).Follows (Field.ofShape key Json.asTextMap).check := by
  apply follows_ofReader key (follows_readTextEntries _)
  · intro value texts h
    cases value with
    | object entries =>
      rw [Json.entriesAsTexts_eq_ok_iff.mp h]
      rfl
    | _ => cases h
  · intro value
    rw [Json.asTextMap_eq]
    cases value.asTextEntries <;> rfl

theorem follows_moduleNames :
    (moduleNames key).Follows (Field.ofShape key Json.asModuleNames).check := by
  apply follows_ofReader key (follows_readModules _)
  · intro value names h
    obtain ⟨_, -, rfl⟩ := Except.map_eq_ok_iff.mp h
    rfl
  · intro value
    cases value.asModuleNames <;> rfl

theorem follows_pins : (pins key).Follows (Field.check ⟨key, ExactDependencyTexts.ofJson⟩) where
  key_eq := rfl
  read_follows := by
    intro text value rest hvalue
    show ((readValue (maxDepth - 1) text).mapError _ >>= _) = _
    rw [hvalue]
    show ((ExactDependencyTexts.ofJson value).mapError _ >>= _) =
      ((((ExactDependencyTexts.ofJson value).map _).mapError _).map _).map _
    cases ExactDependencyTexts.ofJson value <;> rfl

end TypedField

open TypedField

/-- The typed fields of an application do what its fields do. -/
theorem Application.typedFields_follow :
    List.Forall₂ TypedField.Follows Application.typedFields Application.fields :=
  .cons (follows_texts _) <| .cons (follows_text _) <| .cons (follows_pins _) <|
    .cons (follows_pins _) .nil

/-- The typed fields of a package do what its fields do. -/
theorem Package.typedFields_follow :
    List.Forall₂ TypedField.Follows Package.typedFields Package.fields :=
  .cons (follows_text _) <| .cons (follows_text _) <| .cons (follows_optionalText _) <|
    .cons (follows_optionalText _) <| .cons (follows_text _) <| .cons (follows_moduleNames _) <|
    .cons (follows_textMap _) <| .cons (follows_textMap _) .nil

/-- The typed fields of a manifest in the older layout do what its fields do. -/
theorem LegacyManifest.typedFields_follow :
    List.Forall₂ TypedField.Follows LegacyManifest.typedFields LegacyManifest.fields :=
  .cons (follows_text _) <| .cons (follows_texts _) <| .cons (follows_moduleNames _) <|
    .cons (follows_textMap _) .nil

end ElmManifest
