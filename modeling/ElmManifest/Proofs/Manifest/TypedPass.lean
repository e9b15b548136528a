import ElmManifest.Proofs.Manifest.TypedFields

/-!
# The second pass follows the first

After a text has been read as JSON, the second pass over it cannot find it broken.  Entry by entry,
it does to the text what the scan does to the entries that the first pass has read.  What it drops
is under no declared key and plays no part in what comes after, so reading twice is reading once.

## Main Definitions

* `Field.select` — the entries under declared keys.
* `ReadBy` — a manifest is read from entries by way of their scan.

## Main Statements

* `readFields_eq` — the pass over the entries is their scan.
* `typedPass_eq` — the second pass after the first one.
* `Manifest.ofBytesTwice_eq` — reading a manifest twice is reading it once.
-/

namespace ElmManifest

open Json (readValue skipSpace maxDepth reading_of_readLayer)

/-! ## The pass over the entries -/

/-- The entries under declared keys. -/
def Field.select (declared : List (Field Unit)) (entries : List (String × Json)) :
    List (String × Json) :=
  entries.filter fun entry => (declared.find? fun field => field.key == entry.1).isSome

theorem Field.select_cons_of_eq_some {declared : List (Field Unit)} {key : String} {f : Field Unit}
    (h : (declared.find? fun field => field.key == key) = some f) (value : Json)
    (entries : List (String × Json)) :
    select declared ((key, value) :: entries) = (key, value) :: select declared entries :=
  List.filter_cons_of_pos (by simp [h])

theorem Field.select_cons_of_eq_none {declared : List (Field Unit)} {key : String}
    (h : (declared.find? fun field => field.key == key) = none) (value : Json)
    (entries : List (String × Json)) :
    select declared ((key, value) :: entries) = select declared entries :=
  List.filter_cons_of_neg (by simp [h])

section Pass

variable {limit : Nat} {typed : List TypedField} {declared : List (Field Unit)}

/-- Under every key there is a typed field exactly if there is a field, and it follows it. -/
theorem find?_typed (h : List.Forall₂ TypedField.Follows typed declared) (key : String) :
    Option.Rel TypedField.Follows (typed.find? fun field => field.key == key)
      (declared.find? fun field => field.key == key) := by
  induction h with
  | nil => exact .none
  | @cons t f _ _ hfirst _ ih =>
    rw [List.find?_cons, List.find?_cons, hfirst.key_eq]
    by_cases hkey : f.key = key
    · rw [beq_iff_eq.mpr hkey]
      exact .some hfirst
    · rw [beq_false_of_ne hkey]
      exact ih

private theorem readField_of_readKey {seen : List String} {text middle : List Char} {key : String}
    (h : Json.readKey text = .ok (key, middle)) :
    readField limit typed seen text =
      match typed.find? fun field => field.key == key with
      | none =>
        ((Json.skipValue limit middle).mapError .malformed).map fun (_, rest) => (none, rest)
      | some field =>
        if key ∈ seen then .error (.schema (.duplicateField key))
        else (field.read middle).map fun (value, rest) => (some (key, value), rest) := by
  unfold readField
  rw [h]
  show (match typed.find? fun field => field.key == key with | none => _ | some field => _) = _
  cases typed.find? fun field => field.key == key with
  | none =>
    dsimp only
    cases Json.skipValue limit middle <;> rfl
  | some field =>
    dsimp only
    by_cases hseen : key ∈ seen
    · rw [if_pos hseen, if_pos hseen]
      rfl
    · rw [if_neg hseen, if_neg hseen]
      cases field.read middle <;> rfl

/-- An entry that has been read is scanned in the text. -/
theorem readField_eq (h : List.Forall₂ TypedField.Follows typed declared)
    (hlimit : maxDepth - 1 ≤ limit) (seen : List String) {text rest : List Char} {key : String}
    {value : Json}
    (hread : Json.readEntry id (readValue (maxDepth - 1)) text = .ok ((key, value), rest)) :
    readField limit typed seen text =
      match declared.find? fun field => field.key == key with
      | none => .ok (none, rest)
      | some field =>
        if key ∈ seen then .error (.schema (.duplicateField key))
        else ((field.read value).mapError .schema).map fun _ => (some (key, value), rest) := by
  obtain ⟨⟨_, middle⟩, hkey, hread⟩ := Except.bind_eq_ok_iff.mp hread
  obtain ⟨⟨_, _⟩, hvalue, hentry⟩ := Except.bind_eq_ok_iff.mp hread
  cases hentry
  rw [Except.mapError_eq_ok_iff] at hkey
  rw [readField_of_readKey hkey]
  have hfind := find?_typed h key
  generalize (typed.find? fun field => field.key == key) = found at hfind ⊢
  generalize (declared.find? fun field => field.key == key) = found' at hfind ⊢
  cases hfind with
  | none =>
    dsimp only
    rw [Json.follows_skipValue hlimit _ _ _ hvalue]
    rfl
  | @some t f hfollows =>
    dsimp only
    rw [hfollows.read_follows _ _ _ hvalue]
    dsimp only
    cases f.read value <;> rfl

/-- Behind an entry come a comma and the others, or the closing brace. -/
private theorem readFields_of_readField {count : Nat} {seen : List String}
    {text middle : List Char} {entry : Option (String × Json)}
    (h : readField limit typed seen text = .ok (entry, middle)) :
    (∀ tail, skipSpace middle = ',' :: tail → readFields limit typed (count + 1) seen text =
      (readFields limit typed count ((entry.map Prod.fst).toList ++ seen) tail).map
        fun (others, rest) => (entry.toList ++ others, rest)) ∧
    (∀ rest, skipSpace middle = '\x7d' :: rest →
      readFields limit typed (count + 1) seen text = .ok (entry.toList, rest)) := by
  constructor
  · intro tail htail
    rw [readFields, h, Except.ok_bind]
    dsimp only
    rw [htail]
    dsimp only
    rw [if_pos rfl]
    cases readFields limit typed count ((entry.map Prod.fst).toList ++ seen) tail <;> rfl
  · intro rest hrest
    rw [readFields, h, Except.ok_bind]
    dsimp only
    rw [hrest]
    rfl

/-- **The pass over the entries is their scan**: where they have been read, it finds what the scan
finds, and gives the declared ones.  The induction follows the scan, entry by entry, and what has
been seen goes along. -/
theorem readFields_eq (h : List.Forall₂ TypedField.Follows typed declared)
    (hlimit : maxDepth - 1 ≤ limit) {count : Nat} {seen : List String} {text rest : List Char}
    {entries : List (String × Json)}
    (hread : Json.readMore id '\x7d' (Json.readEntry id (readValue (maxDepth - 1))) count text =
      .ok (entries, rest)) :
    readFields limit typed count seen text =
      ((Field.scan declared seen entries).mapError .schema).map
        fun _ => (Field.select declared entries, rest) := by
  induction count generalizing seen text entries with
  | zero => cases hread
  | succ count ih =>
    obtain ⟨⟨key, value⟩, middle, hfirst, hmore⟩ := Json.readMore_cases hread
    -- What comes behind the first entry depends on it only through the keys that have been seen.
    obtain ⟨others, rfl, hafter⟩ : ∃ others, entries = (key, value) :: others ∧
        ∀ entry, readField limit typed seen text = .ok (entry, middle) →
          readFields limit typed (count + 1) seen text =
            ((Field.scan declared ((entry.map Prod.fst).toList ++ seen) others).mapError
              .schema).map fun _ => (entry.toList ++ Field.select declared others, rest) := by
      obtain ⟨tail, others, htail, hothers, rfl⟩ | ⟨hrest, -, rfl⟩ := hmore
      · refine ⟨others, rfl, fun entry hentry => ?_⟩
        rw [(readFields_of_readField hentry).1 tail htail, ih hothers]
        cases Field.scan declared ((entry.map Prod.fst).toList ++ seen) others <;> rfl
      · refine ⟨[], rfl, fun entry hentry => ?_⟩
        rw [(readFields_of_readField hentry).2 rest hrest]
        simp [Field.scan, Field.select, Except.map, Except.mapError]
    have hfield := readField_eq h hlimit seen hfirst
    rw [Field.scan]
    -- The pass and the scan do the same with the first entry: they skip it, refuse it as a
    -- repetition, or read its value.
    cases hfind : declared.find? fun field => field.key == key with
    | none =>
      rw [hfind] at hfield
      rw [Field.select_cons_of_eq_none hfind]
      exact hafter none hfield
    | some f =>
      rw [hfind] at hfield
      rw [Field.select_cons_of_eq_some hfind]
      dsimp only at hfield ⊢
      by_cases hseen : key ∈ seen
      · rw [if_pos hseen] at hfield ⊢
        rw [readFields, hfield]
        rfl
      · rw [if_neg hseen] at hfield ⊢
        cases hvalue : f.read value with
        | error fault =>
          rw [hvalue] at hfield
          rw [readFields, hfield]
          rfl
        | ok =>
          rw [hvalue] at hfield
          exact hafter (some (key, value)) hfield

/-- The pass over the inside of an object is the scan of its entries. -/
theorem readFieldsOf_eq (h : List.Forall₂ TypedField.Follows typed declared)
    (hlimit : maxDepth - 1 ≤ limit) {text rest : List Char} {entries : List (String × Json)}
    (hread : Json.readItems id '\x7d' (Json.readEntry id (readValue (maxDepth - 1))) text =
      .ok (entries, rest)) :
    readFieldsOf limit typed text =
      ((Field.scan declared [] entries).mapError .schema).map
        fun _ => (Field.select declared entries, rest) := by
  unfold Json.readItems at hread
  unfold readFieldsOf
  cases htext : skipSpace text with
  | nil =>
    rw [htext] at hread
    cases hread
  | cons c tail =>
    rw [htext] at hread
    dsimp only at hread ⊢
    by_cases hc : c = '\x7d'
    · rw [if_pos hc] at hread ⊢
      cases hread
      rfl
    · rw [if_neg hc] at hread ⊢
      exact readFields_eq h hlimit hread

/-- **The second pass is the scan of what the first pass has read.**  Behind the object there is
nothing in either pass. -/
theorem typedPass_eq (h : List.Forall₂ TypedField.Follows typed declared)
    (hlimit : maxDepth - 1 ≤ limit) {text : List Char} {entries : List (String × Json)}
    (hread : Json.read text = .ok (.object entries)) :
    typedPass limit typed text =
      ((Field.scan declared [] entries).mapError .schema).map
        fun _ => Field.select declared entries := by
  obtain ⟨⟨_, rest⟩, hvalue, hread⟩ := Except.bind_eq_ok_iff.mp hread
  obtain ⟨_, hend, hread⟩ := Except.bind_eq_ok_iff.mp hread
  cases hread
  have hreading := reading_of_readLayer hvalue
  unfold typedPass
  generalize skipSpace text = start at hreading ⊢
  cases hreading with
  | @object _ text _ _ hentries =>
    show (readFieldsOf limit typed text >>= _) = _
    rw [readFieldsOf_eq h hlimit hentries]
    cases Field.scan declared [] entries with
    | error => rfl
    | ok =>
      show ((Json.endOfText rest).mapError _ >>= _) = _
      rw [hend]
      rfl

end Pass

/-! ## Entries that are not declared -/

namespace Field

variable {α : Type} {declared : List (Field Unit)} (entries : List (String × Json))

theorem scan_select (seen : List String) :
    scan declared seen (select declared entries) = scan declared seen entries := by
  induction entries generalizing seen with
  | nil => rfl
  | cons entry entries ih =>
    obtain ⟨key, value⟩ := entry
    cases hfind : declared.find? fun field => field.key == key with
    | none =>
      rw [select_cons_of_eq_none hfind, ih, scan, hfind]
    | some f =>
      rw [select_cons_of_eq_some hfind, scan, scan, hfind]
      simp only [ih]

theorem lookup_select {f : Field α} (h : f.check ∈ declared) :
    (select declared entries).lookup f.key = entries.lookup f.key := by
  induction entries with
  | nil => rfl
  | cons entry entries ih =>
    obtain ⟨key, value⟩ := entry
    by_cases hkey : key = f.key
    · have hsome : (declared.find? fun field => field.key == key).isSome = true := by
        rw [List.find?_isSome]
        exact ⟨f.check, h, beq_iff_eq.mpr hkey.symm⟩
      obtain ⟨g, hg⟩ := Option.isSome_iff_exists.mp hsome
      rw [select_cons_of_eq_some hg, hkey, List.lookup_cons_self, List.lookup_cons_self]
    · have hother := beq_false_of_ne (Ne.symm hkey)
      rw [List.lookup_cons, hother, ← ih]
      cases hfind : declared.find? fun field => field.key == key with
      | none => rw [select_cons_of_eq_none hfind]
      | some g => rw [select_cons_of_eq_some hfind, List.lookup_cons, hother]

/-- The look at an optional declared field passes over what is not declared. -/
theorem find_select (f : Field α) (h : f.check ∈ declared) :
    f.find (select declared entries) = f.find entries := by
  unfold find
  rw [lookup_select entries h]

/-- The look at a required declared field passes over what is not declared. -/
theorem require_select (f : Field α) (h : f.check ∈ declared) :
    f.require (select declared entries) = f.require entries := by
  unfold require
  rw [lookup_select entries h]

end Field

/-! ## Reading twice -/

/-- A manifest is read from entries by way of their scan, and from the declared ones alone.  Each of
the three layouts is. -/
structure ReadBy {α : Type} (ofEntries : List (String × Json) → Except SchemaFault α)
    (declared : List (Field Unit)) : Prop where
  error_of_scan : ∀ entries fault, Field.scan declared [] entries = .error fault →
    ofEntries entries = .error fault
  select_eq : ∀ entries, ofEntries (Field.select declared entries) = ofEntries entries

theorem Application.readBy_fields : ReadBy ofEntries fields where
  error_of_scan entries fault h := by
    rw [ofEntries, h]
    rfl
  select_eq entries := by
    unfold ofEntries
    rw [Field.scan_select,
      Field.require_select entries sourceDirectoriesField (by simp [fields]),
      Field.require_select entries elmVersionField (by simp [fields]),
      Field.require_select entries dependenciesField (by simp [fields]),
      Field.find_select entries testDependenciesField (by simp [fields])]

theorem Package.readBy_fields : ReadBy ofEntries fields where
  error_of_scan entries fault h := by
    rw [ofEntries, h]
    rfl
  select_eq entries := by
    unfold ofEntries
    rw [Field.scan_select,
      Field.require_select entries nameField (by simp [fields]),
      Field.require_select entries versionField (by simp [fields]),
      Field.find_select entries summaryField (by simp [fields]),
      Field.find_select entries licenseField (by simp [fields]),
      Field.require_select entries elmVersionField (by simp [fields]),
      Field.find_select entries exposedModulesField (by simp [fields]),
      Field.find_select entries dependenciesField (by simp [fields]),
      Field.find_select entries testDependenciesField (by simp [fields])]

theorem LegacyManifest.readBy_fields : ReadBy ofEntries fields where
  error_of_scan entries fault h := by
    rw [ofEntries, h]
    rfl
  select_eq entries := by
    unfold ofEntries
    rw [Field.scan_select,
      Field.require_select entries elmVersionField (by simp [fields]),
      Field.find_select entries sourceDirectoriesField (by simp [fields]),
      Field.find_select entries exposedModulesField (by simp [fields]),
      Field.find_select entries dependenciesField (by simp [fields])]

/-- What is read from the entries that the second pass gives is what is read from all entries. -/
theorem typedPass_bind {α : Type} {ofEntries : List (String × Json) → Except SchemaFault α}
    {limit : Nat} {typed : List TypedField} {declared : List (Field Unit)}
    (hofEntries : ReadBy ofEntries declared)
    (h : List.Forall₂ TypedField.Follows typed declared) (hlimit : maxDepth - 1 ≤ limit)
    {text : List Char} {entries : List (String × Json)}
    (hread : Json.read text = .ok (.object entries)) (kind : α → Manifest) :
    (do let entries ← typedPass limit typed text
        ((ofEntries entries).map kind).mapError DecodeFault.schema) =
      ((ofEntries entries).map kind).mapError .schema := by
  rw [typedPass_eq h hlimit hread]
  cases hscan : Field.scan declared [] entries with
  | error fault =>
    rw [hofEntries.error_of_scan entries fault hscan]
    rfl
  | ok =>
    show ((ofEntries (Field.select declared entries)).map kind).mapError DecodeFault.schema = _
    rw [hofEntries.select_eq]

namespace Manifest

/-- **Reading a manifest twice is reading it once**: where the first pass has read the bytes, the
second one has nothing to add.  So `decode` stands for `decode_manifest`, although it goes through
the text once. -/
theorem ofBytesTwice_eq {limit : Nat} (hlimit : maxDepth - 1 ≤ limit) (legacy : Bool)
    (bytes : ByteArray) : ofBytesTwice limit legacy bytes = ofBytes legacy bytes := by
  unfold ofBytesTwice ofBytes
  cases hvalue : readJson bytes with
  | error => rfl
  | ok value =>
    cases value with
    | object entries =>
      have hread : Json.read (Text.Utf8.chars bytes) = .ok (.object entries) :=
        Except.mapError_eq_ok_iff.mp hvalue
      cases legacy with
      | true =>
        exact typedPass_bind LegacyManifest.readBy_fields LegacyManifest.typedFields_follow hlimit
          hread Manifest.legacy
      | false =>
        have hentries : (Json.object entries).asEntries.mapError DecodeFault.schema = .ok entries :=
          rfl
        simp only [Except.ok_bind, hentries, Bool.false_eq_true, if_false]
        unfold ofEntries
        have happlication := typedPass_bind Application.readBy_fields
          Application.typedFields_follow hlimit hread Manifest.application
        have hpackage := typedPass_bind Package.readBy_fields
          Package.typedFields_follow hlimit hread Manifest.package
        generalize (Json.effective entries).find? typeKey = found
        cases found with
        | none => rfl
        | some value =>
          cases value with
          | string kind =>
            dsimp only
            rw [happlication, hpackage]
          | _ => rfl
    | _ => rfl

end Manifest

end ElmManifest
