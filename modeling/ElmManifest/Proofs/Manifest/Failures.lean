import ElmManifest.Proofs.Json.Writing
import ElmManifest.Proofs.Manifest.TypedPass

/-!
# Failures of decoding

Bytes that are no manifest are malformed JSON, or they name a kind of manifest that does not exist,
or they do not have the shape of their kind.  Which of these it is can be said without decoding
them: the first exactly if the bytes are no JSON, the second by the effective `type` of the object.

## Main Statements

* `Manifest.ofBytes_eq_malformed_iff`, `Manifest.ofBytes_eq_unknownType_iff` — the two faults that
  are not about the schema.
* `Manifest.decode_classified` — the error of a file, read once or twice.
-/

namespace ElmManifest

namespace Manifest

variable {legacy : Bool} {bytes : ByteArray} {entries : List (String × Json)}

/-! ## Objects -/

/-- A fault of the schema is no other fault. -/
theorem mapError_schema_ne {α : Type} (x : Except SchemaFault α) {fault : DecodeFault}
    (h : ∀ other, DecodeFault.schema other ≠ fault) : x.mapError .schema ≠ .error fault := by
  rw [Ne, Except.mapError_eq_error_iff]
  rintro ⟨other, -, hother⟩
  exact h other hother

/-- The kind of an object is unknown exactly if its effective `type` is another text than the two
that are known. -/
theorem ofEntries_eq_unknownType_iff {found : String} :
    ofEntries entries = .error (.unknownType found) ↔
      found ≠ "application" ∧ found ≠ "package" ∧
        effectiveValue? "type" entries = some (.string found) := by
  unfold ofEntries
  rw [Json.find?_effective, typeKey]
  cases effectiveValue? "type" entries with
  | none => simp
  | some value =>
    cases value with
    | string kind =>
      dsimp only
      simp only [Option.some.injEq, Json.string.injEq]
      by_cases happlication : kind = "application"
      · rw [if_pos happlication]
        refine iff_of_false (mapError_schema_ne _ (by simp)) ?_
        rintro ⟨hne, -, rfl⟩
        exact hne happlication
      by_cases hpackage : kind = "package"
      · rw [if_neg happlication, if_pos hpackage]
        refine iff_of_false (mapError_schema_ne _ (by simp)) ?_
        rintro ⟨-, hne, rfl⟩
        exact hne hpackage
      rw [if_neg happlication, if_neg hpackage]
      constructor
      · rintro ⟨⟩
        exact ⟨happlication, hpackage, rfl⟩
      · rintro ⟨-, -, rfl⟩
        rfl
    | _ => simp

theorem ofEntries_ne_malformed (fault : Json.SyntaxFault) :
    ofEntries entries ≠ .error (.malformed fault) := by
  unfold ofEntries
  split
  next => simp
  next =>
    split
    next => exact mapError_schema_ne _ (by simp)
    split
    next => exact mapError_schema_ne _ (by simp)
    next => simp
  next => simp

/-! ## Bytes -/

/-- Bytes are malformed exactly if they are no JSON, and for that reason. -/
theorem ofBytes_eq_malformed_iff {fault : Json.SyntaxFault} :
    ofBytes legacy bytes = .error (.malformed fault) ↔ Json.ofBytes bytes = .error fault := by
  unfold ofBytes readJson
  cases Json.ofBytes bytes with
  | error found =>
    show Except.error (DecodeFault.malformed found) = _ ↔ _
    simp
  | ok value =>
    refine iff_of_false ?_ (by simp)
    cases value with
    | object entries =>
      cases legacy with
      | true => exact mapError_schema_ne _ (by simp)
      | false => exact ofEntries_ne_malformed fault
    | _ => rintro ⟨⟩

/-- Bytes name an unknown kind exactly if they are an object that does, in the present layout. -/
theorem ofBytes_eq_unknownType_iff {found : String} :
    ofBytes legacy bytes = .error (.unknownType found) ↔
      legacy = false ∧ ∃ entries, Json.ofBytes bytes = .ok (.object entries) ∧
        ofEntries entries = .error (.unknownType found) := by
  unfold ofBytes readJson
  cases Json.ofBytes bytes with
  | error fault =>
    show Except.error (DecodeFault.malformed fault) = _ ↔ _
    simp
  | ok value =>
    cases value with
    | object entries =>
      cases legacy with
      | true => exact iff_of_false (mapError_schema_ne _ (by simp)) (by simp)
      | false =>
        show ofEntries entries = _ ↔ _
        simp
    | _ =>
      refine iff_of_false ?_ (by simp)
      rintro ⟨⟩

/-! ## Files -/

/-- The error of a file is the fault of its bytes at the path of the file. -/
theorem decode_eq_error_iff {path : Path} {error : LoadError} :
    decode path bytes = .error error ↔
      ∃ fault, ofBytes (isLegacyPath path) bytes = .error fault ∧ fault.at path = error :=
  Except.mapError_eq_error_iff

theorem at_eq_malformedJson_iff {path : Path} {fault : DecodeFault} {found : Json.SyntaxFault} :
    fault.at path = .malformedJson path found ↔ fault = .malformed found := by
  cases fault <;> simp [DecodeFault.at]

theorem at_eq_unknownType_iff {path : Path} {fault : DecodeFault} {found : String} :
    fault.at path = .unknownType path found ↔ fault = .unknownType found := by
  cases fault <;> simp [DecodeFault.at]

/-- **The error of a file** is one of three, about the file itself: the file is malformed exactly if
its bytes are no JSON, its kind is unknown exactly if it is an object of the present layout whose
effective `type` is another text than the two that are known, and any other failure is one of the
schema.  A file that is read twice is read alike: what the first pass has read, the second one does
not find malformed.  The three kinds are those that `json` and `schema` make. -/
theorem decode_classified (path : Path) (bytes : ByteArray) :
    (∀ fault, decode path bytes = .error (.malformedJson path fault) ↔
      Json.ofBytes bytes = .error fault) ∧
    (∀ found, decode path bytes = .error (.unknownType path found) ↔
      isLegacyPath path = false ∧ ∃ entries, Json.ofBytes bytes = .ok (.object entries) ∧
        found ≠ "application" ∧ found ≠ "package" ∧
        effectiveValue? "type" entries = some (.string found)) ∧
    (∀ error, decode path bytes = .error error →
      (∃ fault, error = .malformedJson path fault) ∨ (∃ found, error = .unknownType path found) ∨
        ∃ fault, error = .schemaMismatch path fault) ∧
    ∀ limit, Json.maxDepth ≤ limit → decodeTwice limit path bytes = decode path bytes := by
  refine ⟨fun fault => ?_, fun found => ?_, fun error herror => ?_, fun limit hlimit => ?_⟩
  · rw [decode_eq_error_iff]
    simp only [at_eq_malformedJson_iff, exists_eq_right]
    exact ofBytes_eq_malformed_iff
  · rw [decode_eq_error_iff]
    simp only [at_eq_unknownType_iff, exists_eq_right]
    rw [ofBytes_eq_unknownType_iff]
    simp only [ofEntries_eq_unknownType_iff]
  · obtain ⟨fault, -, rfl⟩ := decode_eq_error_iff.mp herror
    cases fault with
    | malformed fault => exact .inl ⟨fault, rfl⟩
    | unknownType found => exact .inr (.inl ⟨found, rfl⟩)
    | schema fault => exact .inr (.inr ⟨fault, rfl⟩)
  · rw [decodeTwice, ofBytesTwice_eq (by omega), decode]

end Manifest

/-- A manifest of a kind that does not exist, which names a known kind first. -/
def pluginText : String :=
  "\x7b\"type\":\"package\",\"notes\":[\x7b\"a\":null\x7d],\"type\":\"plugin\"\x7d"

theorem ofBytes_pluginText : Json.ofBytes pluginText.toUTF8 = .ok (.object
    [("type", .string "package"), ("notes", .array [.object [("a", .null)]]),
      ("type", .string "plugin")]) := by
  have hnotes : Json.Spells 126 (Json.arrayText [Json.objectText [("a", Json.nullText)]])
      (.array [.object [("a", .null)]]) :=
    Json.spells_array (.cons (Json.spells_object (.cons ⟨rfl, Json.spells_null _⟩ .nil)) .nil)
  have hplugin : Json.Spells Json.maxDepth (Json.objectText [("type", Json.stringText "package"),
      ("notes", Json.arrayText [Json.objectText [("a", Json.nullText)]]),
      ("type", Json.stringText "plugin")]) (.object [("type", .string "package"),
        ("notes", .array [.object [("a", .null)]]), ("type", .string "plugin")]) :=
    Json.spells_object (.cons ⟨rfl, Json.spells_string _ _⟩
      (.cons ⟨rfl, hnotes⟩ (.cons ⟨rfl, Json.spells_string _ _⟩ .nil)))
  have htext : pluginText = String.ofList (Json.objectText [("type", Json.stringText "package"),
      ("notes", Json.arrayText [Json.objectText [("a", Json.nullText)]]),
      ("type", Json.stringText "plugin")]) := by
    decide +kernel
  rw [htext]
  exact Json.ofBytes_of_spells hplugin

/-- Of two kinds that a manifest names the last one counts, whether the text is read once or twice:
here it is an unknown one. -/
theorem decode_classified_pluginText :
    (∃ error, Manifest.decode ⟨"elm.json"⟩ pluginText.toUTF8 = .error error ∧
      error = .unknownType ⟨"elm.json"⟩ "plugin" ∧
      ((∃ fault, error = .malformedJson ⟨"elm.json"⟩ fault) ∨
        (∃ found, error = .unknownType ⟨"elm.json"⟩ found) ∨
        ∃ fault, error = .schemaMismatch ⟨"elm.json"⟩ fault)) ∧
    Json.maxDepth ≤ 128 ∧
      Manifest.decodeTwice 128 ⟨"elm.json"⟩ pluginText.toUTF8 =
        .error (.unknownType ⟨"elm.json"⟩ "plugin") := by
  obtain ⟨-, hunknown, hkinds, htwice⟩ :=
    Manifest.decode_classified ⟨"elm.json"⟩ pluginText.toUTF8
  have herror := (hunknown "plugin").mpr
    ⟨by decide, _, ofBytes_pluginText, by decide, by decide, rfl⟩
  exact ⟨⟨_, herror, rfl, hkinds _ herror⟩, by decide, (htwice 128 (by decide)).trans herror⟩

end ElmManifest
