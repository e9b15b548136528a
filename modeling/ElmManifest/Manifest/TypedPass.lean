import ElmManifest.Json.Skipping
import ElmManifest.Manifest.Decode
import ElmManifest.Manifest.ExposedModules

/-!
# Reading a manifest twice

A decoder that needs the kind of a manifest before it can read its fields goes through the text
twice.  The first pass reads all of it as JSON.  The second one knows the fields: it reads the value
of a declared key straight from the text, as what the field must be, and skips every other value.

## Main Definitions

* `TypedField` — a declared field: its key, and the reader of its value in the text.
* `typedPass` — the second pass over a text, which gives the declared entries.
* `Manifest.decodeTwice` — the bytes of a manifest file, read twice.

## Design Notes

The two passes ask different things of a text: the second one may pass over what the first one would
refuse, and it is free to find a text broken that the first one has read.  How deep the values nest
that it skips is a parameter.

The dependencies of an application are read as JSON in the second pass too, and looked into
afterwards.
-/

namespace ElmManifest

/-! ## Typed fields -/

open Json (skipSpace readItems readEntry readLiteral readKey skipValue)

open ExposedModules (Fault refuse readName readNames)

/-- A declared field of a text: its key, and the reader of its value. -/
structure TypedField where
  /-- The key. -/
  key : String
  /-- The reader of its value, which gives the value as JSON. -/
  read : List Char → Except DecodeFault (Json × List Char)

namespace TypedField

variable {α : Type}

/-- A field whose value is read as something that `toJson` makes JSON of. -/
def ofReader (key : String) (toJson : α → Json)
    (read : List Char → Except Fault (α × List Char)) : TypedField where
  key
  read text :=
    match read text with
    | .ok (a, rest) => .ok (toJson a, rest)
    | .error (.broken fault) => .error (.malformed fault)
    | .error (.wrongShape mismatch) => .error (.schema (.wrongShape mismatch))

/-- Reads a text, or `null` for none. -/
def readOptional (text : List Char) : Except Fault (Option String × List Char) :=
  match skipSpace text with
  | 'n' :: rest => do return (none, ← (readLiteral "ull".toList rest).mapError .broken)
  | text => do
    let (name, rest) ← readName text
    return (some name, rest)

/-- Reads a map from names to texts. -/
def readTextEntries (text : List Char) : Except Fault (List (String × String) × List Char) :=
  match skipSpace text with
  | '\x7b' :: rest => readItems .broken '\x7d' (readEntry .broken readName) rest
  | text => refuse .map text

/-- Reads module names: a list of them, or a map from categories to such lists. -/
def readModules (text : List Char) : Except Fault (Json × List Char) :=
  match skipSpace text with
  | '[' :: rest => do
    let (names, rest) ← readItems .broken ']' readName rest
    return (.array (names.map .string), rest)
  | '\x7b' :: rest => do
    let (groups, rest) ← readItems .broken '\x7d' (readEntry .broken readNames) rest
    return (.object (groups.map fun group => (group.1, .array (group.2.map .string))), rest)
  | text => refuse .moduleNames text

/-- A field with a text. -/
def text (key : String) : TypedField := ofReader key .string readName

/-- A field with a text or `null`. -/
def optionalText (key : String) : TypedField :=
  ofReader key (fun text => text.elim .null .string) readOptional

/-- A field with a list of texts. -/
def texts (key : String) : TypedField :=
  ofReader key (fun names => .array (names.map .string)) readNames

/-- A field with a map of texts. -/
def textMap (key : String) : TypedField :=
  ofReader key (fun entries => .object (entries.map fun entry => (entry.1, .string entry.2)))
    readTextEntries

/-- A field with module names. -/
def moduleNames (key : String) : TypedField := ofReader key id readModules

/-- A field with the dependencies of an application, which are read as JSON and only then looked
into: `object`. -/
def pins (key : String) : TypedField where
  key
  read text := do
    let (value, rest) ← (Json.readValue (Json.maxDepth - 1) text).mapError .malformed
    let _ ← (ExactDependencyTexts.ofJson value).mapError .schema
    return (value, rest)

end TypedField

/-- The fields of an application manifest in its text. -/
def Application.typedFields : List TypedField :=
  [.texts "source-directories", .text "elm-version", .pins "dependencies",
    .pins "test-dependencies"]

/-- The fields of a package manifest in its text. -/
def Package.typedFields : List TypedField :=
  [.text "name", .text "version", .optionalText "summary", .optionalText "license",
    .text "elm-version", .moduleNames "exposed-modules", .textMap "dependencies",
    .textMap "test-dependencies"]

/-- The fields of a manifest in the older layout in its text. -/
def LegacyManifest.typedFields : List TypedField :=
  [.text "elm-version", .texts "source-directories", .moduleNames "exposed-modules",
    .textMap "dependencies"]

/-! ## The second pass -/

section Pass

variable (limit : Nat) (declared : List TypedField)

/-- Reads an entry: the value of a declared key that is new, and nothing of any other value. -/
def readField (seen : List String) (text : List Char) :
    Except DecodeFault (Option (String × Json) × List Char) := do
  let (key, text) ← (readKey text).mapError .malformed
  match declared.find? fun field => field.key == key with
  | none =>
    let (_, text) ← (skipValue limit text).mapError .malformed
    return (none, text)
  | some field =>
    if key ∈ seen then throw (.schema (.duplicateField key))
    let (value, text) ← field.read text
    return (some (key, value), text)

/-- Reads entries and the commas between them, up to and including the closing brace.  The number
bounds the entries, and no object has more of them than characters. -/
def readFields : Nat → List String → List Char →
    Except DecodeFault (List (String × Json) × List Char)
  | 0, _, _ => .error (.malformed .unexpectedEnd)
  | count + 1, seen, text => do
    let (entry, text) ← readField limit declared seen text
    match skipSpace text with
    | [] => throw (.malformed .unexpectedEnd)
    | c :: text =>
      if c = ',' then
        let (others, text) ← readFields count ((entry.map Prod.fst).toList ++ seen) text
        return (entry.toList ++ others, text)
      else if c = '\x7d' then return (entry.toList, text)
      else throw (.malformed (.unexpected c))

/-- Reads the inside of an object behind its opening brace. -/
def readFieldsOf (text : List Char) : Except DecodeFault (List (String × Json) × List Char) :=
  match skipSpace text with
  | [] => .error (.malformed .unexpectedEnd)
  | c :: rest =>
    if c = '\x7d' then .ok ([], rest)
    else readFields limit declared (c :: rest).length [] (c :: rest)

/-- Reads the declared entries of a text that holds one object and nothing else: the second pass of
`decode_object`, which goes through the bytes again because only they have the entries of a map in
source order. -/
def typedPass (text : List Char) : Except DecodeFault (List (String × Json)) :=
  match skipSpace text with
  | '\x7b' :: rest => do
    let (entries, rest) ← readFieldsOf limit declared rest
    (Json.endOfText rest).mapError .malformed
    return entries
  | [] => .error (.malformed .unexpectedEnd)
  | c :: _ => .error (.malformed (.unexpected c))

end Pass

/-! ## Files -/

namespace Manifest

/-- Reads the bytes of a manifest twice: as JSON, to see that it is an object and of which kind, and
then by its declared fields. -/
def ofBytesTwice (limit : Nat) (legacy : Bool) (bytes : ByteArray) :
    Except DecodeFault Manifest := do
  let text := Text.Utf8.chars bytes
  let value ← readJson bytes
  let entries ← value.asEntries.mapError .schema
  if legacy then
    let entries ← typedPass limit LegacyManifest.typedFields text
    ((LegacyManifest.ofEntries entries).map .legacy).mapError .schema
  else
    match (Json.effective entries).find? typeKey with
    | none => .error (.schema (.missingField typeKey))
    | some (.string kind) =>
      if kind = "application" then do
        let entries ← typedPass limit Application.typedFields text
        ((Application.ofEntries entries).map .application).mapError .schema
      else if kind = "package" then do
        let entries ← typedPass limit Package.typedFields text
        ((Package.ofEntries entries).map .package).mapError .schema
      else .error (.unknownType kind)
    | some value => .error (.schema (.typeNotText value.kind))

/-- Reads the bytes of the manifest at a path twice: `decode_manifest` as it goes through the text.
`Manifest.decode` gives the same from the first pass alone. -/
def decodeTwice (limit : Nat) (path : Path) (bytes : ByteArray) : Except LoadError Manifest :=
  (ofBytesTwice limit (isLegacyPath path) bytes).mapError (·.at path)

end Manifest

end ElmManifest
