import ElmManifest.NameMap
import ElmManifest.Number.Shortest
import ElmManifest.Text.Quoted

/-!
# JSON values

A JSON document, with everything about it that a later stage can observe: the entries of an object
stay in source order, and a repeated key stays repeated.

## Main Definitions

* `JsonNumber`, `Json` — numbers and values.
* `Json.Kind` — the six kinds of value, as messages name them.
* `Json.Glimpse` — what a message shows of a value that is not of the expected shape.
* `Json.effective` — the entries of an object that count: the last one under each key, in order of
  key.
* `Json.Mismatch` — a value that is not of the expected shape.
* `Json.asText`, `Json.asOptionalText`, `Json.asTexts`, `Json.asTextMap` — values of a given shape.

## Design Notes

The shape readers go through a value in source order and report the first part of it that does not
fit.
-/

namespace ElmManifest

/-- A JSON number: an integer of at most 64 bits, or else a double.  No manifest has use for a
number, but messages show the one that was found. -/
inductive JsonNumber where
  /-- A number written as an integer and small enough to be one. -/
  | integer (value : Int)
  /-- Any other number; a minus sign is kept even in front of zero. -/
  | double (negative : Bool) (size : Binary64)
  deriving DecidableEq

/-- A JSON value.  An object keeps its entries in source order and repeated keys with them, since
later readers differ in what they make of both. -/
inductive Json where
  /-- The literal `null`. -/
  | null
  /-- The literals `true` and `false`. -/
  | bool (value : Bool)
  /-- A number. -/
  | number (value : JsonNumber)
  /-- A string, escapes resolved. -/
  | string (value : String)
  /-- An array. -/
  | array (items : List Json)
  /-- An object, its entries as written. -/
  | object (entries : List (String × Json))

namespace Json

/-! ## Kinds and glimpses -/

/-- The kinds of JSON value. -/
inductive Kind where
  | null
  | bool
  | number
  | string
  | array
  | object
  deriving DecidableEq

/-- The kind of a value. -/
def kind : Json → Kind
  | .null => .null
  | .bool _ => .bool
  | .number _ => .number
  | .string _ => .string
  | .array _ => .array
  | .object _ => .object

/-- A kind as messages name it: `json_kind`. -/
def Kind.name : Kind → String
  | .null => "null"
  | .bool => "a boolean"
  | .number => "a number"
  | .string => "a string"
  | .array => "an array"
  | .object => "an object"

/-- What a message shows of a value: a scalar in full, a container by its sort. -/
inductive Glimpse where
  | null
  | bool (value : Bool)
  | number (value : JsonNumber)
  | string (value : String)
  | sequence
  | map
  deriving DecidableEq

/-- The glimpse of a value. -/
def glimpse : Json → Glimpse
  | .null => .null
  | .bool b => .bool b
  | .number n => .number n
  | .string s => .string s
  | .array _ => .sequence
  | .object _ => .map

/-- Doubles in messages: a leading digit between `10 ^ -5` and `10 ^ 15` is written positionally. -/
def numberLayout : DecimalLayout := ⟨-5, 15⟩

/-- The wording of a glimpse. -/
def Glimpse.name : Glimpse → String
  | .null => "null"
  | .bool b => "boolean `" ++ (if b then "true" else "false") ++ "`"
  | .number (.integer n) => "integer `" ++ toString n ++ "`"
  | .number (.double negative size) => "floating point `" ++ numberLayout.write negative size ++ "`"
  | .string s => "string " ++ Text.quoteText s
  | .sequence => "sequence"
  | .map => "map"

/-! ## Shapes -/

/-- The shapes that manifests ask for. -/
inductive Shape where
  | text
  | sequence
  | map
  | moduleNames
  deriving DecidableEq

/-- A shape as messages name it. -/
def Shape.name : Shape → String
  | .text => "a string"
  | .sequence => "a sequence"
  | .map => "a map"
  | .moduleNames => "a list of module names or a map of category to module names"

/-- A value that is not of the expected shape. -/
structure Mismatch where
  /-- The value. -/
  found : Glimpse
  /-- The shape it should have. -/
  expected : Shape
  deriving DecidableEq

/-- The wording of a mismatch. -/
def Mismatch.message (m : Mismatch) : String :=
  "invalid type: " ++ m.found.name ++ ", expected " ++ m.expected.name

/-- A text. -/
def asText : Json → Except Mismatch String
  | .string s => .ok s
  | v => .error ⟨v.glimpse, .text⟩

/-- A text, or `null` for none. -/
def asOptionalText : Json → Except Mismatch (Option String)
  | .null => .ok none
  | v => some <$> v.asText

/-- A list of texts. -/
def asTexts : Json → Except Mismatch (List String)
  | .array items => items.mapM asText
  | v => .error ⟨v.glimpse, .sequence⟩

/-- The values of entries as texts, in the order of the entries, so that the first one that is no
text is reported. -/
def entriesAsTexts (entries : List (String × Json)) : Except Mismatch (List (String × String)) :=
  entries.mapM fun (key, value) => do return (key, ← value.asText)

/-- A map from names to texts; under a repeated name the last text counts, but every value must be a
text. -/
def asTextMap : Json → Except Mismatch (NameMap String)
  | .object entries => NameMap.ofList <$> entriesAsTexts entries
  | v => .error ⟨v.glimpse, .map⟩

/-- Module names: a list of them, or a map from categories to such lists, read in source order:
`visit_seq` and `visit_map`.  The categories themselves are forgotten, also one that comes twice. -/
def asModuleNames : Json → Except Mismatch (List String)
  | .array items => items.mapM asText
  | .object entries => List.flatten <$> entries.mapM fun (_, names) => names.asTexts
  | v => .error ⟨v.glimpse, .moduleNames⟩

/-! ## Effective entries -/

/-- The entries of an object that count: the last one under each key, in order of key.  This is what
is left of an object that has been read as a map. -/
def effective (entries : List (String × Json)) : NameMap Json :=
  NameMap.ofList entries

/-- A map from names to texts, read from the entries that count, in order of name: an entry that a
later one replaces may have any value. -/
def asEffectiveTextMap : Json → Except Mismatch (NameMap String)
  | .object entries => (effective entries).traverse fun _ value => value.asText
  | v => .error ⟨v.glimpse, .map⟩

end Json

end ElmManifest
