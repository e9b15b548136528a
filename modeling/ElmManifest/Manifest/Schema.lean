import ElmManifest.Manifest.Fault

/-!
# Fields of an object

A manifest is an object with declared fields.  Reading it takes two steps: one pass over the entries
in source order, in which the first thing out of place is reported, and then one look at each field.

## Main Definitions

* `Field` — a key with a reader for its value.
* `Field.scan` — the pass over the entries.
* `Field.find`, `Field.require` — the value of an optional and of a required field.

## Design Notes

Entries under other keys are skipped without a look at their values.  A declared key that comes a
second time is refused at that point, so after a scan every declared field has one value at most.
-/

namespace ElmManifest

/-- A declared field: its key, and what its value must be. -/
structure Field (α : Type) where
  /-- The key. -/
  key : String
  /-- The reader of its value. -/
  read : Json → Except SchemaFault α

namespace Field

variable {α : Type}

/-- A field whose value has one of the general shapes. -/
def ofShape (key : String) (read : Json → Except Json.Mismatch α) : Field α :=
  ⟨key, fun value => (read value).mapError .wrongShape⟩

/-- The field as a scan sees it: its value is read and forgotten, so that fields with values of
different types can stand in one list. -/
def check (f : Field α) : Field Unit :=
  ⟨f.key, fun value => (f.read value).map fun _ => ()⟩

/-- Goes through the entries in source order: each declared key is seen once at most, and its value
is what it must be.  A derived reader of fields takes the same way, which settles which of several
faults is reported. -/
def scan (declared : List (Field Unit)) (seen : List String) :
    List (String × Json) → Except SchemaFault Unit
  | [] => .ok ()
  | (key, value) :: rest =>
    match declared.find? fun field => field.key == key with
    | none => scan declared seen rest
    | some field =>
      if key ∈ seen then .error (.duplicateField key)
      else do
        field.read value
        scan declared (key :: seen) rest

/-- The value of a field that may be missing.  After a scan there is at most one. -/
def find (f : Field α) (entries : List (String × Json)) : Except SchemaFault (Option α) :=
  match entries.lookup f.key with
  | none => .ok none
  | some value => some <$> f.read value

/-- The value of a field that must be there.  That it is missing is only known at the end of the
object, so this comes after the scan. -/
def require (f : Field α) (entries : List (String × Json)) : Except SchemaFault α :=
  match entries.lookup f.key with
  | none => .error (.missingField f.key)
  | some value => f.read value

end Field

/-- The entries of an object; any other value is refused with its kind: the second half of
`read_object`. -/
def Json.asEntries : Json → Except SchemaFault (List (String × Json))
  | .object entries => .ok entries
  | value => .error (.notAnObject value.kind)

end ElmManifest
