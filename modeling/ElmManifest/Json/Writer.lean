import ElmManifest.Text.Split

/-!
# Writing JSON

The texts of the JSON values that manifests are made of, without any space between tokens.  In a
string, only what has to be escaped is.

## Main Definitions

* `Json.escape` — a character inside a string.
* `Json.nullText`, `Json.stringText`, `Json.arrayText`, `Json.objectText` — the texts of values.
-/

namespace ElmManifest.Json

/-- The character as it stands in a string: quotes and backslashes are escaped, and the control
characters that JSON does not allow. -/
def escape (c : Char) : List Char :=
  if c = '\x22' ∨ c = '\\' then ['\\', c]
  else if c = '\x08' then ['\\', 'b']
  else if c = '\x0C' then ['\\', 'f']
  else if c = '\n' then ['\\', 'n']
  else if c = '\r' then ['\\', 'r']
  else if c = '\t' then ['\\', 't']
  else if c.toNat < 0x20 then
    ['\\', 'u', '0', '0', Nat.digitChar (c.toNat / 16), Nat.digitChar (c.toNat % 16)]
  else [c]

/-- The text of `null`. -/
def nullText : List Char := "null".toList

/-- The text of a string. -/
def stringText (s : String) : List Char :=
  '\x22' :: (s.toList.flatMap escape ++ ['\x22'])

/-- The text of an array of values with the given texts. -/
def arrayText (items : List (List Char)) : List Char :=
  '[' :: (Text.join ',' items ++ [']'])

/-- The text of an entry of an object. -/
def entryText (entry : String × List Char) : List Char :=
  stringText entry.1 ++ ':' :: entry.2

/-- The text of an object whose entries have values with the given texts. -/
def objectText (entries : List (String × List Char)) : List Char :=
  '\x7b' :: (Text.join ',' (entries.map entryText) ++ ['\x7d'])

end ElmManifest.Json
