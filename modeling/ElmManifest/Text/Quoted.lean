import ElmManifest.Text.Unprintable

/-!
# Quotations

Error messages show a character or a text the way a program would spell it: in quotes, with the
quote itself, the backslash and everything invisible written out.

## Main Definitions

* `escape quote c` — the spelling of `c` inside quotation marks `quote`.
* `quoteChar c` — a character in single quotes.
* `quoteText s` — a text in double quotes.
-/

namespace ElmManifest.Text

/-- The spelling of a character by its code point: lower-case hexadecimal, no leading zeros. -/
def spellCodePoint (c : Char) : String :=
  "\\u\x7b" ++ String.ofList (Nat.toDigits 16 c.toNat) ++ "\x7d"

/-- The spelling of a character inside quotation marks. Only the mark in use is escaped, so a text
keeps its single quotes and a character its double quote. -/
def escape (quote : Char) (c : Char) : String :=
  if c = '\x00' then "\\0"
  else if c = '\t' then "\\t"
  else if c = '\n' then "\\n"
  else if c = '\r' then "\\r"
  else if c = '\\' then "\\\\"
  else if c = quote then "\\" ++ String.singleton c
  else if isUnprintable c then spellCodePoint c
  else String.singleton c

/-- A character in single quotes. -/
def quoteChar (c : Char) : String :=
  "'" ++ escape '\x27' c ++ "'"

/-- A text in double quotes. -/
def quoteText (s : String) : String :=
  "\"" ++ String.join (s.toList.map (escape '\x22')) ++ "\""

end ElmManifest.Text
