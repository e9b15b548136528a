/-!
# White space

Range texts are read with every blank removed, so which characters are blank is part of the format.
`isBlank` is the Unicode property `White_Space`, which holds of twenty-five code points.

## Main Definitions

* `isBlank` — the property.

## Design Notes

The property is wider than the blanks of JSON and of a settings file; each of those formats names
its own in the module that reads it.
-/

namespace ElmManifest.Text

/-- The Unicode property `White_Space`. -/
def isBlank (c : Char) : Bool :=
  let n := c.toNat
  (0x9 ≤ n && n ≤ 0xD) || n == 0x20 || n == 0x85 || n == 0xA0 || n == 0x1680 ||
    (0x2000 ≤ n && n ≤ 0x200A) || n == 0x2028 || n == 0x2029 || n == 0x202F || n == 0x205F ||
    n == 0x3000

end ElmManifest.Text
