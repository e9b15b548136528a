import ElmManifest.Number.Binary64

/-!
# The shortest decimal of a double

A double is written with the fewest decimal digits that still read back as the same double, and of
those with the digits nearest to it.

## Main Definitions

* `Binary64.shortest` — the digits, with the power of ten of the last one.
* `DecimalLayout` — where positional notation begins and ends.
* `DecimalLayout.write` — a double as text.

## Design Notes

The decimals with `n` digits form a grid around the value, so it is enough to look at the two
neighbours of the value on each grid, for one digit, two digits, and so on.  Seventeen digits always
suffice.
-/

namespace ElmManifest

namespace Binary64

/-- The value as a quotient of natural numbers. -/
def ratio (x : Binary64) : Nat × Nat :=
  scaled x.significand 1 x.exponent

/-- Four times the ends of the interval of numbers that round to the double, over the denominator of
`ratio`.  Below a power of two the doubles lie twice as close. -/
def roundingInterval (x : Binary64) : Nat × Nat :=
  let step := (scaled 1 1 x.exponent).1
  let value := 4 * x.ratio.1
  let below := if x.significand = fullWidth ∧ minExponent < x.exponent then step else 2 * step
  (value - below, value + 2 * step)

/-- Whether the decimal `digits * 10 ^ power` rounds to the double.  An end of the interval does so
exactly when the significand is even. -/
def readsBack (x : Binary64) (digits : Nat) (power : Int) : Bool :=
  let (low, high) := x.roundingInterval
  let up := Nat.pow 10 power.toNat
  let down := Nat.pow 10 (-power).toNat
  let decimal := 4 * digits * up * x.ratio.2
  if x.significand % 2 = 0 then low * down ≤ decimal && decimal ≤ high * down
  else low * down < decimal && decimal < high * down

/-- The power of ten of the leading digit of a positive quotient. -/
def leadingPower (num den : Nat) : Int :=
  if den ≤ num then ((Nat.toDigits 10 (num / den)).length : Int) - 1
  else
    match (List.range 400).find? fun places => den ≤ num * Nat.pow 10 (places + 1) with
    | some places => -((places : Int) + 1)
    | none => 0

/-- The decimal on the grid of `10 ^ power` that is nearest to the double, if it or its neighbour on
the other side of the double reads back. -/
def onGrid (x : Binary64) (power : Int) : Option Nat :=
  let (num, den) := x.ratio
  let num := num * Nat.pow 10 (-power).toNat
  let den := den * Nat.pow 10 power.toNat
  let low := num / den
  let nearest := roundDiv num den
  let other := if nearest = low then low + 1 else low
  if x.readsBack nearest power then some nearest
  else if x.readsBack other power then some other
  else none

/-- A decimal without trailing zeros. -/
def trimZeros : Nat → Nat → Int → Nat × Int
  | 0, digits, power => (digits, power)
  | fuel + 1, digits, power =>
    if digits % 10 = 0 ∧ digits ≠ 0 then trimZeros fuel (digits / 10) (power + 1)
    else (digits, power)

/-- The digits of the shortest decimal that reads back as the double, and the power of ten of the
last digit. -/
def shortest (x : Binary64) : Nat × Int :=
  let leading := leadingPower x.ratio.1 x.ratio.2
  let onGrids := (List.range 17).findSome? fun (more : Nat) =>
    (x.onGrid (leading - (more : Int))).map fun digits => (digits, leading - (more : Int))
  match onGrids with
  | some (digits, power) => trimZeros 17 digits power
  | none => (0, 0)

end Binary64

/-- How doubles are laid out as text: which of them are written without an exponent. -/
structure DecimalLayout where
  /-- The least power of ten of a leading digit that is written positionally. -/
  leastPositional : Int
  /-- The greatest one. -/
  greatestPositional : Int

namespace DecimalLayout

/-- Zeros. -/
def zeros (count : Nat) : String :=
  String.ofList (List.replicate count '0')

/-- An exponent, which always has a sign. -/
def exponentText (power : Int) : String :=
  (if power < 0 then "-" else "+") ++ toString power.natAbs

/-- Digits with the point behind the first one, and nothing behind a point that would end the text.
-/
def pointedText (digits : String) : String :=
  match digits.toList with
  | [] => ""
  | [digit] => String.singleton digit
  | digit :: more => String.singleton digit ++ "." ++ String.ofList more

/-- A positional decimal; there is always a digit on both sides of the point. -/
def positionalText (digits : String) (leading : Int) : String :=
  if leading < 0 then "0." ++ zeros (-leading - 1).toNat ++ digits
  else
    let whole := leading.toNat + 1
    if digits.length ≤ whole then digits ++ zeros (whole - digits.length) ++ ".0"
    else String.ofList (digits.toList.take whole) ++ "." ++ String.ofList (digits.toList.drop whole)

/-- A double as text. -/
def write (layout : DecimalLayout) (negative : Bool) (x : Binary64) : String :=
  let sign := if negative then "-" else ""
  if x.significand = 0 then sign ++ "0.0"
  else
    let (digits, power) := x.shortest
    let text := toString digits
    let leading := power + (text.length : Int) - 1
    if layout.leastPositional ≤ leading ∧ leading ≤ layout.greatestPositional then
      sign ++ positionalText text leading
    else sign ++ pointedText text ++ "e" ++ exponentText leading

end DecimalLayout

end ElmManifest
