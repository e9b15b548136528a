/-!
# Double-precision numbers

JSON numbers that are not integers are kept as the double-precision numbers they denote.  Only
finite values occur, and sign and size are handled apart, so a `Binary64` is a size: a natural
significand times a power of two.

## Main Definitions

* `Binary64` — a finite, non-negative double.
* `Binary64.nearest num den scale` — the double nearest to `num / den * 2 ^ scale`, if one is near
  enough.
* `Binary64.ofNat`, `Binary64.mul`, `Binary64.div` — arithmetic, rounded once per operation.
* `Binary64.ofDecimal` — the double for `significand * 10 ^ exponent`.

## Design Notes

Every operation is exact integer arithmetic followed by one rounding, a tie going to the even
significand.  `ofDecimal` rounds up to four times on the way: the significand, the power of ten, and
each product or quotient of the two.
-/

namespace ElmManifest

/-- The finite double `significand * 2 ^ exponent`.  The exponent is at least `-1074`, and the
significand fills 53 bits unless the exponent is that low. -/
structure Binary64 where
  /-- The significand, below `2 ^ 53`. -/
  significand : Nat
  /-- The power of two. -/
  exponent : Int
  deriving DecidableEq

namespace Binary64

/-- The least exponent. -/
def minExponent : Int := -1074

/-- The greatest exponent. -/
def maxExponent : Int := 971

/-- The significands of full width, which start here and end below twice this number. -/
def fullWidth : Nat := Nat.pow 2 52

/-- Zero. -/
def zero : Binary64 := ⟨0, minExponent⟩

/-- The quotient rounded to the nearest natural number, a tie to the even one. -/
def roundDiv (num den : Nat) : Nat :=
  let quotient := num / den
  let rest := 2 * (num % den)
  if rest < den then quotient
  else if den < rest then quotient + 1
  else quotient + quotient % 2

/-- `num / den * 2 ^ scale` as a quotient of natural numbers. -/
def scaled (num den : Nat) (scale : Int) : Nat × Nat :=
  if 0 ≤ scale then (num * Nat.pow 2 scale.toNat, den)
  else (num, den * Nat.pow 2 (-scale).toNat)

/-- The exponent at which the quotient has a significand of full width, or the least exponent where
that one is larger. -/
def exponentFor (num den : Nat) : Int :=
  let estimate : Int := (Nat.log2 num : Int) - (Nat.log2 den : Int) - 52
  let (n, d) := scaled num den (-estimate)
  max minExponent (if n < fullWidth * d then estimate - 1 else estimate)

/-- The double with the given significand, which may have just left the full width by rounding up.
-/
def ofSignificand (significand : Nat) (exponent : Int) : Option Binary64 :=
  let (significand, exponent) :=
    if significand = 2 * fullWidth then (fullWidth, exponent + 1) else (significand, exponent)
  if exponent ≤ maxExponent then some ⟨significand, exponent⟩ else none

/-- The double nearest to `num / den * 2 ^ scale`; none when that lies beyond all doubles. -/
def nearest (num den : Nat) (scale : Int) : Option Binary64 :=
  if num = 0 then some zero
  else
    let (n, d) := scaled num den scale
    let exponent := exponentFor n d
    let (n, d) := scaled n d (-exponent)
    ofSignificand (roundDiv n d) exponent

/-- The double nearest to a natural number. -/
def ofNat (n : Nat) : Option Binary64 :=
  nearest n 1 0

/-- The double nearest to a product. -/
def mul (a b : Binary64) : Option Binary64 :=
  nearest (a.significand * b.significand) 1 (a.exponent + b.exponent)

/-- The double nearest to a quotient. -/
def div (a b : Binary64) : Option Binary64 :=
  nearest a.significand b.significand (a.exponent - b.exponent)

/-- The double nearest to a power of ten. -/
def powerOfTen (exponent : Nat) : Option Binary64 :=
  ofNat (Nat.pow 10 exponent)

/-- The greatest power of ten below the greatest double. -/
def maxPowerOfTen : Nat := 308

/-- The double for `significand * 10 ^ exponent`: the rounded significand times or divided by the
rounded power of ten.  Where one power of ten is too small a divisor, the greatest one goes first;
where two are too small, nothing is left.  There is no double for a value that is too large. -/
def ofDecimal (significand : Nat) (exponent : Int) : Option Binary64 := do
  if significand = 0 then return zero
  let value ← ofNat significand
  if 0 ≤ exponent then
    if exponent.toNat ≤ maxPowerOfTen then value.mul (← powerOfTen exponent.toNat) else none
  else
    let down := (-exponent).toNat
    if down ≤ maxPowerOfTen then value.div (← powerOfTen down)
    else if down ≤ 2 * maxPowerOfTen then
      let once ← value.div (← powerOfTen maxPowerOfTen)
      once.div (← powerOfTen (down - maxPowerOfTen))
    else return zero

end Binary64

end ElmManifest
