import ElmManifest.Version.Basic
import Mathlib.Data.Prod.Lex
import Mathlib.Order.Basic

/-!
# The order of releases

A release is a triple of numbers, and releases compare as triples do: by the first number in which
they differ.  The program compares its words one after the other and makes no triple, and with what
holds of triples there is nothing left to prove about the order: `Release.numbers` tells releases
apart and keeps both comparisons, so releases are in linear order as their triples are.  The two
comparisons of the instance are those of the program.

## Main Definitions

* `Release.numbers` — the triple of a release, in lexicographic order.

## Main Statements

* `Release.numbers_injective` — a release is determined by its triple.
* `Release.numbers_lt_iff`, `Release.numbers_le_iff` — releases compare as their triples.
-/

namespace ElmManifest.Release

/-- The three numbers, which compare from the first one on.  The order of releases is the one of
these triples, and everything that holds in a linear order comes from there. -/
def numbers (r : Release) : ℕ ×ₗ ℕ ×ₗ ℕ :=
  toLex (r.major.toNat, toLex (r.minor.toNat, r.patch.toNat))

theorem numbers_injective : Function.Injective numbers := by
  intro a b h
  simp only [numbers, EmbeddingLike.apply_eq_iff_eq, Prod.mk.injEq] at h
  exact ext_toNat h.1 h.2.1 h.2.2

theorem numbers_lt_iff {a b : Release} : a.numbers < b.numbers ↔ a < b := by
  simp only [numbers, Prod.Lex.toLex_lt_toLex, lt_iff]

/-- Two releases compare one way round as they do the other way round. -/
theorem cmp_swap (a b : Release) : (a.cmp b).swap = b.cmp a := by
  have hcompare : ∀ x y : UInt64, (compare x y).swap = compare y x :=
    fun _ _ => Std.OrientedCmp.eq_swap.symm
  simp only [cmp, Ordering.swap_then, hcompare]

theorem numbers_le_iff {a b : Release} : a.numbers ≤ b.numbers ↔ a ≤ b := by
  rw [← not_lt, numbers_lt_iff]
  change ¬ b.cmp a = .lt ↔ a.cmp b ≠ .gt
  rw [← cmp_swap, Ordering.swap_eq_lt]

instance : LinearOrder Release where
  toPartialOrder := numbers_injective.partialOrder _ numbers_le_iff numbers_lt_iff
  le_total a b := by
    rw [← numbers_le_iff, ← numbers_le_iff]
    exact le_total ..
  toDecidableLE a b := inferInstanceAs (Decidable (a.cmp b ≠ .gt))
  toDecidableLT a b := inferInstanceAs (Decidable (a.cmp b = .lt))
  toDecidableEq := inferInstance

end ElmManifest.Release
