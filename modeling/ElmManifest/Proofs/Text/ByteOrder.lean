import ElmManifest.Text.Utf8
import Mathlib.Data.String.Basic

/-!
# The order of texts and of their bytes

Texts are compared character by character, by code point.  In UTF-8, this is also the order of their
bytes: a character that takes more bytes starts with a greater one, and of two characters that take
equally many, the bytes are the digits of the code points.

## Main Statements

* `utf8Bytes_lt_iff` — texts and their bytes are in the same order.
-/

namespace ElmManifest

/-! ## Single characters -/

/-- Bytes are compared as the numbers that they stand for. -/
private theorem cons_byte_lt_iff {m n : Nat} (hm : m < 256) (hn : n < 256)
    {rest rest' : List UInt8} :
    UInt8.ofNat m :: rest < UInt8.ofNat n :: rest' ↔ m < n ∨ m = n ∧ rest < rest' := by
  rw [List.cons_lt_cons_iff, UInt8.lt_iff_toNat_lt, ← UInt8.toNat_inj,
    UInt8.toNat_ofNat_of_lt' hm, UInt8.toNat_ofNat_of_lt' hn]

/-- A byte behind the first one holds a digit to the base of 64. -/
private theorem lt_digits {m n : Nat} (h : m < n) :
    m / 64 < n / 64 ∨ m / 64 = n / 64 ∧ m % 64 < n % 64 := by
  omega

/-- The bytes of a character come before those of a later one, whatever follows them. -/
theorem utf8EncodeChar_append_lt {c d : Char} (h : c < d) (rest rest' : List UInt8) :
    String.utf8EncodeChar c ++ rest < String.utf8EncodeChar d ++ rest' := by
  have hlt : c.val.toNat < d.val.toNat := h
  have hmax : d.val.toNat ≤ 0x10FFFF := by
    have hvalid := d.valid
    unfold UInt32.isValidChar Nat.isValidChar at hvalid
    omega
  unfold String.utf8EncodeChar
  generalize c.val.toNat = v at *
  generalize d.val.toNat = w at *
  -- the digits of both code points, from the last one to the first
  have hlast := lt_digits hlt
  have hmiddle : v / 64 < w / 64 → _ := lt_digits
  have hfirst : v / 64 / 64 < w / 64 / 64 → _ := lt_digits
  have hv : v / 4096 = v / 64 / 64 := by omega
  have hw : w / 4096 = w / 64 / 64 := by omega
  have hv' : v / 262144 % 8 = v / 64 / 64 / 64 := by omega
  have hw' : w / 262144 % 8 = w / 64 / 64 / 64 := by omega
  dsimp only
  split_ifs <;>
    simp (disch := omega) only [List.cons_append, List.nil_append, cons_byte_lt_iff, hv, hw, hv',
      hw'] <;>
    clear hv hw hv' hw' <;> omega

theorem utf8EncodeChar_ne_nil (c : Char) : String.utf8EncodeChar c ≠ [] := by
  unfold String.utf8EncodeChar
  dsimp only
  split_ifs <;> exact List.cons_ne_nil _ _

/-! ## Texts -/

/-- A text that comes before another one has bytes that do. -/
theorem utf8Bytes_lt {a b : String} (h : a < b) : utf8Bytes a < utf8Bytes b := by
  rw [String.lt_iff_toList_lt] at h
  rw [utf8Bytes_eq_flatMap, utf8Bytes_eq_flatMap]
  generalize a.toList = s at h ⊢
  generalize b.toList = t at h ⊢
  -- the texts part at their first difference, or the first one ends there
  induction h with
  | @nil c t =>
    rw [List.flatMap_nil, List.flatMap_cons]
    obtain ⟨byte, bytes, hbytes⟩ := List.exists_cons_of_ne_nil (utf8EncodeChar_ne_nil c)
    rw [hbytes]
    exact .nil
  | @cons c s t _ ih =>
    rw [List.flatMap_cons, List.flatMap_cons]
    exact List.append_left_lt ih
  | @rel c s d t hlt =>
    rw [List.flatMap_cons, List.flatMap_cons]
    exact utf8EncodeChar_append_lt hlt ..

/-- **Texts are in the order of their bytes.**  UTF-8 is made so that the first byte in which two
characters differ decides which code point is the lesser. -/
theorem utf8Bytes_lt_iff {a b : String} : utf8Bytes a < utf8Bytes b ↔ a < b := by
  refine ⟨fun h => ?_, utf8Bytes_lt⟩
  obtain hlt | rfl | hgt := lt_trichotomy a b
  · exact hlt
  · exact absurd h (List.lt_irrefl _)
  · exact absurd (List.lt_trans h (utf8Bytes_lt hgt)) (List.lt_irrefl _)

end ElmManifest
