/-!
# Digits

Version numbers and JSON numbers are runs of decimal digits; escaped characters are spelled with
hexadecimal ones.  All of them are ASCII.

## Main Definitions

* `digitValue` — the value of a decimal digit.
* `digitsValue` — the number a run of decimal digits denotes.
* `hexValue?` — the value of a hexadecimal digit.
* `takeHex?` — the number that a given count of hexadecimal digits denotes.

## Main Statements

* `digitsValue_toDigits`, `toDigits_digitsValue` — numbers and their decimal digits determine each
  other, as long as there is no leading zero.
* `isAlphanum_iff` — ASCII letters and digits are three ranges of characters.
-/

namespace ElmManifest.Text

/-- The value of a decimal digit. -/
def digitValue (digit : Char) : Nat :=
  digit.toNat - '0'.toNat

/-- The number that a run of decimal digits denotes. -/
def digitsValue (digits : List Char) : Nat :=
  digits.foldl (fun value digit => 10 * value + digitValue digit) 0

theorem isAlphanum_iff {c : Char} : c.isAlphanum = true ↔
    ('A' ≤ c ∧ c ≤ 'Z' ∨ 'a' ≤ c ∧ c ≤ 'z') ∨ '0' ≤ c ∧ c ≤ '9' := by
  have hranges : c.isAlphanum =
      ((decide ('A'.val ≤ c.val ∧ c.val ≤ 'Z'.val) ||
        (decide ('a'.val ≤ c.val) && decide (c.val ≤ 'z'.val))) ||
          (decide ('0'.val ≤ c.val) && decide (c.val ≤ '9'.val))) := rfl
  simp only [hranges, Bool.or_eq_true, Bool.and_eq_true, decide_eq_true_eq]
  rfl

/-- The value of a hexadecimal digit. -/
def hexValue? (c : Char) : Option Nat :=
  if c.isDigit then some (digitValue c)
  else if 'a' ≤ c ∧ c ≤ 'f' then some (c.toNat - 'a'.toNat + 10)
  else if 'A' ≤ c ∧ c ≤ 'F' then some (c.toNat - 'A'.toNat + 10)
  else none

/-- The number that the first `count` characters denote as hexadecimal digits behind those of
`value`, and the text behind them. -/
def takeHex? : Nat → Nat → List Char → Option (Nat × List Char)
  | 0, value, text => some (value, text)
  | _ + 1, _, [] => none
  | count + 1, value, c :: text =>
    match hexValue? c with
    | none => none
    | some digit => takeHex? count (16 * value + digit) text

/-- Taking digits off a text does not make it longer. -/
theorem length_le_of_takeHex? {count value : Nat} {text rest : List Char} {number : Nat}
    (h : takeHex? count value text = some (number, rest)) : rest.length ≤ text.length := by
  induction count generalizing value text with
  | zero =>
    simp only [takeHex?, Option.some.injEq, Prod.mk.injEq] at h
    simp [h.2]
  | succ count ih =>
    cases text with
    | nil => simp [takeHex?] at h
    | cons c text =>
      unfold takeHex? at h
      split at h
      · simp at h
      · exact Nat.le_succ_of_le (ih h)

/-! ## Digits of a number -/

theorem digitsValue_toDigits (n : Nat) : digitsValue (Nat.toDigits 10 n) = n :=
  Nat.ofDigitChars_ten_toDigits

/-- A digit is the one that is written for its value. -/
theorem digitChar_digitValue {c : Char} (h : c.isDigit = true) :
    Nat.digitChar (digitValue c) = c ∧ digitValue c < 10 := by
  have hrange : 48 ≤ c.toNat ∧ c.toNat ≤ 57 := by
    simpa [Char.isDigit, UInt32.le_iff_toNat_le] using h
  have hvalue : digitValue c = c.toNat - 48 := rfl
  have hlt : c.toNat - 48 < 10 := by omega
  refine ⟨?_, by omega⟩
  apply Char.toNat_inj.mp
  rw [hvalue, Nat.toNat_digitChar_of_lt_ten hlt]
  omega

/-- Digits behind those of a positive number are the last digits of a number. -/
theorem toDigits_append {value : Nat} {digits : List Char} (hpos : 0 < value)
    (h : ∀ c ∈ digits, c.isDigit = true) :
    Nat.toDigits 10 value ++ digits =
      Nat.toDigits 10 (digits.foldl (fun value digit => 10 * value + digitValue digit) value) := by
  induction digits generalizing value with
  | nil => simp
  | cons c digits ih =>
    obtain ⟨hchar, hlt⟩ := digitChar_digitValue (h c (List.mem_cons_self ..))
    have hone : Nat.toDigits 10 (digitValue c) = [c] := by
      rw [Nat.toDigits_of_lt_base hlt, hchar]
    rw [List.foldl_cons, ← ih (by omega) fun d hd => h d (List.mem_cons_of_mem _ hd),
      ← Nat.toDigits_append_toDigits (by decide) hpos hlt, hone]
    simp

/-- Digits without a leading zero are those of the number that they denote. -/
theorem toDigits_digitsValue {c : Char} {digits : List Char}
    (h : ∀ d ∈ c :: digits, d.isDigit = true) (hlead : c = '0' → digits = []) :
    Nat.toDigits 10 (digitsValue (c :: digits)) = c :: digits := by
  obtain ⟨hchar, hlt⟩ := digitChar_digitValue (h c (List.mem_cons_self ..))
  have hone : Nat.toDigits 10 (digitValue c) = [c] := by
    rw [Nat.toDigits_of_lt_base hlt, hchar]
  have hvalue : digitsValue (c :: digits) =
      digits.foldl (fun value digit => 10 * value + digitValue digit) (digitValue c) := by
    simp [digitsValue]
  by_cases hzero : c = '0'
  · rw [hlead hzero] at hvalue ⊢
    rw [hvalue, List.foldl_nil, hone]
  · have hpos : 0 < digitValue c := by
      rcases Nat.eq_zero_or_pos (digitValue c) with hv | hv
      · rw [hv] at hchar
        exact absurd hchar.symm hzero
      · exact hv
    rw [hvalue, ← toDigits_append hpos fun d hd => h d (List.mem_cons_of_mem _ hd), hone]
    rfl

/-- A number is written without a leading zero. -/
theorem head?_toDigits {n : Nat} (h : 0 < n) : (Nat.toDigits 10 n).head? ≠ some '0' := by
  induction n using Nat.strongRecOn with
  | ind n ih =>
    rw [Nat.toDigits_eq_if (by decide)]
    split
    next hlt =>
      have : ∀ k, k < 10 → 0 < k → [Nat.digitChar k].head? ≠ some '0' := by decide
      exact this n hlt h
    next hge =>
      have hhead := ih (n / 10) (by omega) (by omega)
      cases hd : Nat.toDigits 10 (n / 10) with
      | nil => exact absurd hd Nat.toDigits_ne_nil
      | cons c rest =>
        rw [hd] at hhead
        exact hhead

theorem toDigits_ne_leadingZero {n : Nat} {c : Char} {digits : List Char} :
    Nat.toDigits 10 n ≠ '0' :: c :: digits := by
  intro h
  rcases Nat.eq_zero_or_pos n with rfl | hpos
  · simp at h
  · exact head?_toDigits hpos (by rw [h]; rfl)

end ElmManifest.Text
