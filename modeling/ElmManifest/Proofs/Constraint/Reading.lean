import ElmManifest.Constraint
import ElmManifest.Proofs.Version.Order
import ElmManifest.Proofs.Version.Reading

/-!
# Constraints as written

A constraint is read back from its written form.  The written form without its blanks is the lower
end, a middle with the two signs, and the upper end.  A version holds no blank, no comma and no
sign, so nothing is lost with the blanks, and the only middle that occurs is the one between the
ends.

## Main Statements

* `Text.cut_append` — a text is cut at the first place where the separator can start.
* `Constraint.parse_text` — a constraint whose ends are in order is read back from its text.
-/

namespace ElmManifest

namespace Text

/-- A separator is not found in front of the first place where it can start. -/
theorem cut_append {s : Char} {sep before : List Char} (h : s ∉ before) (text : List Char) :
    cut (s :: sep) (before ++ text) =
      (cut (s :: sep) text).map fun halves => (before ++ halves.1, halves.2) := by
  induction before with
  | nil => simp
  | cons c before ih =>
    simp only [List.mem_cons, not_or] at h
    rw [List.cons_append, cut, if_neg (by simp [h.1]), ih h.2, Option.map_map]
    rfl

/-- A separator is not found where it cannot start. -/
theorem cut_eq_none {s : Char} {sep text : List Char} (h : s ∉ text) :
    cut (s :: sep) text = none := by
  rw [← List.append_nil text, cut_append h]
  rfl

end Text

namespace Constraint

/-- The middle between the ends of a constraint, without blanks. -/
def middle (c : Constraint) : List Char :=
  (signText c.lowerInclusive).toList ++ 'v' :: (signText c.upperInclusive).toList

/-- A version is written without anything that separates the parts of a constraint. -/
theorem notMem_text {v : Version} {c : Char} (h : Version.isVersionCharacter c = false) :
    c ∉ v.text.toList := fun hc =>
  absurd (Version.isVersionCharacter_of_mem_text hc) (by simp [h])

/-- Version characters lie between the comma and the end of the letters. -/
theorem toNat_of_isVersionCharacter {c : Char} (h : Version.isVersionCharacter c = true) :
    0x2B ≤ c.toNat ∧ c.toNat ≤ 0x7A ∧ c ≠ ',' := by
  have hbounds : 0x2B ≤ c.toNat ∧ c.toNat ≤ 0x7A := by
    simp only [Version.isVersionCharacter, isTagCharacter, Bool.or_eq_true, beq_iff_eq] at h
    rcases h with ((h | rfl) | rfl) | rfl
    · have hrange : (65 ≤ c.toNat ∧ c.toNat ≤ 90 ∨ 97 ≤ c.toNat ∧ c.toNat ≤ 122) ∨
          48 ≤ c.toNat ∧ c.toNat ≤ 57 := Text.isAlphanum_iff.mp h
      omega
    · decide
    · decide
    · decide
  refine ⟨hbounds.1, hbounds.2, ?_⟩
  rintro rfl
  exact absurd h (by decide)

/-- Leaving out blanks and commas leaves a version as it is. -/
theorem compact_version (v : Version) : compact v.text.toList = v.text.toList := by
  apply List.filter_eq_self.mpr
  intro c hc
  obtain ⟨hlow, hhigh, hcomma⟩ :=
    toNat_of_isVersionCharacter (Version.isVersionCharacter_of_mem_text hc)
  have hblank : Text.isBlank c = false := by
    simp [Text.isBlank]
    omega
  simp [hblank, hcomma]

theorem compact_append (front back : List Char) :
    compact (front ++ back) = compact front ++ compact back :=
  List.filter_append ..

/-- What is left of the written form without its blanks. -/
theorem compact_text (c : Constraint) :
    compact c.text.toList = c.lower.text.toList ++ (c.middle ++ c.upper.text.toList) := by
  have hsign : ∀ inclusive, compact (signText inclusive).toList = (signText inclusive).toList := by
    decide
  have hblank : compact " ".toList = [] ∧ compact " v ".toList = ['v'] := by
    decide
  simp only [text, String.toList_append, compact_append, compact_version, hsign, hblank, middle]
  simp

theorem intervalEnds?_middle {lower upper : List Char} (c : Constraint) (hlower : '<' ∉ lower)
    (hupper : '<' ∉ upper) (hequals : '=' ∉ upper) :
    intervalEnds? (lower ++ (c.middle ++ upper)) =
      some ⟨lower, c.lowerInclusive, upper, c.upperInclusive⟩ := by
  have hcut : ∀ sep, Text.cut ('<' :: sep) upper = none := fun _ => Text.cut_eq_none hupper
  have hstart : ∀ sep : List Char, '<' ∈ sep ∨ '=' ∈ sep → ¬ sep <+: upper := by
    rintro sep (hmem | hmem) hfront
    · exact hupper (hfront.subset hmem)
    · exact hequals (hfront.subset hmem)
  unfold intervalEnds? middles middle
  cases c.lowerInclusive <;> cases c.upperInclusive <;>
    simp [signText, Text.cut_append hlower, Text.cut, hcut, hstart]

/-- The ends of the interval form are those in front of the middle and behind it. -/
theorem readEnds_interval (c : Constraint) :
    readEnds (c.lower.text.toList ++ (c.middle ++ c.upper.text.toList)) =
      .ok ⟨c.lower.text.toList, c.lowerInclusive, c.upper.text.toList, c.upperInclusive⟩ := by
  obtain ⟨d, rest, hd, hdigit⟩ := c.lower.exists_digit_of_text
  have hhead : (c.lower.text.toList ++ (c.middle ++ c.upper.text.toList)).head? ≠ some '>' := by
    rw [hd, List.cons_append, List.head?_cons, Option.some_inj.ne]
    rintro rfl
    exact absurd hdigit (by decide)
  rw [readEnds, if_neg hhead, intervalEnds?_middle c (notMem_text (by decide))
    (notMem_text (by decide)) (notMem_text (by decide))]

/-- Once the ends have been found, what is left to check is their order. -/
theorem parse_of_readEnds {c : Constraint} {s : String}
    (h : readEnds (compact s.toList) =
      .ok ⟨c.lower.text.toList, c.lowerInclusive, c.upper.text.toList, c.upperInclusive⟩) :
    parse s = if c.upper.toRelease < c.lower.toRelease then .error ⟨s, .reversed⟩ else .ok c := by
  have hend : ∀ v : Version, readEnd v.text.toList = .ok v := by
    intro v
    rw [readEnd, Except.mapError_eq_ok_iff, String.ofList_toList, Version.parse_eq_ok_iff]
  unfold parse read
  simp only [h, hend, bind, Except.bind]
  split <;> rfl

/-- **A constraint whose ends are in order is read back from its text.**  The tags of the lower end
may look like a middle, but there is no sign in them. -/
theorem parse_text {c : Constraint} (h : c.lower.toRelease ≤ c.upper.toRelease) :
    parse c.text = .ok c := by
  rw [parse_of_readEnds (by rw [compact_text, readEnds_interval]), if_neg (not_lt.mpr h)]

end Constraint

end ElmManifest
