import ElmManifest.Path
import ElmManifest.Version.Basic

/-!
# The spelling of versions

The cache keeps every version of a package in a directory that is named by the version.  That is
possible because of what versions are written with.

## Main Statements

* `Version.isVersionCharacter_of_mem_text` — a version is written with letters, digits, dots,
  hyphens and plus signs only.
* `Version.isName_text` — it is the name of a file or directory.
* `Version.toRelease_eq_of_text_eq` — the spelling tells which release it is.
-/

namespace ElmManifest

private theorem mem_intersperse {α : Type} {sep x : α} {xs : List α}
    (h : x ∈ xs.intersperse sep) : x = sep ∨ x ∈ xs := by
  fun_induction List.intersperse sep xs <;> grind

namespace Version

/-- The characters that versions are written with. -/
def isVersionCharacter (c : Char) : Bool :=
  isTagCharacter c || c == '.' || c == '+'

private theorem toList_number (n : Nat) : (toString n).toList = Nat.toDigits 10 n := by
  simp [toString]

private theorem isDigit_of_mem_number {n : Nat} {c : Char} (h : c ∈ (toString n).toList) :
    c.isDigit = true := by
  rw [toList_number] at h
  exact Nat.isDigit_of_mem_toDigits (by decide) (by decide) h

/-- A tag is written with its mark, dots and tag characters only. -/
theorem mem_tagText {mark : String} {parts : List Identifier} {c : Char}
    (h : c ∈ (tagText mark parts).toList) :
    c ∈ mark.toList ∨ c = '.' ∨ isTagCharacter c = true := by
  unfold tagText at h
  split at h
  · simp at h
  · rw [String.toList_append, List.mem_append] at h
    rcases h with h | h
    · exact .inl h
    · rw [String.toList_intercalate, List.intercalate, List.mem_flatten] at h
      obtain ⟨piece, hp, hc⟩ := h
      rcases mem_intersperse hp with rfl | hp
      · exact .inr (.inl (by simpa using hc))
      · simp only [List.map_map, List.mem_map, Function.comp_apply] at hp
        obtain ⟨part, -, rfl⟩ := hp
        exact .inr (.inr (part.tagged c hc))

/-- A version is written with version characters only. -/
theorem isVersionCharacter_of_mem_text {v : Version} {c : Char} (h : c ∈ v.text.toList) :
    isVersionCharacter c = true := by
  have digit : ∀ {n : Nat}, c ∈ (toString n).toList → isVersionCharacter c = true := fun h => by
    simp [isVersionCharacter, isTagCharacter, Char.isAlphanum, isDigit_of_mem_number h]
  simp only [text, Release.text, suffixText, String.toList_append, List.mem_append] at h
  rcases h with ((((h | h) | h) | h) | h) | h | h
  · exact digit h
  · obtain rfl : c = '.' := by simpa using h
    decide
  · exact digit h
  · obtain rfl : c = '.' := by simpa using h
    decide
  · exact digit h
  · rcases mem_tagText h with h | rfl | h
    · obtain rfl : c = '-' := by simpa using h
      decide
    · decide
    · simp [isVersionCharacter, h]
  · rcases mem_tagText h with h | rfl | h
    · obtain rfl : c = '+' := by simpa using h
      decide
    · decide
    · simp [isVersionCharacter, h]

/-- A version is written with a digit in front. -/
theorem exists_digit_of_text (v : Version) :
    ∃ c rest, v.text.toList = c :: rest ∧ c.isDigit = true := by
  obtain ⟨tail, ht⟩ : ∃ tail, v.text.toList = (toString v.major.toNat).toList ++ tail :=
    ⟨_, by simp only [text, Release.text, String.toList_append, List.append_assoc]; rfl⟩
  cases hd : (toString v.major.toNat).toList with
  | nil => exact absurd ((toList_number _).symm.trans hd) Nat.toDigits_ne_nil
  | cons c rest =>
    refine ⟨c, rest ++ tail, ?_, isDigit_of_mem_number (hd ▸ List.mem_cons_self ..)⟩
    rw [ht, hd, List.cons_append]

theorem slash_notMem_text (v : Version) : '/' ∉ v.text.toList := fun h =>
  absurd (isVersionCharacter_of_mem_text h) (by decide)

/-- A version is the name of a file or directory. -/
theorem isName_text (v : Version) : Path.isName v.text = true := by
  obtain ⟨c, rest, ht, hc⟩ := exists_digit_of_text v
  have other : ∀ s : String, s.toList.head?.all (fun d => !d.isDigit) = true → v.text ≠ s := by
    intro s hs he
    simp [← he, ht, hc] at hs
  have h₁ := other "" rfl
  have h₂ := other "." rfl
  have h₃ := other ".." rfl
  simp [Path.isName, Path.isNoise, h₁, h₂, h₃]

/-- So it can be the name of an entry in a directory, as it is in a cache. -/
theorem isEntryName_text (v : Version) : Path.isEntryName v.text = true := by
  simp [Path.isEntryName, isName_text, slash_notMem_text]

/-! ## Telling releases apart -/

/-- A number is told apart from what comes behind it. -/
private theorem eq_of_number_append {m n : Nat} {front back : List Char}
    (hfront : ∀ c ∈ front.head?, c.isDigit = false) (hback : ∀ c ∈ back.head?, c.isDigit = false)
    (h : (toString m).toList ++ front = (toString n).toList ++ back) : m = n ∧ front = back := by
  have hdigits : ∀ {k : Nat} {rest : List Char}, (∀ c ∈ rest.head?, c.isDigit = false) →
      ((toString k).toList ++ rest).takeWhile Char.isDigit = Nat.toDigits 10 k := by
    intro k rest hrest
    rw [List.takeWhile_append_of_pos fun c hc => isDigit_of_mem_number hc, toList_number]
    cases rest with
    | nil => simp
    | cons c rest => simp [hrest c rfl]
  have hmn : Nat.toDigits 10 m = Nat.toDigits 10 n := by
    rw [← hdigits hfront, h, hdigits hback]
  have heq : m = n := by
    rw [← Nat.ofDigitChars_ten_toDigits (n := m), hmn, Nat.ofDigitChars_ten_toDigits]
  subst heq
  exact ⟨rfl, List.append_cancel_left h⟩

/-- The tags of a version do not start with a digit. -/
private theorem isDigit_head_suffixText (v : Version) :
    ∀ c ∈ v.suffixText.toList.head?, c.isDigit = false := by
  intro c hc
  unfold suffixText tagText at hc
  split at hc
  · split at hc
    · simp at hc
    · obtain rfl : c = '+' := by simpa using hc.symm
      decide
  · obtain rfl : c = '-' := by simpa using hc.symm
    decide

/-- The spelling of a version tells which release it is, since a number ends where a tag or a dot
starts. -/
theorem toRelease_eq_of_text_eq {v w : Version} (h : v.text = w.text) :
    v.toRelease = w.toRelease := by
  have hspelled : ∀ u : Version, u.text.toList = (toString u.major.toNat).toList ++
      '.' :: ((toString u.minor.toNat).toList ++
        '.' :: ((toString u.patch.toNat).toList ++ u.suffixText.toList)) := by
    intro u
    simp [text, Release.text, String.toList_append]
  have hdot : ∀ {rest : List Char}, ∀ c ∈ ('.' :: rest).head?, c.isDigit = false := by
    rintro rest c ⟨⟩
    decide
  have hlist := congrArg String.toList h
  rw [hspelled, hspelled] at hlist
  obtain ⟨hmajor, hlist⟩ := eq_of_number_append hdot hdot hlist
  obtain ⟨hminor, hlist⟩ := eq_of_number_append hdot hdot (List.cons.inj hlist).2
  obtain ⟨hpatch, -⟩ := eq_of_number_append (isDigit_head_suffixText v)
    (isDigit_head_suffixText w) (List.cons.inj hlist).2
  exact Release.ext_toNat hmajor hminor hpatch

end Version

end ElmManifest
