import ElmManifest.Proofs.Version.Reading

/-!
# The language of versions

Which texts are versions, said without a reader: `MAJOR.MINOR.PATCH[-PRE][+BUILD]`, where the
numbers are decimal, have no leading zero and fit in 64 bits, and a tag is one or more parts with
dots between them.  A text has at most one reading, and a version is written in one way.

## Main Definitions

* `Version.IsNumeral` — digits that are written for a number.
* `Version.IsTag` — a tag with its mark, or nothing.
* `Version.Spells` — a text that is a version, with its numbers and its tags.

## Main Statements

* `Version.IsNumeral.eq_toDigits` — a number is written in one way.
* `Version.IsTag.exists_parts` — a tag is how its parts are written.
* `Version.parse_eq_ok_iff_spells` — the reader accepts this language, with these numbers and tags,
  and is inverse to writing.
-/

namespace ElmManifest.Version

/-! ## Numbers -/

/-- Digits that are written for a number: at least one, all decimal, without a leading zero, of a
value that fits in 64 bits. -/
structure IsNumeral (digits : List Char) (number : Nat) : Prop where
  /-- There is a digit. -/
  nonempty : digits ≠ []
  /-- There is nothing else. -/
  decimal : ∀ c ∈ digits, c.isDigit = true
  /-- A zero in front is the only digit. -/
  plain : digits.head? = some '0' → digits = ['0']
  /-- The digits denote the number. -/
  value : Text.digitsValue digits = number
  /-- The number fits in 64 bits. -/
  fits : number < UInt64.size

theorem IsNumeral.eq_toDigits {digits : List Char} {number : Nat} (h : IsNumeral digits number) :
    digits = Nat.toDigits 10 number := by
  cases hdigits : digits with
  | nil => exact absurd hdigits h.nonempty
  | cons c rest =>
    have hlead : c = '0' → rest = [] := by
      rintro rfl
      have honly := h.plain (by rw [hdigits]; rfl)
      rw [hdigits] at honly
      exact (List.cons.inj honly).2
    rw [← h.value, hdigits, Text.toDigits_digitsValue (hdigits ▸ h.decimal) hlead]

/-- Every number that fits is written with such digits. -/
theorem isNumeral_toDigits (number : UInt64) :
    IsNumeral (Nat.toDigits 10 number.toNat) number.toNat where
  nonempty := Nat.toDigits_ne_nil
  decimal := fun _ hc => Nat.isDigit_of_mem_toDigits (by decide) (by decide) hc
  plain := by
    intro hzero
    obtain ⟨rest, hrest⟩ := List.head?_eq_some_iff.mp hzero
    cases rest with
    | nil => exact hrest
    | cons => exact absurd hrest Text.toDigits_ne_leadingZero
  value := Text.digitsValue_toDigits _
  fits := number.toNat_lt_size

/-! ## Tags -/

theorem isTagCharacter_iff {c : Char} : isTagCharacter c = true ↔
    (('A' ≤ c ∧ c ≤ 'Z' ∨ 'a' ≤ c ∧ c ≤ 'z') ∨ '0' ≤ c ∧ c ≤ '9') ∨ c = '-' := by
  rw [isTagCharacter, Bool.or_eq_true, Text.isAlphanum_iff, beq_iff_eq]

/-- One part of a tag: one or more ASCII letters, digits and hyphens. -/
def IsPart (piece : List Char) : Prop :=
  piece ≠ [] ∧ ∀ c ∈ piece,
    (('A' ≤ c ∧ c ≤ 'Z' ∨ 'a' ≤ c ∧ c ≤ 'z') ∨ '0' ≤ c ∧ c ≤ '9') ∨ c = '-'

/-- A number that is written with a leading zero. -/
def IsPadded (piece : List Char) : Prop :=
  (∀ c ∈ piece, c.isDigit = true) ∧ piece.head? = some '0' ∧ piece ≠ ['0']

/-- A tag: its mark and one or more parts with dots between them, or nothing at all. -/
inductive IsTag (mark : Char) (Part : List Char → Prop) : List Char → Prop where
  /-- There is no tag. -/
  | absent : IsTag mark Part []
  /-- There is one. -/
  | present {texts : List (List Char)} (hne : texts ≠ []) (hparts : ∀ piece ∈ texts, Part piece) :
      IsTag mark Part (mark :: Text.join '.' texts)

/-- A part is a number with a leading zero exactly if it is written as one. -/
theorem hasLeadingZero_iff {part : Identifier} :
    part.hasLeadingZero = true ↔ IsPadded part.text.toList := by
  have hlong : part.text.toList.head? = some '0' →
      (1 < part.text.toList.length ↔ part.text.toList ≠ ['0']) := by
    intro hzero
    obtain ⟨rest, hrest⟩ := List.head?_eq_some_iff.mp hzero
    cases rest <;> simp [hrest]
  simp only [Identifier.hasLeadingZero, IsPadded, Bool.and_eq_true, List.all_eq_true,
    decide_eq_true_eq, beq_iff_eq]
  constructor
  · rintro ⟨⟨hdigits, hlength⟩, hzero⟩
    exact ⟨hdigits, hzero, (hlong hzero).mp hlength⟩
  · rintro ⟨hdigits, hzero, hne⟩
    exact ⟨⟨hdigits, (hlong hzero).mpr hne⟩, hzero⟩

/-- Texts that can be parts are the texts of parts. -/
theorem exists_pieces_eq {texts : List (List Char)} (h : ∀ piece ∈ texts, IsPart piece) :
    ∃ parts, pieces parts = texts := by
  induction texts with
  | nil => exact ⟨[], rfl⟩
  | cons piece texts ih =>
    obtain ⟨hpiece, htexts⟩ := List.forall_mem_cons.mp h
    obtain ⟨parts, rfl⟩ := ih htexts
    have htagged : ∀ c ∈ (String.ofList piece).toList, isTagCharacter c = true := by
      simpa [isTagCharacter_iff] using hpiece.2
    exact ⟨⟨String.ofList piece, by simpa using hpiece.1, htagged⟩ :: parts, by simp [pieces]⟩

/-- A tag is how its parts are written. -/
theorem IsTag.exists_parts {mark : Char} {Part : List Char → Prop} {tag : List Char}
    (h : IsTag mark Part tag) (hpart : ∀ piece, Part piece → IsPart piece) :
    ∃ parts : List Identifier, tag = (tagText (String.singleton mark) parts).toList ∧
      ∀ part ∈ parts, Part part.text.toList := by
  cases h with
  | absent => exact ⟨[], by simp [toList_tagText], by simp⟩
  | present hne hparts =>
    obtain ⟨parts, rfl⟩ := exists_pieces_eq fun piece hpiece => hpart piece (hparts piece hpiece)
    refine ⟨parts, ?_, fun part hmem => hparts _ (List.mem_map_of_mem hmem)⟩
    rw [toList_tagText, if_neg (by simpa [pieces] using hne)]

/-- What is written for parts is a tag. -/
theorem isTag_tagText {mark : Char} {Part : List Char → Prop} {parts : List Identifier}
    (h : ∀ part ∈ parts, Part part.text.toList) :
    IsTag mark Part (tagText (String.singleton mark) parts).toList := by
  rw [toList_tagText]
  split
  · exact .absent
  next hne => exact .present (by simpa [pieces] using hne) (by simpa [pieces] using h)

theorem isPart_text (part : Identifier) : IsPart part.text.toList :=
  ⟨part.nonempty, fun c hc => isTagCharacter_iff.mp (part.tagged c hc)⟩

/-! ## Versions -/

/-- A text that is a version, with its numbers and its tags: three numbers with dots between them,
then parts behind a hyphen, none of them a number with a leading zero, then parts behind a plus
sign. -/
def Spells (text : String) (major minor patch : Nat) (suffix : String) : Prop :=
  ∃ majorDigits minorDigits patchDigits preRelease build : List Char,
    text.toList = majorDigits ++ '.' :: (minorDigits ++ '.' ::
      (patchDigits ++ (preRelease ++ build))) ∧
    IsNumeral majorDigits major ∧ IsNumeral minorDigits minor ∧ IsNumeral patchDigits patch ∧
    IsTag '-' (fun piece => IsPart piece ∧ ¬ IsPadded piece) preRelease ∧
    IsTag '+' IsPart build ∧
    suffix.toList = preRelease ++ build

/-- The tags are written one behind the other. -/
theorem toList_suffixText (v : Version) : v.suffixText.toList =
    (tagText (String.singleton '-') v.preRelease).toList ++
      (tagText (String.singleton '+') v.build).toList :=
  String.toList_append

theorem spells_text (v : Version) :
    Spells v.text v.major.toNat v.minor.toNat v.patch.toNat v.suffixText := by
  refine ⟨_, _, _, _, _, v.toList_text, isNumeral_toDigits _, isNumeral_toDigits _,
    isNumeral_toDigits _, isTag_tagText fun part hpart => ⟨isPart_text part, ?_⟩,
    isTag_tagText fun part _ => isPart_text part, v.toList_suffixText⟩
  rw [← hasLeadingZero_iff, v.plain part hpart]
  simp

/-- A text of the language is the text of a version with these numbers and tags. -/
theorem Spells.exists_eq_text {text suffix : String} {major minor patch : Nat}
    (h : Spells text major minor patch suffix) :
    ∃ v : Version, text = v.text ∧ v.major.toNat = major ∧ v.minor.toNat = minor ∧
      v.patch.toNat = patch ∧ v.suffixText = suffix := by
  obtain ⟨majorDigits, minorDigits, patchDigits, preRelease, build, htext, hmajor, hminor, hpatch,
    hpre, hbuild, hsuffix⟩ := h
  obtain ⟨preParts, rfl, hplain⟩ := hpre.exists_parts fun _ => And.left
  obtain ⟨buildParts, rfl, -⟩ := hbuild.exists_parts fun _ => id
  have hnumber : ∀ {digits : List Char} {number : Nat}, IsNumeral digits number →
      (UInt64.ofNat number).toNat = number := fun h => UInt64.toNat_ofNat_of_lt' h.fits
  have hzeros : ∀ part ∈ preParts, part.hasLeadingZero = false := by
    intro part hpart
    rw [← Bool.not_eq_true, hasLeadingZero_iff]
    exact (hplain part hpart).2
  let v : Version := ⟨⟨.ofNat major, .ofNat minor, .ofNat patch⟩, preParts, buildParts, hzeros⟩
  refine ⟨v, ?_, hnumber hmajor, hnumber hminor, hnumber hpatch, ?_⟩
  · rw [← String.toList_inj, toList_text, htext, hnumber hmajor, hnumber hminor, hnumber hpatch,
      hmajor.eq_toDigits, hminor.eq_toDigits, hpatch.eq_toDigits]
  · rw [← String.toList_inj, toList_suffixText, hsuffix]

/-- **The reader accepts the language of versions.**  A text is read exactly if it is
`MAJOR.MINOR.PATCH[-PRE][+BUILD]`, and then with these numbers, none of which has been reduced to
fit, and these tags.  What is read is written as the text was, and what is written is read as the
version that it was.  Everything that `parse` does with what it has read is undone by writing. -/
theorem parse_eq_ok_iff_spells (text : String) :
    (∀ major minor patch suffix, Spells text major minor patch suffix ↔
      ∃ v, parse text = .ok v ∧ v.major.toNat = major ∧ v.minor.toNat = minor ∧
        v.patch.toNat = patch ∧ v.suffixText = suffix) ∧
    (∀ v, parse text = .ok v → v.text = text) ∧
    ∀ v : Version, parse v.text = .ok v := by
  refine ⟨fun major minor patch suffix => ⟨?accepted, ?spelled⟩, fun v h => ?written,
    fun v => parse_eq_ok_iff.mpr rfl⟩
  case accepted =>
    intro h
    obtain ⟨v, htext, hnumbers⟩ := h.exists_eq_text
    exact ⟨v, parse_eq_ok_iff.mpr htext, hnumbers⟩
  case spelled =>
    rintro ⟨v, h, rfl, rfl, rfl, rfl⟩
    rw [parse_eq_ok_iff.mp h]
    exact v.spells_text
  case written => exact (parse_eq_ok_iff.mp h).symm

/-- A version with both tags: a zero may be a part, and behind the plus sign zeros may stand in
front of a number. -/
theorem parse_eq_ok_iff_spells_bothTags :
    let text := "0.19.1-rc.0+build-5.007"
    Spells text 0 19 1 "-rc.0+build-5.007" ∧
      ∃ v, parse text = .ok v ∧ v.major.toNat = 0 ∧ v.minor.toNat = 19 ∧ v.patch.toNat = 1 ∧
        v.suffixText = "-rc.0+build-5.007" ∧ v.text = text := by
  have hpre : IsTag '-' (fun piece => IsPart piece ∧ ¬ IsPadded piece) "-rc.0".toList := by
    refine @IsTag.present _ _ [['r', 'c'], ['0']] (by decide) ?_
    simp only [List.forall_mem_cons, IsPart, IsPadded, ← isTagCharacter_iff, ← List.all_eq_true]
    decide
  have hbuild : IsTag '+' IsPart "+build-5.007".toList := by
    refine @IsTag.present _ _ [['b', 'u', 'i', 'l', 'd', '-', '5'], ['0', '0', '7']] (by decide) ?_
    simp only [List.forall_mem_cons, IsPart, ← isTagCharacter_iff, ← List.all_eq_true]
    decide
  have hspells : Spells "0.19.1-rc.0+build-5.007" 0 19 1 "-rc.0+build-5.007" :=
    ⟨['0'], ['1', '9'], ['1'], _, _, rfl, isNumeral_toDigits 0, isNumeral_toDigits 19,
      isNumeral_toDigits 1, hpre, hbuild, rfl⟩
  obtain ⟨hreads, hwritten, -⟩ := parse_eq_ok_iff_spells "0.19.1-rc.0+build-5.007"
  obtain ⟨v, hparse, hmajor, hminor, hpatch, hsuffix⟩ := (hreads 0 19 1 _).mp hspells
  exact ⟨hspells, v, hparse, hmajor, hminor, hpatch, hsuffix, hwritten v hparse⟩

end ElmManifest.Version
