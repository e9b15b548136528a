import ElmManifest.Proofs.Success
import ElmManifest.Version.Reader
import ElmManifest.Version.Spelling

/-!
# Reading versions and writing them

Reading a version and writing it are inverse to each other: each part of a version is read off
exactly the texts that start with that part as it is written, and go on with something that cannot
belong to it.

## Main Statements

* `Version.readNumber_eq_ok_iff`, `Version.readTagAfter_eq_ok_iff` — the parts.
* `Version.read_eq_ok_iff` — a text is read as a version exactly if it is the text of the version.
* `Version.parse_eq_ok_iff` — the same of strings.
-/

namespace ElmManifest

namespace Version

variable {position : Position} {text rest : List Char} {parts : List Identifier}

/-! ## Numbers -/

/-- Digits without a leading zero are read if their number fits in 64 bits. -/
theorem readNumber_of_takeWhile {c : Char} {digits : List Char}
    (h : text.takeWhile Char.isDigit = c :: digits) (hlead : c = '0' → digits = []) :
    readNumber position text =
      if Text.digitsValue (c :: digits) < UInt64.size then
        .ok (UInt64.ofNat (Text.digitsValue (c :: digits)), text.dropWhile Char.isDigit)
      else .error (.tooLarge position) := by
  unfold readNumber
  rw [h]
  split
  next heq _ => cases heq
  next heq _ => cases heq
  next heq =>
    obtain ⟨hzero, hmore⟩ := List.cons.inj heq
    rw [hlead hzero] at hmore
    cases hmore
  next => rfl

/-- A number is read off the texts that start with its digits and go on with no digit. -/
theorem readNumber_eq_ok_iff {n : UInt64} :
    readNumber position text = .ok (n, rest) ↔
      text = Nat.toDigits 10 n.toNat ++ rest ∧ ∀ c ∈ rest.head?, c.isDigit = false := by
  constructor
  · intro h
    cases htake : text.takeWhile Char.isDigit with
    | nil =>
      unfold readNumber at h
      cases hdrop : text.dropWhile Char.isDigit <;> rw [htake, hdrop] at h <;> cases h
    | cons c digits =>
      -- A zero with more digits behind it has been refused.
      have hlead : c = '0' → digits = [] := by
        rintro rfl
        cases digits with
        | nil => rfl
        | cons =>
          unfold readNumber at h
          rw [htake] at h
          cases h
      rw [readNumber_of_takeWhile htake hlead] at h
      split at h
      next hlt =>
        obtain ⟨rfl, rfl⟩ := Prod.mk.inj (Except.ok.inj h)
        obtain ⟨htext, hdigits, hrest⟩ := Text.run_eq_iff.mp ⟨htake, rfl⟩
        rw [UInt64.toNat_ofNat_of_lt' hlt, Text.toDigits_digitsValue hdigits hlead]
        exact ⟨htext, hrest⟩
      next => cases h
  · rintro ⟨htext, hrest⟩
    obtain ⟨htake, hdrop⟩ := Text.run_eq_iff.mpr ⟨htext, fun c hc =>
      Nat.isDigit_of_mem_toDigits (by decide) (by decide) hc, hrest⟩
    cases hdigits : Nat.toDigits 10 n.toNat with
    | nil => exact absurd hdigits Nat.toDigits_ne_nil
    | cons c digits =>
      have hlead : c = '0' → digits = [] := by
        rintro rfl
        cases digits with
        | nil => rfl
        | cons => exact absurd hdigits Text.toDigits_ne_leadingZero
      -- The value is that of 64 bits, so the test of its size succeeds.
      rw [readNumber_of_takeWhile (htake.trans hdigits) hlead, ← hdigits,
        Text.digitsValue_toDigits, if_pos n.toNat_lt_size, UInt64.ofNat_toNat, hdrop]

theorem readDot_eq_ok_iff : readDot position text = .ok rest ↔ text = '.' :: rest := by
  unfold readDot
  split <;> simp_all

/-! ## Tags -/

/-- The parts of a tag as lists of characters. -/
def pieces (parts : List Identifier) : List (List Char) :=
  parts.map fun part => part.text.toList

/-- The numbers among the parts are written without leading zeros where that matters. -/
def PlainAt (position : Position) (parts : List Identifier) : Prop :=
  position = .preRelease → ∀ part ∈ parts, part.hasLeadingZero = false

theorem readIdentifier_eq_ok_iff {piece : List Char} {part : Identifier} :
    readIdentifier position piece = .ok part ↔ piece = part.text.toList := by
  unfold readIdentifier
  constructor
  · intro h
    split at h
    · cases h
      simp
    · cases h
  · rintro rfl
    have h : part.text.toList ≠ [] ∧ part.text.toList.all isTagCharacter = true :=
      ⟨part.nonempty, List.all_eq_true.mpr part.tagged⟩
    rw [dif_pos h]
    simp

theorem readParts_eq_ok_iff {texts : List (List Char)} :
    readParts position texts = .ok parts ↔ texts = pieces parts ∧ PlainAt position parts := by
  induction texts generalizing parts with
  | nil => cases parts <;> simp [readParts, pieces, PlainAt]
  | cons piece texts ih =>
    have hstep : readParts position (piece :: texts) = .ok parts ↔
        ∃ part others, parts = part :: others ∧ piece = part.text.toList ∧
          texts = pieces others ∧ PlainAt position (part :: others) := by
      simp only [readParts, Except.bind_eq_ok_iff, readIdentifier_eq_ok_iff, Except.throw_bind,
        Except.ite_throw_eq_ok_iff, Except.pure_eq_ok_iff, ih, PlainAt, List.forall_mem_cons]
      constructor
      · rintro ⟨part, hpiece, hplain, others, ⟨htexts, hothers⟩, rfl⟩
        exact ⟨part, others, rfl, hpiece, htexts, fun h => ⟨by simpa [h] using hplain, hothers h⟩⟩
      · rintro ⟨part, others, rfl, hpiece, htexts, hplain⟩
        exact ⟨part, hpiece, fun h => by simp [hplain h.1] at h, others,
          ⟨htexts, fun h => (hplain h).2⟩, rfl⟩
    rw [hstep]
    constructor
    · rintro ⟨part, others, rfl, rfl, rfl, hplain⟩
      exact ⟨rfl, hplain⟩
    · rintro ⟨htexts, hplain⟩
      cases parts with
      | nil => cases htexts
      | cons part others =>
        obtain ⟨hpiece, hothers⟩ := List.cons.inj htexts
        exact ⟨part, others, rfl, hpiece, hothers, hplain⟩


theorem toList_tagText (mark : Char) (parts : List Identifier) :
    (tagText (String.singleton mark) parts).toList =
      if parts = [] then [] else mark :: Text.join '.' (pieces parts) := by
  unfold tagText pieces
  split
  · rfl
  · rw [String.toList_append, String.toList_singleton, String.toList_intercalate,
      Text.join_eq_intercalate, List.map_map]
    rfl

theorem mem_head?_tagText {mark c : Char}
    (h : c ∈ (tagText (String.singleton mark) parts).toList.head?) : c = mark := by
  rw [toList_tagText] at h
  split at h
  · cases h
  · cases h
    rfl

/-- The parts of a tag are written with tag text. -/
theorem isTagText_of_mem_join {c : Char} (h : c ∈ Text.join '.' (pieces parts)) :
    isTagText c = true := by
  rcases Text.mem_join h with rfl | ⟨piece, hpiece, hc⟩
  · decide
  · obtain ⟨part, -, rfl⟩ := List.mem_map.mp hpiece
    simp [isTagText, part.tagged c hc]

theorem dot_notMem_pieces : ∀ piece ∈ pieces parts, '.' ∉ piece := by
  intro piece hpiece hdot
  obtain ⟨part, -, rfl⟩ := List.mem_map.mp hpiece
  exact absurd (part.tagged _ hdot) (by decide)

/-- A tag is read off the texts that start with its parts and go on with no tag text. -/
theorem readTag_eq_ok_iff :
    readTag position text = .ok (parts, rest) ↔
      parts ≠ [] ∧ text = Text.join '.' (pieces parts) ++ rest ∧ PlainAt position parts ∧
        ∀ c ∈ rest.head?, isTagText c = false := by
  simp only [readTag, Except.bind_eq_ok_iff, readParts_eq_ok_iff, Except.pure_eq_ok_iff,
    Prod.mk.injEq]
  constructor
  · rintro ⟨found, ⟨hsplit, hplain⟩, rfl, hdrop⟩
    obtain ⟨htext, -, hrest⟩ := Text.run_eq_iff.mp ⟨rfl, hdrop⟩
    refine ⟨?_, ?_, hplain, hrest⟩
    · rintro rfl
      exact Text.split_ne_nil _ _ hsplit
    · rw [← hsplit, Text.join_split]
      exact htext
  · rintro ⟨hne, htext, hplain, hrest⟩
    obtain ⟨htake, hdrop⟩ := Text.run_eq_iff.mpr ⟨htext, fun _ => isTagText_of_mem_join, hrest⟩
    refine ⟨parts, ⟨?_, hplain⟩, rfl, hdrop⟩
    rw [htake, Text.split_join (by simpa [pieces] using hne) dot_notMem_pieces]

/-- How a text goes on behind a tag: with no tag text, or, if the tag has no parts, without its
mark. -/
def EndsTag (mark : Char) (parts : List Identifier) (rest : List Char) : Prop :=
  (parts = [] → rest.head? ≠ some mark) ∧ (parts ≠ [] → ∀ c ∈ rest.head?, isTagText c = false)

/-- A tag with its mark is read off the texts that start with the tag as it is written. -/
theorem readTagAfter_eq_ok_iff {mark : Char} :
    readTagAfter mark position text = .ok (parts, rest) ↔
      text = (tagText (String.singleton mark) parts).toList ++ rest ∧ PlainAt position parts ∧
        EndsTag mark parts rest := by
  rw [toList_tagText]
  unfold EndsTag
  -- A tag is there exactly if its mark is.
  by_cases hmark : text.head? = some mark
  · obtain ⟨tail, rfl⟩ := List.head?_eq_some_iff.mp hmark
    have hread : readTagAfter mark position (mark :: tail) = readTag position tail := by
      simp [readTagAfter]
    rw [hread, readTag_eq_ok_iff]
    by_cases hparts : parts = []
    · simp only [hparts, ne_eq, not_true, false_and, if_true, List.nil_append, false_iff]
      rintro ⟨rfl, -, hhead, -⟩
      exact hhead trivial hmark
    · simp [hparts]
  · have hread : readTagAfter mark position text = .ok ([], text) := by
      cases text with
      | nil => rfl
      | cons c tail =>
        have hc : c ≠ mark := fun h => hmark (congrArg some h)
        simp [readTagAfter, hc]
    rw [hread]
    by_cases hparts : parts = []
    · subst hparts
      simp only [Except.ok.injEq, Prod.mk.injEq, true_and, if_true, List.nil_append]
      constructor
      · rintro rfl
        exact ⟨rfl, fun _ => by simp, fun _ => hmark, fun h => absurd rfl h⟩
      · exact fun h => h.1
    · simp only [hparts, if_false]
      constructor
      · intro h
        exact absurd (congrArg Prod.fst (Except.ok.inj h)).symm hparts
      · rintro ⟨rfl, -⟩
        exact absurd rfl hmark

/-! ## Versions -/

theorem ofParts_eq_ok_iff {release : Release} {preRelease build : List Identifier} {v : Version} :
    ofParts release preRelease build = .ok v ↔
      release = v.toRelease ∧ preRelease = v.preRelease ∧ build = v.build := by
  unfold ofParts
  constructor
  · intro h
    split at h
    · cases h
      exact ⟨rfl, rfl, rfl⟩
    · cases h
  · rintro ⟨rfl, rfl, rfl⟩
    rw [dif_pos v.plain]

/-- A version is written as its numbers with dots between them, and then its tags. -/
theorem toList_text (v : Version) : v.text.toList =
    Nat.toDigits 10 v.major.toNat ++ '.' :: (Nat.toDigits 10 v.minor.toNat ++
      '.' :: (Nat.toDigits 10 v.patch.toNat ++
        ((tagText (String.singleton '-') v.preRelease).toList ++
          (tagText (String.singleton '+') v.build).toList))) := by
  have hmark : ∀ parts, tagText "-" parts = tagText (String.singleton '-') parts ∧
      tagText "+" parts = tagText (String.singleton '+') parts := fun parts => ⟨rfl, rfl⟩
  simp [text, Release.text, suffixText, (hmark _).1, (hmark _).2]

/-- **A text is read as a version exactly if it is how the version is written.**  The proof goes
from the first number to the last tag, and each part says what text it leaves. -/
theorem read_eq_ok_iff {v : Version} : read text = .ok v ↔ text = v.text.toList := by
  rw [toList_text]
  unfold read
  simp only [Except.throw_bind, Except.ite_throw_eq_ok_iff, Except.bind_eq_ok_iff, Prod.exists,
    readNumber_eq_ok_iff, readDot_eq_ok_iff, readTagAfter_eq_ok_iff]
  constructor
  · rintro ⟨-, major, afterMajor, ⟨rfl, -⟩, text, rfl, minor, afterMinor, ⟨rfl, -⟩, text, rfl,
      patch, afterPatch, ⟨rfl, -⟩, preRelease, afterTag, ⟨rfl, -⟩, build, left, ⟨rfl, -⟩, hv⟩
    cases left with
    | nil =>
      obtain ⟨hrelease, rfl, rfl⟩ := ofParts_eq_ok_iff.mp hv
      rw [← hrelease, List.append_nil]
    | cons c left => exact absurd hv Except.throw_ne_ok
  · rintro rfl
    -- No part of the text runs on into the next one: dots and marks are not digits.
    have hdot : ∀ {tail : List Char}, ∀ c ∈ ('.' :: tail).head?, c.isDigit = false := by
      rintro tail c ⟨⟩
      decide
    have hpatch : ∀ c ∈ ((tagText (String.singleton '-') v.preRelease).toList ++
        (tagText (String.singleton '+') v.build).toList).head?, c.isDigit = false := by
      intro c hc
      rw [List.head?_append, Option.mem_def, Option.or_eq_some_iff] at hc
      rcases hc with hc | ⟨-, hc⟩
      · rw [mem_head?_tagText hc]
        decide
      · rw [mem_head?_tagText hc]
        decide
    have hpre : EndsTag '-' v.preRelease (tagText (String.singleton '+') v.build).toList := by
      refine ⟨fun _ hhead => ?_, fun _ c hc => ?_⟩
      · exact absurd (mem_head?_tagText hhead) (by decide)
      · rw [mem_head?_tagText hc]
        decide
    have hbuild : EndsTag '+' v.build [] := ⟨fun _ => by simp, fun _ c hc => by cases hc⟩
    refine ⟨by simp, v.major, _, ⟨rfl, hdot⟩, _, rfl, v.minor, _, ⟨rfl, hdot⟩, _, rfl, v.patch, _,
      ⟨rfl, hpatch⟩, v.preRelease, _, ⟨rfl, fun _ => v.plain, hpre⟩, v.build, [],
      ⟨(List.append_nil _).symm, fun hmark => absurd hmark (by decide), hbuild⟩, ?_⟩
    exact ofParts_eq_ok_iff.mpr ⟨rfl, rfl, rfl⟩

/-- **A string is read as a version exactly if it is how the version is written.**  So reading and
writing undo each other, and each version has one spelling. -/
theorem parse_eq_ok_iff {s : String} {v : Version} : parse s = .ok v ↔ s = v.text := by
  rw [parse, Except.mapError_eq_ok_iff, read_eq_ok_iff, String.toList_inj]

end Version

end ElmManifest
