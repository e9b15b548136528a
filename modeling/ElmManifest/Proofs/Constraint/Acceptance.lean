import ElmManifest.Proofs.Constraint.Spelling

/-!
# Texts that are read as a constraint

The reader deletes blanks and commas before it looks for a sign, so what it accepts is exactly what
one of the two spellings is left of it.  Where the separators stand makes no difference: between two
tokens they do what they are for, and inside a token they are not noticed, so that `1 0.0.0` is read
as the version `10.0.0`.  A text in which no separator stands inside a token is one of the two
spellings.

## Main Definitions

* `Constraint.isSeparator` — a character that the reader deletes.
* `Constraint.Broken` — a text with a separator inside a token.
* `Constraint.IsWritten` — the two spellings, with blanks between their tokens.

## Main Statements

* `Constraint.text_of_readEnds` — where the ends are found, and what stands around them.
* `Constraint.spaced_of_not_broken` — separators that do not break a token stand between tokens.
* `Constraint.parse_eq_ok_iff_compact` — what is read as a constraint.
* `Constraint.parse_split_number` — a number with a blank inside is read.
-/

namespace ElmManifest.Constraint

/-! ## What is left without separators -/

/-- The ends of the interval form stand around a middle. -/
theorem text_of_intervalEnds? {text : List Char} {ends : Ends}
    (h : intervalEnds? text = some ends) :
    text = ends.lower ++ ((signText ends.lowerInclusive).toList ++
      'v' :: (signText ends.upperInclusive).toList ++ ends.upper) := by
  obtain ⟨⟨middle, lowerInclusive, upperInclusive⟩, hmiddle, hends⟩ :=
    List.exists_of_findSome?_eq_some h
  obtain ⟨⟨lower, upper⟩, hcut, rfl⟩ := Option.map_eq_some_iff.mp hends
  have hspelled : ∀ entry ∈ middles,
      entry.1 = (signText entry.2.1).toList ++ 'v' :: (signText entry.2.2).toList := by
    decide
  rw [Text.append_of_cut hcut, ← hspelled _ hmiddle, List.append_assoc]

theorem text_of_takeEquals {text rest : List Char} {inclusive : Bool}
    (h : takeEquals text = (inclusive, rest)) :
    text = (if inclusive then ['='] else []) ++ rest := by
  unfold takeEquals at h
  split at h <;> cases h <;> rfl

/-- The ends of the comparator form stand behind a sign each. -/
theorem text_of_comparatorEnds? {text : List Char} {ends : Ends}
    (h : comparatorEnds? text = some ends) :
    text = (lowerSignText ends.lowerInclusive).toList ++ (ends.lower ++
      ((signText ends.upperInclusive).toList ++ ends.upper)) := by
  unfold comparatorEnds? at h
  split at h
  next rest =>
    rcases hlower : takeEquals rest with ⟨lowerInclusive, behind⟩
    rw [hlower] at h
    obtain ⟨⟨lower, rest'⟩, hcut, h⟩ := Option.bind_eq_some_iff.mp h
    rcases hupper : takeEquals rest' with ⟨upperInclusive, upper⟩
    simp only [hupper] at h
    cases h
    rw [text_of_takeEquals hlower, Text.append_of_cut hcut, text_of_takeEquals hupper,
      toList_lowerSignText, toList_signText]
    simp
  next => cases h

/-- **Where the ends are found**, and what stands around them.  The middle or the signs can be told
from the ends, so the text can be put together again. -/
theorem text_of_readEnds {text : List Char} {ends : Ends} (h : readEnds text = .ok ends) :
    text = ends.lower ++ ((signText ends.lowerInclusive).toList ++
      'v' :: (signText ends.upperInclusive).toList ++ ends.upper) ∨
    text = (lowerSignText ends.lowerInclusive).toList ++ (ends.lower ++
      ((signText ends.upperInclusive).toList ++ ends.upper)) := by
  unfold readEnds at h
  split at h
  · split at h
    next hends =>
      cases h
      exact .inr (text_of_comparatorEnds? hends)
    next => cases h
  · split at h
    next hends =>
      cases h
      exact .inl (text_of_intervalEnds? hends)
    next => cases h

theorem text_of_readEnd {text : List Char} {v : Version} (h : readEnd text = .ok v) :
    text = v.text.toList := by
  rw [readEnd, Except.mapError_eq_ok_iff, Version.parse_eq_ok_iff] at h
  rw [← h, String.toList_ofList]

theorem flatten_intervalTokens (c : Constraint) : c.intervalTokens.flatten =
    c.lower.text.toList ++ ((signText c.lowerInclusive).toList ++
      'v' :: (signText c.upperInclusive).toList ++ c.upper.text.toList) := by
  simp [intervalTokens]

theorem flatten_comparatorTokens (c : Constraint) : (c.comparatorTokens false).flatten =
    (lowerSignText c.lowerInclusive).toList ++ (c.lower.text.toList ++
      ((signText c.upperInclusive).toList ++ c.upper.text.toList)) := by
  simp [comparatorTokens]

/-- **What is left of a text that is read as a constraint** is one of its spellings, without any
separators. -/
theorem parse_eq_ok_iff {s : String} {c : Constraint} :
    parse s = .ok c ↔ c.lower.toRelease ≤ c.upper.toRelease ∧
      (compact s.toList = c.intervalTokens.flatten ∨
        compact s.toList = (c.comparatorTokens false).flatten) := by
  rw [flatten_intervalTokens, flatten_comparatorTokens]
  constructor
  · intro h
    rw [parse, Except.mapError_eq_ok_iff, read] at h
    obtain ⟨ends, hends, h⟩ := Except.bind_eq_ok_iff.mp h
    obtain ⟨lower, hlower, h⟩ := Except.bind_eq_ok_iff.mp h
    obtain ⟨upper, hupper, h⟩ := Except.bind_eq_ok_iff.mp h
    split at h
    next => cases h
    next horder =>
      cases h
      refine ⟨not_lt.mp horder, ?_⟩
      rw [← text_of_readEnd hlower, ← text_of_readEnd hupper]
      exact text_of_readEnds hends
  · rintro ⟨horder, hinterval | hcomparators⟩
    · rw [parse_of_readEnds, if_neg (not_lt.mpr horder)]
      rw [hinterval]
      exact readEnds_interval c
    · rw [parse_of_readEnds, if_neg (not_lt.mpr horder)]
      rw [hcomparators]
      exact readEnds_comparators c

/-! ## Separators inside a token -/

/-- Whether the reader deletes a character: a blank or a comma. -/
def isSeparator (c : Char) : Bool :=
  Text.isBlank c || c == ','

/-- Whether a separator stands inside a token, between two characters of a version or between two
characters of a sign.  Such a text is none that anyone would write, and `parse` takes it all the
same. -/
def isBroken : List Char → Bool
  | [] => false
  | a :: rest =>
    (!isSeparator a && rest.head?.any isSeparator &&
      (rest.dropWhile isSeparator).head?.any fun b =>
        Version.isVersionCharacter a == Version.isVersionCharacter b) || isBroken rest

/-- The text with a blank in the place of each comma. -/
def commasAsBlanks (text : List Char) : List Char :=
  text.map fun c => if c = ',' then ' ' else c

theorem compact_eq_filter (text : List Char) :
    compact text = text.filter fun c => !isSeparator c := by
  simp [compact, isSeparator, bne]

/-- A text that is not broken is not broken further on. -/
theorem isBroken_of_append {front back : List Char} (h : isBroken (front ++ back) = false) :
    isBroken back = false := by
  induction front with
  | nil => exact h
  | cons a front ih =>
    rw [List.cons_append, isBroken, Bool.or_eq_false_iff] at h
    exact ih h.2

/-- Behind a character that is kept, the characters that are kept next and belong to the same token
follow without a gap. -/
theorem exists_append_of_not_broken {a : Char} {run kept rest : List Char}
    (hbroken : isBroken (a :: rest) = false) (ha : isSeparator a = false)
    (hcompact : compact rest = run ++ kept)
    (hrun : ∀ b ∈ run, Version.isVersionCharacter b = Version.isVersionCharacter a) :
    ∃ rest', rest = run ++ rest' ∧ compact rest' = kept := by
  induction run generalizing a rest with
  | nil => exact ⟨rest, rfl, hcompact⟩
  | cons b run ih =>
    rw [compact_eq_filter, List.cons_append, List.filter_eq_cons_iff] at hcompact
    obtain ⟨gap, behind, rfl, hgap, hb, hbehind⟩ := hcompact
    obtain ⟨hsame, hrun⟩ := List.forall_mem_cons.mp hrun
    have hgap' : ∀ c ∈ gap, isSeparator c = true := by simpa using hgap
    have hb' : isSeparator b = false := by simpa using hb
    cases gap with
    | cons c gap =>
      -- Two characters of one token would stand on both sides of the gap.
      rw [isBroken, List.dropWhile_append_of_pos hgap',
        List.dropWhile_cons_of_neg (by simp [hb'])] at hbroken
      simp [ha, hgap', hsame] at hbroken
    | nil =>
      rw [List.nil_append, isBroken, Bool.or_eq_false_iff] at hbroken
      obtain ⟨rest', rfl, hrest'⟩ := ih hbroken.2 hb' (by rwa [compact_eq_filter])
        fun d hd => (hrun d hd).trans hsame.symm
      exact ⟨rest', rfl, hrest'⟩

/-- A token: some characters of a version, or some characters of a sign. -/
def IsToken (token : List Char) : Prop :=
  ∃ a run, token = a :: run ∧
    ∀ b ∈ run, Version.isVersionCharacter b = Version.isVersionCharacter a

theorem isBlank_commasAsBlanks {gap : List Char} (h : ∀ c ∈ gap, isSeparator c = true) :
    ∀ c ∈ commasAsBlanks gap, Text.isBlank c = true := by
  intro c hc
  obtain ⟨d, hd, rfl⟩ := List.mem_map.mp hc
  have hd' := h d hd
  split
  next => rfl
  next hne => simpa [isSeparator, hne] using hd'

theorem isSeparator_of_mem_compact {text : List Char} {c : Char} (h : c ∈ compact text) :
    isSeparator c = false := by
  rw [compact_eq_filter] at h
  simpa using (List.mem_filter.mp h).2

theorem commasAsBlanks_append (front back : List Char) :
    commasAsBlanks (front ++ back) = commasAsBlanks front ++ commasAsBlanks back :=
  List.map_append

/-- There is no comma in what the reader keeps. -/
theorem commasAsBlanks_eq_self {token : List Char} (h : ∀ c ∈ token, isSeparator c = false) :
    commasAsBlanks token = token := by
  rw [commasAsBlanks, List.map_congr_left (g := id), List.map_id]
  intro c hc
  have hcomma : c ≠ ',' := by
    rintro rfl
    exact absurd (h _ hc) (by decide)
  rw [if_neg hcomma, id]

/-- **Separators that do not break a token stand between tokens.**  The induction is on the tokens:
in front of each there are separators only. -/
theorem spaced_of_not_broken {tokens : List (List Char)} {text : List Char}
    (htokens : ∀ token ∈ tokens, IsToken token) (hcompact : compact text = tokens.flatten)
    (hbroken : isBroken text = false) : Text.Spaced tokens (commasAsBlanks text) := by
  induction tokens generalizing text with
  | nil =>
    apply Text.Spaced.done
    apply isBlank_commasAsBlanks
    rw [compact_eq_filter] at hcompact
    simpa using hcompact
  | cons token tokens ih =>
    obtain ⟨⟨a, run, rfl, hrun⟩, htail⟩ := List.forall_mem_cons.mp htokens
    have hkept : ∀ c ∈ a :: run, isSeparator c = false := by
      intro c hc
      have hmem : c ∈ compact text := by
        rw [hcompact]
        exact List.mem_append_left _ hc
      exact isSeparator_of_mem_compact hmem
    rw [compact_eq_filter, List.flatten_cons, List.cons_append, List.filter_eq_cons_iff] at hcompact
    obtain ⟨gap, rest, rfl, hgap, -, hrest⟩ := hcompact
    rw [← compact_eq_filter] at hrest
    obtain ⟨rest', rfl, hrest'⟩ := exists_append_of_not_broken (isBroken_of_append hbroken)
      (hkept a (List.mem_cons_self ..)) hrest hrun
    have hsplit : gap ++ a :: (run ++ rest') = gap ++ ((a :: run) ++ rest') := rfl
    rw [hsplit, ← List.append_assoc] at hbroken
    rw [hsplit, commasAsBlanks_append, commasAsBlanks_append, commasAsBlanks_eq_self hkept]
    refine .token (isBlank_commasAsBlanks (by simpa using hgap)) ?_
    exact ih htail hrest' (isBroken_of_append hbroken)

/-! ## Both spellings -/

theorem isToken_text (v : Version) : IsToken v.text.toList := by
  obtain ⟨d, rest, htext, -⟩ := v.exists_digit_of_text
  have hversion : ∀ c ∈ d :: rest, Version.isVersionCharacter c = true := by
    rw [← htext]
    exact fun c => Version.isVersionCharacter_of_mem_text
  refine ⟨d, rest, htext, fun c hc => ?_⟩
  rw [hversion c (List.mem_cons_of_mem _ hc), hversion d (List.mem_cons_self ..)]

theorem isToken_signText (inclusive : Bool) : IsToken (signText inclusive).toList := by
  refine ⟨'<', _, toList_signText inclusive, ?_⟩
  cases inclusive with
  | true => exact List.forall_mem_singleton.mpr rfl
  | false => exact List.forall_mem_nil _

theorem isToken_lowerSignText (inclusive : Bool) : IsToken (lowerSignText inclusive).toList := by
  refine ⟨'>', _, toList_lowerSignText inclusive, ?_⟩
  cases inclusive with
  | true => exact List.forall_mem_singleton.mpr rfl
  | false => exact List.forall_mem_nil _

theorem isToken_of_mem_intervalTokens {c : Constraint} :
    ∀ token ∈ c.intervalTokens, IsToken token := by
  simp only [intervalTokens, List.forall_mem_cons]
  exact ⟨isToken_text _, isToken_signText _, ⟨'v', [], rfl, List.forall_mem_nil _⟩,
    isToken_signText _, isToken_text _, List.forall_mem_nil _⟩

theorem isToken_of_mem_comparatorTokens {c : Constraint} :
    ∀ token ∈ c.comparatorTokens false, IsToken token := by
  simp only [comparatorTokens, List.forall_mem_append, List.forall_mem_cons]
  exact ⟨⟨⟨isToken_lowerSignText _, isToken_text _, List.forall_mem_nil _⟩, List.forall_mem_nil _⟩,
    isToken_signText _, isToken_text _, List.forall_mem_nil _⟩

/-- **What is read as a constraint.**  A text is read as a constraint exactly if the ends of the
constraint are in order and one of its spellings is left of the text when blanks and commas are
deleted.  Where none of them stands inside a token, they stand between the tokens of that spelling.
More cannot be said, because separators are deleted before anything is read. -/
theorem parse_eq_ok_iff_compact (s : String) (c : Constraint) :
    (parse s = .ok c ↔ c.lower.toRelease ≤ c.upper.toRelease ∧
      (compact s.toList = c.intervalTokens.flatten ∨
        compact s.toList = (c.comparatorTokens false).flatten)) ∧
    (parse s = .ok c → isBroken s.toList = false →
      Text.Spaced c.intervalTokens (commasAsBlanks s.toList) ∨
        Text.Spaced (c.comparatorTokens false) (commasAsBlanks s.toList)) := by
  refine ⟨parse_eq_ok_iff, fun h hbroken => ?_⟩
  obtain ⟨-, hcompact⟩ := parse_eq_ok_iff.mp h
  exact hcompact.imp
    (fun hinterval => spaced_of_not_broken isToken_of_mem_intervalTokens hinterval hbroken)
    (fun hcomparators => spaced_of_not_broken isToken_of_mem_comparatorTokens hcomparators hbroken)

/-- A comma and a wide blank between two comparators break no token, so a text with both is read as
the constraint that it spells, tags and all. -/
theorem parse_eq_ok_iff_compact_middleTagged :
    middleTagged.lower.toRelease ≤ middleTagged.upper.toRelease ∧
    compact ">1.0.0-v,\u00a0<=2.0.0+v".toList = (middleTagged.comparatorTokens false).flatten ∧
    parse ">1.0.0-v,\u00a0<=2.0.0+v" = .ok middleTagged ∧
    isBroken ">1.0.0-v,\u00a0<=2.0.0+v".toList = false ∧
    (Text.Spaced middleTagged.intervalTokens (commasAsBlanks ">1.0.0-v,\u00a0<=2.0.0+v".toList) ∨
      Text.Spaced (middleTagged.comparatorTokens false)
        (commasAsBlanks ">1.0.0-v,\u00a0<=2.0.0+v".toList)) := by
  have horder : middleTagged.lower.toRelease ≤ middleTagged.upper.toRelease := by decide
  have hcompact : compact ">1.0.0-v,\u00a0<=2.0.0+v".toList =
      (middleTagged.comparatorTokens false).flatten := by
    decide +kernel
  have hbroken : isBroken ">1.0.0-v,\u00a0<=2.0.0+v".toList = false := by decide
  obtain ⟨hiff, hspaced⟩ := parse_eq_ok_iff_compact ">1.0.0-v,\u00a0<=2.0.0+v" middleTagged
  have hparse := hiff.mpr ⟨horder, .inr hcompact⟩
  exact ⟨horder, hcompact, hparse, hbroken, hspaced hparse hbroken⟩

/-! ## A number with a blank inside -/

/-- A text is one of the spellings of the constraint, with blanks between the tokens and at most one
comma, between the comparators. -/
def IsWritten (c : Constraint) (s : String) : Prop :=
  Text.Spaced c.intervalTokens s.toList ∨
    ∃ comma, Text.Spaced (c.comparatorTokens comma) s.toList

theorem isBlank_of_isVersionCharacter {c : Char} (h : Version.isVersionCharacter c = true) :
    Text.isBlank c = false := by
  obtain ⟨hlow, hhigh, -⟩ := toNat_of_isVersionCharacter h
  simp [Text.isBlank]
  omega

/-- Behind the blanks in front, the first token starts. -/
theorem head?_of_spaced {a : Char} {token text : List Char} {tokens : List (List Char)}
    (ha : Text.isBlank a = false) (h : Text.Spaced ((a :: token) :: tokens) text) :
    (text.dropWhile Text.isBlank).head? = some a := by
  cases h with
  | token hblank _ =>
    rw [List.dropWhile_append_of_pos hblank, List.cons_append,
      List.dropWhile_cons_of_neg (by simp [ha]), List.head?_cons]

/-- Behind a version in front, the sign starts. -/
theorem head?_of_spaced_version {v : Version} {sign text : List Char} {tokens : List (List Char)}
    (h : Text.Spaced (v.text.toList :: ('<' :: sign) :: tokens) text) :
    (((text.dropWhile Text.isBlank).dropWhile Version.isVersionCharacter).dropWhile
      Text.isBlank).head? = some '<' := by
  have hversion : ∀ c ∈ v.text.toList, Version.isVersionCharacter c = true :=
    fun _ => Version.isVersionCharacter_of_mem_text
  obtain ⟨d, digits, htext, -⟩ := v.exists_digit_of_text
  rw [htext] at h hversion
  cases h with
  | @token blanks _ rest _ hblank hrest =>
    have hdigit : Text.isBlank d = false :=
      isBlank_of_isVersionCharacter (hversion d (List.mem_cons_self ..))
    -- Behind the version there is a blank or the sign, and neither can be part of a version.
    have hend : ∀ c ∈ rest.head?, Version.isVersionCharacter c = false := by
      cases hrest with
      | @token gap _ behind _ hgap _ =>
        intro c hc
        cases gap with
        | nil =>
          obtain rfl : '<' = c := by simpa using hc
          decide
        | cons b gap =>
          obtain rfl : b = c := by simpa using hc
          have hb := hgap b (List.mem_cons_self ..)
          by_contra hversion
          rw [isBlank_of_isVersionCharacter (by simpa using hversion)] at hb
          cases hb
    have hskip : (blanks ++ (d :: digits ++ rest)).dropWhile Text.isBlank =
        d :: digits ++ rest := by
      rw [List.dropWhile_append_of_pos hblank, List.cons_append,
        List.dropWhile_cons_of_neg (by simp [hdigit])]
    rw [hskip, (Text.run_eq_iff.mpr ⟨rfl, hversion, hend⟩).2]
    exact head?_of_spaced (by decide) hrest

/-- **A number with a blank inside is read**, although the text is neither of the spellings of any
constraint.  The blank is gone before `split_elm_form` sees the text. -/
theorem parse_split_number :
    parse "1 0.0.0 <= v < 20.0.0" = .ok ⟨.ofNumbers 10 0 0, true, .ofNumbers 20 0 0, false⟩ ∧
      ∀ c : Constraint, ¬ c.IsWritten "1 0.0.0 <= v < 20.0.0" := by
  constructor
  · exact parse_eq_ok_iff.mpr ⟨by decide, .inl (by decide +kernel)⟩
  · rintro c (hinterval | ⟨comma, hcomparators⟩)
    · rw [intervalTokens, toList_signText] at hinterval
      exact absurd (head?_of_spaced_version hinterval) (by decide)
    · rw [comparatorTokens, toList_lowerSignText] at hcomparators
      exact absurd (head?_of_spaced (by decide) hcomparators) (by decide)

end ElmManifest.Constraint
