import ElmManifest.Proofs.Constraint.Reading

/-!
# Two spellings of a constraint

A constraint can be spelled as an interval, `1.0.0 <= v < 2.0.0`, or with two comparators,
`>=1.0.0, <2.0.0`, and in either spelling with blanks around the tokens.  Both are read as the same
constraint, with its ends as they are spelled, tags included.  The reader deletes the blanks before
it looks for a sign, so what has to be shown is that the first sign that it can find is the one
behind the lower end, whatever the tags hold.

## Main Definitions

* `Text.Spaced` — tokens in order with blanks around them.
* `Constraint.intervalTokens`, `Constraint.comparatorTokens` — the two spellings.

## Main Statements

* `Constraint.compact_of_spaced` — blanks around tokens make no difference.
* `Constraint.readEnds_comparators` — the ends of the comparator form.
* `Constraint.parse_of_spaced` — both spellings are read as the constraint if its ends are in order,
  and refused if they are not.
-/

namespace ElmManifest

/-- Tokens in order, with any number of blanks in front of each of them and behind the last one. -/
inductive Text.Spaced : List (List Char) → List Char → Prop where
  /-- There are no tokens left. -/
  | done {blanks : List Char} (hblank : ∀ c ∈ blanks, Text.isBlank c = true) :
      Text.Spaced [] blanks
  /-- The next token, and what comes behind it. -/
  | token {blanks token text : List Char} {tokens : List (List Char)}
      (hblank : ∀ c ∈ blanks, Text.isBlank c = true) (hrest : Text.Spaced tokens text) :
      Text.Spaced (token :: tokens) (blanks ++ (token ++ text))

/-- A token with no blank in front of it. -/
theorem Text.Spaced.next {token text : List Char} {tokens : List (List Char)}
    (h : Text.Spaced tokens text) : Text.Spaced (token :: tokens) (token ++ text) :=
  .token (List.forall_mem_nil _) h

theorem Text.Spaced.flatten (tokens : List (List Char)) :
    Text.Spaced tokens tokens.flatten := by
  induction tokens with
  | nil => exact .done (List.forall_mem_nil _)
  | cons token tokens ih => exact ih.next

namespace Constraint

/-! ## The spellings -/

/-- The tokens of the interval form. -/
def intervalTokens (c : Constraint) : List (List Char) :=
  [c.lower.text.toList, (signText c.lowerInclusive).toList, ['v'],
    (signText c.upperInclusive).toList, c.upper.text.toList]

/-- The sign in front of the lower end in the comparator form. -/
def lowerSignText (inclusive : Bool) : String :=
  if inclusive then ">=" else ">"

theorem toList_lowerSignText (inclusive : Bool) :
    (lowerSignText inclusive).toList = '>' :: if inclusive then ['='] else [] := by
  cases inclusive <;> rfl

theorem toList_signText (inclusive : Bool) :
    (signText inclusive).toList = '<' :: if inclusive then ['='] else [] := by
  cases inclusive <;> rfl

/-- The tokens of the comparator form, with a comma behind the lower end or without one. -/
def comparatorTokens (c : Constraint) (comma : Bool) : List (List Char) :=
  [(lowerSignText c.lowerInclusive).toList, c.lower.text.toList] ++
    (if comma then [[',']] else []) ++ [(signText c.upperInclusive).toList, c.upper.text.toList]

/-- The text of a constraint is its interval form, with a blank between neighbours. -/
theorem spaced_text (c : Constraint) : Text.Spaced c.intervalTokens c.text.toList := by
  have hspace : ∀ c ∈ [' '], Text.isBlank c = true := List.forall_mem_singleton.mpr rfl
  have htext : c.text.toList = c.lower.text.toList ++ ([' '] ++
      ((signText c.lowerInclusive).toList ++ ([' '] ++ (['v'] ++ ([' '] ++
        ((signText c.upperInclusive).toList ++ ([' '] ++ (c.upper.text.toList ++ [])))))))) := by
    simp [text]
  rw [htext]
  exact .next <| .token hspace <| .token hspace <| .token hspace <| .token hspace <|
    .done (List.forall_mem_nil _)

/-! ## Blanks -/

theorem compact_eq_nil {blanks : List Char} (h : ∀ c ∈ blanks, Text.isBlank c = true) :
    compact blanks = [] := by
  apply List.filter_eq_nil_iff.mpr
  intro c hc
  simp [h c hc]

/-- **Blanks around tokens make no difference.**  All that is left of a text in which they are
separated is the tokens. -/
theorem compact_of_spaced {tokens : List (List Char)} {text : List Char}
    (h : Text.Spaced tokens text) : compact text = compact tokens.flatten := by
  induction h with
  | done hblank => exact compact_eq_nil hblank
  | token hblank _ ih =>
    rw [compact_append, compact_eq_nil hblank, compact_append, ih, List.flatten_cons,
      compact_append, List.nil_append]

theorem compact_signText (inclusive : Bool) :
    compact (signText inclusive).toList = (signText inclusive).toList := by
  cases inclusive <;> decide

/-- What is left of the interval form is what is left of the text. -/
theorem compact_intervalTokens (c : Constraint) : compact c.intervalTokens.flatten =
    c.lower.text.toList ++ (c.middle ++ c.upper.text.toList) := by
  rw [← compact_of_spaced c.spaced_text, compact_text]

theorem compact_comparatorTokens (c : Constraint) (comma : Bool) :
    compact (c.comparatorTokens comma).flatten = (lowerSignText c.lowerInclusive).toList ++
      (c.lower.text.toList ++ ((signText c.upperInclusive).toList ++ c.upper.text.toList)) := by
  have hflatten : (c.comparatorTokens comma).flatten = (lowerSignText c.lowerInclusive).toList ++
      (c.lower.text.toList ++ ((if comma then [','] else []) ++
        ((signText c.upperInclusive).toList ++ c.upper.text.toList))) := by
    cases comma <;> simp [comparatorTokens]
  have hsign : ∀ inclusive, compact (lowerSignText inclusive).toList =
      (lowerSignText inclusive).toList := by
    decide
  have hcomma : compact (if comma then [','] else []) = [] := by
    cases comma <;> decide
  rw [hflatten]
  simp only [compact_append, compact_version, compact_signText, hsign, hcomma, List.nil_append]

/-! ## The comparator form -/

/-- An equals sign is taken off the front of a version, and nothing else is. -/
theorem takeEquals_append (inclusive : Bool) (v : Version) (rest : List Char) :
    takeEquals ((if inclusive then ['='] else []) ++ (v.text.toList ++ rest)) =
      (inclusive, v.text.toList ++ rest) := by
  cases inclusive with
  | true => rfl
  | false =>
    -- A version starts with a digit.
    obtain ⟨d, tail, htext, hdigit⟩ := v.exists_digit_of_text
    have hne : d ≠ '=' := by
      rintro rfl
      exact absurd hdigit (by decide)
    rw [htext]
    simp [takeEquals, hne]

/-- The ends of the comparator form are those behind the two signs: a version holds no sign, so the
first `<` is the one in front of the upper end. -/
theorem readEnds_comparators (c : Constraint) :
    readEnds ((lowerSignText c.lowerInclusive).toList ++
        (c.lower.text.toList ++ ((signText c.upperInclusive).toList ++ c.upper.text.toList))) =
      .ok ⟨c.lower.text.toList, c.lowerInclusive, c.upper.text.toList, c.upperInclusive⟩ := by
  have hcut : ∀ rest, Text.cut ['<'] (c.lower.text.toList ++ '<' :: rest) =
      some (c.lower.text.toList, rest) := by
    intro rest
    rw [Text.cut_append (notMem_text (by decide)), Text.cut]
    simp
  have hupper := takeEquals_append c.upperInclusive c.upper []
  rw [List.append_nil] at hupper
  rw [toList_lowerSignText, toList_signText, List.cons_append, List.cons_append, readEnds,
    List.head?_cons, if_pos rfl, comparatorEnds?, takeEquals_append]
  simp [hcut, hupper]

/-- **Both spellings of a constraint are read as the constraint.**  If its ends are in order, then
its text, and either spelling with blanks around the tokens, is read as the constraint, with the
ends as they are spelled.  If they are not, either spelling is refused for that.  As the text that
is written is one of these spellings, `parse` undoes it. -/
theorem parse_of_spaced (c : Constraint) :
    (c.lower.toRelease ≤ c.upper.toRelease → parse c.text = .ok c) ∧
    ∀ (comma : Bool) (interval comparators : String),
      Text.Spaced c.intervalTokens interval.toList →
      Text.Spaced (c.comparatorTokens comma) comparators.toList →
      (c.lower.toRelease ≤ c.upper.toRelease →
        parse interval = .ok c ∧ parse comparators = .ok c) ∧
      (c.upper.toRelease < c.lower.toRelease →
        parse interval = .error ⟨interval, .reversed⟩ ∧
        parse comparators = .error ⟨comparators, .reversed⟩) := by
  refine ⟨parse_text, fun comma interval comparators hinterval hcomparators => ?_⟩
  have hreadInterval := parse_of_readEnds (s := interval) (c := c) (by
    rw [compact_of_spaced hinterval, compact_intervalTokens, readEnds_interval])
  have hreadComparators := parse_of_readEnds (s := comparators) (c := c) (by
    rw [compact_of_spaced hcomparators, compact_comparatorTokens, readEnds_comparators])
  rw [hreadInterval, hreadComparators]
  refine ⟨fun horder => ?_, fun hreversed => ?_⟩
  · rw [if_neg (not_lt.mpr horder), if_neg (not_lt.mpr horder)]
    exact ⟨rfl, rfl⟩
  · rw [if_pos hreversed, if_pos hreversed]
    exact ⟨rfl, rfl⟩

/-- A tag that looks like the middle of an interval. -/
def middleTag : Identifier := ⟨"v", by decide, List.all_eq_true.mp (by decide)⟩

/-- A constraint with that tag at both ends. -/
def middleTagged : Constraint where
  lower := { Version.ofNumbers 1 0 0 with preRelease := [middleTag], plain := by decide }
  lowerInclusive := false
  upper := { Version.ofNumbers 2 0 0 with build := [middleTag] }
  upperInclusive := true

/-- The constraint with the same ends, the other way round, which no text is read as. -/
def middleReversed : Constraint :=
  ⟨middleTagged.upper, true, middleTagged.lower, false⟩

/-- Tags that look like the middle of an interval are not taken for it, in either order of the ends.
-/
theorem parse_of_spaced_middleTagged :
    (middleTagged.lower.toRelease ≤ middleTagged.upper.toRelease ∧
      middleTagged.text = "1.0.0-v < v <= 2.0.0+v" ∧
      Text.Spaced (middleTagged.comparatorTokens true) ">1.0.0-v,\u00a0<=2.0.0+v".toList ∧
      parse "1.0.0-v < v <= 2.0.0+v" = .ok middleTagged ∧
      parse ">1.0.0-v,\u00a0<=2.0.0+v" = .ok middleTagged) ∧
    middleReversed.upper.toRelease < middleReversed.lower.toRelease ∧
      middleReversed.text = "2.0.0+v <= v < 1.0.0-v" ∧
      parse "2.0.0+v <= v < 1.0.0-v" = .error ⟨"2.0.0+v <= v < 1.0.0-v", .reversed⟩ ∧
      parse ">=2.0.0+v<1.0.0-v" = .error ⟨">=2.0.0+v<1.0.0-v", .reversed⟩ := by
  have hblank : ∀ c ∈ ['\u00a0'], Text.isBlank c = true := List.forall_mem_singleton.mpr rfl
  have hcomparators :
      Text.Spaced (middleTagged.comparatorTokens true) ">1.0.0-v,\u00a0<=2.0.0+v".toList :=
    .next <| .next <| .next <| .token hblank <| .next <| .done (List.forall_mem_nil _)
  have hreversed :
      Text.Spaced (middleReversed.comparatorTokens false) ">=2.0.0+v<1.0.0-v".toList :=
    Text.Spaced.flatten _
  have hlt : middleTagged.lower.toRelease < middleTagged.upper.toRelease := by decide
  have hle : middleTagged.lower.toRelease ≤ middleTagged.upper.toRelease := by decide
  have htext : middleTagged.text = "1.0.0-v < v <= 2.0.0+v" := by decide +kernel
  have htext' : middleReversed.text = "2.0.0+v <= v < 1.0.0-v" := by decide +kernel
  obtain ⟨-, hspaced⟩ := parse_of_spaced middleTagged
  obtain ⟨-, hspaced'⟩ := parse_of_spaced middleReversed
  obtain ⟨hread, hread'⟩ := (hspaced true _ _ (spaced_text _) hcomparators).1 hle
  obtain ⟨hrefused, hrefused'⟩ := (hspaced' false _ _ (spaced_text _) hreversed).2 hlt
  rw [htext] at hread
  rw [htext'] at hrefused
  exact ⟨⟨hle, htext, hcomparators, hread, hread'⟩, hlt, htext', hrefused, hrefused'⟩

end Constraint

end ElmManifest
