import ElmManifest.Pattern
import ElmManifest.Text.Split

/-!
# Patterns that stand for a text

Escaping puts every character that means something in a pattern into brackets, and a pair of
brackets with one character in it stands for that character.  So an escaped text is a pattern that
takes this text and no other one, whatever characters there are in it.  A slash is not escaped, so
the pieces of an escaped path are its escaped segments.

## Main Definitions

* `Token.plain` — the token that an escaped character is read as.

## Main Statements

* `Pattern.read?_escape` — an escaped text is read as its characters.
* `Pattern.takes_plain_iff` — it takes this text only.
* `Pattern.literal?_plain` — which escaped texts have nothing special in them.
* `Pattern.split_escape` — an escaped path is cut where the path is cut.
-/

namespace ElmManifest

/-- The token that an escaped character is read as. -/
def Token.plain (c : Char) : Token :=
  if Pattern.isSpecial c then .among [c] else .char c

namespace Pattern

/-! ## Reading -/

theorem readChars_escapeChar (c : Char) (rest : List Char) :
    readChars none (escapeChar c ++ rest) = (readChars none rest).map (Token.plain c :: ·) := by
  unfold escapeChar Token.plain
  split
  next hspecial =>
    have hbang : [c] ≠ ['!'] := by
      rintro h
      cases h
      exact absurd hspecial (by decide)
    change readChars none ('[' :: c :: ']' :: rest) = _
    rw [readChars, readChars, if_neg (by simp), List.nil_append, readChars,
      if_pos ⟨rfl, by simp, hbang⟩]
  next hspecial =>
    change readChars none (c :: rest) = _
    simp only [isSpecial, Bool.or_eq_true, beq_iff_eq, not_or] at hspecial
    obtain ⟨⟨⟨hquestion, hstar⟩, hopen⟩, -⟩ := hspecial
    rw [readChars]
    · exact hopen
    · exact hquestion
    · exact fun _ h _ => hstar h
    · exact hstar

/-- **An escaped text is read as its characters.**  This is all that is needed of how patterns are
read: no text comes to be a pattern with something special in it by being escaped. -/
theorem read?_escape (text : String) : read? (escape text) = some (text.toList.map .plain) := by
  have hread : ∀ cs : List Char,
      readChars none (cs.flatMap escapeChar) = some (cs.map Token.plain) := by
    intro cs
    induction cs with
    | nil => rfl
    | cons c rest ih => rw [List.flatMap_cons, readChars_escapeChar, ih]; rfl
  rw [read?, escape, String.toList_ofList, hread]

/-! ## Matching -/

theorem takesChars_plain_iff {cs text : List Char} :
    takesChars (cs.map .plain) text = true ↔ text = cs := by
  induction cs generalizing text with
  | nil => simp [takesChars]
  | cons c rest ih =>
    rw [List.map_cons, Token.plain]
    split
    next hspecial =>
      have hamong : ∀ first, isAmong first [c] = (first == c) := by
        intro first
        unfold isAmong
        split
        next h =>
          cases h
          exact absurd hspecial (by decide)
        next => simp [isListed]
      cases text with
      | nil => simp [takesChars]
      | cons first others => simp [takesChars, hamong, ih]
    next =>
      cases text with
      | nil => simp [takesChars]
      | cons first others => simp [takesChars, ih]

/-- **The characters of a text take this text only.** -/
theorem takes_plain_iff {text name : String} :
    takes (text.toList.map .plain) name = true ↔ name = text := by
  rw [takes, takesChars_plain_iff, String.toList_inj]

theorem takes_many (name : String) : takes [.many] name = true := by
  simp only [takes, takesChars, List.any_eq_true, List.mem_range]
  exact ⟨name.toList.length, by omega, by simp⟩

/-- **Nothing special is in the characters of a text** if no character of it is special. -/
theorem literal?_plain (text : String) : literal? (text.toList.map .plain) =
    if text.toList.any isSpecial then none else some text := by
  have hchars : ∀ cs : List Char, (cs.map Token.plain).mapM Token.char? =
      if cs.any isSpecial then none else some cs := by
    intro cs
    induction cs with
    | nil => rfl
    | cons c rest ih =>
      rw [List.map_cons, List.mapM_cons, ih, Token.plain, List.any_cons]
      cases hspecial : isSpecial c with
      | true => rfl
      | false => cases hrest : rest.any isSpecial <;> rfl
  rw [literal?, hchars]
  split
  · rfl
  · rw [Option.map_some, String.ofList_toList]

/-! ## Pieces -/

/-- **An escaped path is cut where the path is cut.**  A slash is no special character, and no
escape has one in it. -/
theorem split_escape (text : String) : Text.split '/' (escape text).toList =
    (Text.split '/' text.toList).map (·.flatMap escapeChar) := by
  rw [escape, String.toList_ofList]
  have hslash : escapeChar '/' = ['/'] := rfl
  apply Text.split_flatMap hslash
  intro c hmem
  unfold escapeChar at hmem
  split at hmem
  next hspecial =>
    simp only [List.mem_cons, List.not_mem_nil, or_false] at hmem
    rcases hmem with h | rfl | h
    · exact absurd h (by decide)
    · rfl
    · exact absurd h (by decide)
  next => exact (List.mem_singleton.mp hmem).symm

end Pattern

end ElmManifest
