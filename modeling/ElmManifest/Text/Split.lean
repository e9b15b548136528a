/-!
# Cutting text

Versions, ranges, package names and paths are all read by cutting a list of characters at a
separator.  A path that comes from the operating system is cut in the same way, only that it is a
list of bytes.

## Main Definitions

* `split sep text` — the pieces between the separators, one more piece than there are separators.
* `join sep pieces` — the pieces with a separator between neighbours.
* `cut sep text` — the text before and after the first occurrence of `sep`.

## Main Statements

* `join_split` — cutting and joining again gives the text back.
* `notMem_of_mem_split` — no piece holds the separator.
* `split_flatMap` — a text that is spelled otherwise is cut at the same places.
* `append_of_cut` — what `cut` returns is the text with the separator taken out.
* `mem_join` — the characters of a joined text.
* `run_eq_iff` — the run of characters of a class at the start of a text.
-/

namespace ElmManifest.Text

variable {α : Type}

/-- The pieces of `text` between the occurrences of `sep`; never the empty list. -/
def split [DecidableEq α] (sep : α) : List α → List (List α)
  | [] => [[]]
  | c :: rest =>
    if c = sep then [] :: split sep rest
    else
      match split sep rest with
      | [] => [[c]]
      | piece :: pieces => (c :: piece) :: pieces

/-- The pieces with one `sep` between neighbours. -/
def join (sep : α) : List (List α) → List α
  | [] => []
  | [piece] => piece
  | piece :: pieces => piece ++ sep :: join sep pieces

/-- The text before and after the first occurrence of `sep`, if there is one. -/
def cut (sep : List Char) (text : List Char) : Option (List Char × List Char) :=
  if sep.isPrefixOf text then some ([], text.drop sep.length)
  else
    match text with
    | [] => none
    | c :: rest => (cut sep rest).map fun halves => (c :: halves.1, halves.2)

theorem split_ne_nil [DecidableEq α] (sep : α) (text : List α) : split sep text ≠ [] := by
  induction text with
  | nil => simp [split]
  | cons c rest ih =>
    unfold split
    split
    · simp
    · cases h : split sep rest <;> simp

theorem join_cons {sep : α} {piece : List α} {pieces : List (List α)}
    (h : pieces ≠ []) : join sep (piece :: pieces) = piece ++ sep :: join sep pieces := by
  cases pieces with
  | nil => exact absurd rfl h
  | cons => rfl

/-- Cutting loses nothing but the separators, which joining puts back. -/
theorem join_split [DecidableEq α] (sep : α) (text : List α) :
    join sep (split sep text) = text := by
  induction text with
  | nil => rfl
  | cons c rest ih =>
    unfold split
    split
    next h => rw [join_cons (split_ne_nil sep rest), ih, h]; rfl
    next h =>
      cases hs : split sep rest with
      | nil => exact absurd hs (split_ne_nil sep rest)
      | cons piece pieces =>
        rw [hs] at ih
        cases pieces with
        | nil => simpa [join] using ih
        | cons => simpa [join] using ih

theorem notMem_of_mem_split [DecidableEq α] {sep : α} {text piece : List α}
    (h : piece ∈ split sep text) : sep ∉ piece := by
  induction text generalizing piece with
  | nil => simp [split] at h; simp [h]
  | cons c rest ih =>
    unfold split at h
    split at h
    next hc =>
      rcases List.mem_cons.mp h with rfl | h
      · simp
      · exact ih h
    next hc =>
      cases hs : split sep rest with
      | nil => exact absurd hs (split_ne_nil sep rest)
      | cons first others =>
        rw [hs] at h ih
        rcases List.mem_cons.mp h with rfl | h
        · have := ih (List.mem_cons_self ..)
          simp [this, Ne.symm hc]
        · exact ih (List.mem_cons_of_mem _ h)

/-- A text without the separator is a single piece. -/
theorem split_of_notMem [DecidableEq α] {sep : α} {text : List α} (h : sep ∉ text) :
    split sep text = [text] := by
  induction text with
  | nil => rfl
  | cons c rest ih =>
    simp only [List.mem_cons, not_or] at h
    unfold split
    rw [if_neg (Ne.symm h.1), ih h.2]

/-- The piece in front of a separator is cut off whole. -/
theorem split_append_cons [DecidableEq α] {sep : α} {text rest : List α} (h : sep ∉ text) :
    split sep (text ++ sep :: rest) = text :: split sep rest := by
  induction text with
  | nil => simp [split]
  | cons c text ih =>
    simp only [List.mem_cons, not_or] at h
    rw [List.cons_append, split, if_neg (Ne.symm h.1), ih h.2]

/-- A separator is always a cut: the pieces on its two sides are those of the two sides. -/
theorem split_append_sep [DecidableEq α] (sep : α) (text rest : List α) :
    split sep (text ++ sep :: rest) = split sep text ++ split sep rest := by
  induction text with
  | nil => simp [split]
  | cons c text ih =>
    rw [List.cons_append, split, split]
    split
    · simp [ih]
    · rw [ih]
      cases hs : split sep text with
      | nil => exact absurd hs (split_ne_nil sep text)
      | cons => rfl

/-- Joining pieces that hold no separator, at least one of them, is undone by cutting. -/
theorem split_join [DecidableEq α] {sep : α} {pieces : List (List α)} (hne : pieces ≠ [])
    (h : ∀ piece ∈ pieces, sep ∉ piece) : split sep (join sep pieces) = pieces := by
  induction pieces with
  | nil => exact absurd rfl hne
  | cons piece pieces ih =>
    have hp := h piece (List.mem_cons_self ..)
    cases pieces with
    | nil => exact split_of_notMem hp
    | cons next pieces =>
      rw [join_cons (by simp), split_append_cons hp,
        ih (by simp) fun p hm => h p (List.mem_cons_of_mem _ hm)]

theorem length_join_append (sep : α) (before : List (List α)) (piece : List α)
    (after : List (List α)) :
    (join sep before).length + piece.length ≤ (join sep (before ++ piece :: after)).length := by
  induction before with
  | nil => cases after <;> simp [join]
  | cons first others ih =>
    have hjoin : join sep (first :: (others ++ piece :: after)) =
        first ++ sep :: join sep (others ++ piece :: after) := join_cons (by simp)
    rw [List.cons_append, hjoin]
    cases others with
    | nil => simp [join] at ih ⊢; omega
    | cons second others =>
      have hjoin' : join sep (first :: second :: others) =
          first ++ sep :: join sep (second :: others) := join_cons (by simp)
      rw [hjoin']
      simp only [List.length_append, List.length_cons] at ih ⊢
      omega

theorem length_join_le (sep : α) (before after : List (List α)) :
    (join sep before).length ≤ (join sep (before ++ after)).length := by
  cases after with
  | nil => simp
  | cons piece after => have := length_join_append sep before piece after; omega

/-- An empty piece at the end is a separator at the end. -/
theorem join_append_nil (sep : α) {pieces : List (List α)} (h : pieces ≠ []) :
    join sep (pieces ++ [[]]) = join sep pieces ++ [sep] := by
  induction pieces with
  | nil => exact absurd rfl h
  | cons piece rest ih =>
    by_cases hrest : rest = []
    · subst hrest
      simp [join]
    · rw [List.cons_append, join_cons (by simp), ih hrest, join_cons hrest, List.append_assoc]
      rfl

/-- There are at most as many pieces as characters, and one more. -/
theorem length_le_length_join (sep : α) (pieces : List (List α)) :
    pieces.length ≤ (join sep pieces).length + 1 := by
  induction pieces with
  | nil => simp
  | cons piece pieces ih =>
    cases pieces with
    | nil => simp
    | cons next pieces =>
      rw [join_cons (by simp)]
      simp only [List.length_cons, List.length_append] at ih ⊢
      omega

section Spelled

variable {β : Type} {f : α → List β} {sep : α} {sep' : β} (hsep : f sep = [sep'])
include hsep

/-- Joined pieces are spelled like the pieces, with the spelled separator between neighbours. -/
theorem flatMap_join (pieces : List (List α)) :
    (join sep pieces).flatMap f = join sep' (pieces.map (·.flatMap f)) := by
  induction pieces with
  | nil => rfl
  | cons piece rest ih =>
    by_cases hrest : rest = []
    · subst hrest
      rfl
    · rw [join_cons hrest, List.map_cons, join_cons (by simpa using hrest), List.flatMap_append,
        List.flatMap_cons, ih, hsep]
      rfl

/-- **A spelled text is cut where the text is cut**, if nothing else is spelled with the separator.
-/
theorem split_flatMap [DecidableEq α] [DecidableEq β] (hother : ∀ c, sep' ∈ f c → c = sep)
    (text : List α) : split sep' (text.flatMap f) = (split sep text).map (·.flatMap f) := by
  conv => lhs; rw [← join_split sep text, flatMap_join hsep]
  apply split_join
  · simp [split_ne_nil]
  · intro spelled hspelled
    obtain ⟨piece, hpiece, rfl⟩ := List.mem_map.mp hspelled
    intro hmem
    obtain ⟨c, hc, hmem⟩ := List.mem_flatMap.mp hmem
    exact notMem_of_mem_split hpiece (hother c hmem ▸ hc)

end Spelled

/-- What `cut` returns is the text with the separator taken out. -/
theorem append_of_cut {sep text before after : List Char}
    (h : cut sep text = some (before, after)) : text = before ++ sep ++ after := by
  induction text generalizing before with
  | nil =>
    unfold cut at h
    split at h
    next hp =>
      obtain ⟨rfl, rfl⟩ := Prod.mk.injEq .. ▸ Option.some.injEq .. ▸ h
      have : sep = [] := by simpa using hp
      simp [this]
    next => simp at h
  | cons c rest ih =>
    unfold cut at h
    split at h
    next hp =>
      obtain ⟨rfl, rfl⟩ := Prod.mk.injEq .. ▸ Option.some.injEq .. ▸ h
      obtain ⟨tail, ht⟩ := List.isPrefixOf_iff_prefix.mp hp
      rw [← ht]
      simp
    next =>
      obtain ⟨⟨b, a⟩, hb, he⟩ := Option.map_eq_some_iff.mp h
      obtain ⟨rfl, rfl⟩ := Prod.mk.injEq .. ▸ he
      rw [ih hb]
      simp

/-- Joining is what the library calls intercalating one separator. -/
theorem join_eq_intercalate (sep : α) (pieces : List (List α)) :
    join sep pieces = [sep].intercalate pieces := by
  induction pieces with
  | nil => rfl
  | cons piece pieces ih =>
    cases pieces with
    | nil => simp [join]
    | cons next pieces =>
      rw [join_cons (by simp), ih]
      simp [List.intercalate]

theorem mem_join_of_mem {sep c : α} {piece : List α} {pieces : List (List α)}
    (hp : piece ∈ pieces) (hc : c ∈ piece) : c ∈ join sep pieces := by
  induction pieces with
  | nil => exact absurd hp List.not_mem_nil
  | cons first rest ih =>
    by_cases hne : rest = []
    · subst hne
      rwa [List.mem_singleton.mp hp] at hc
    · rw [join_cons hne, List.mem_append, List.mem_cons]
      rcases List.mem_cons.mp hp with rfl | hp
      · exact .inl hc
      · exact .inr (.inr (ih hp))

/-- A joined text holds separators and what its pieces hold. -/
theorem mem_join {sep c : α} {pieces : List (List α)} (h : c ∈ join sep pieces) :
    c = sep ∨ ∃ piece ∈ pieces, c ∈ piece := by
  induction pieces with
  | nil => exact absurd h List.not_mem_nil
  | cons piece pieces ih =>
    by_cases hne : pieces = []
    · subst hne
      exact .inr ⟨piece, List.mem_singleton_self _, h⟩
    · rw [join_cons hne, List.mem_append, List.mem_cons] at h
      rcases h with h | h | h
      · exact .inr ⟨piece, List.mem_cons_self .., h⟩
      · exact .inl h
      · rcases ih h with h | ⟨other, hother, hc⟩
        · exact .inl h
        · exact .inr ⟨other, List.mem_cons_of_mem _ hother, hc⟩

/-- The run of characters of a class at the start of a text, and the text behind it. -/
theorem run_eq_iff {p : Char → Bool} {text run rest : List Char} :
    (text.takeWhile p = run ∧ text.dropWhile p = rest) ↔
      text = run ++ rest ∧ (∀ c ∈ run, p c = true) ∧ ∀ c ∈ rest.head?, p c = false := by
  constructor
  · rintro ⟨rfl, rfl⟩
    refine ⟨List.takeWhile_append_dropWhile.symm, List.all_eq_true.mp List.all_takeWhile, ?_⟩
    intro c hc
    have hnot := List.head?_dropWhile_not p text
    rw [Option.mem_def.mp hc] at hnot
    exact hnot
  · rintro ⟨rfl, hrun, hrest⟩
    rw [List.takeWhile_append_of_pos hrun, List.dropWhile_append_of_pos hrun]
    cases rest with
    | nil => simp
    | cons c rest => simp [hrest c rfl]

end ElmManifest.Text
