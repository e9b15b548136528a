import ElmManifest.Path

/-!
# Segments of a path

A path and its segments tell each other apart: the segments are the pieces between the slashes, so
no segment holds a slash, and every other character of the path stands in one of them.

## Main Definitions

* `Path.significant` — the segments that say something.

## Main Statements

* `Path.slash_notMem_of_mem_segments` — no segment holds a slash.
* `Path.isRooted_iff_of_segments` — which segments a path at the root starts with.
* `Path.significant_filter_ne_empty`, `Path.significant_dropWhile_dot` — empty segments and dots in
  front say nothing.
-/

namespace ElmManifest.Path

/-- A character of a segment is a character of the path. -/
theorem mem_text_of_mem_segments {p : Path} {segment : String} {c : Char}
    (hs : segment ∈ p.segments) (hc : c ∈ segment.toList) : c ∈ p.text.toList := by
  rw [toList_text_eq_join]
  exact Text.mem_join_of_mem (List.mem_map_of_mem hs) hc

/-- A character of the path, other than a slash, is a character of a segment. -/
theorem exists_segment_of_mem_text {p : Path} {c : Char} (hc : c ∈ p.text.toList) (hne : c ≠ '/') :
    ∃ segment ∈ p.segments, c ∈ segment.toList := by
  rw [toList_text_eq_join] at hc
  rcases Text.mem_join hc with h | ⟨piece, hpiece, h⟩
  · exact absurd h hne
  · obtain ⟨segment, hs, rfl⟩ := List.mem_map.mp hpiece
    exact ⟨segment, hs, h⟩

theorem slash_notMem_of_mem_segments {p : Path} {segment : String} (h : segment ∈ p.segments) :
    '/' ∉ segment.toList := by
  obtain ⟨piece, hpiece, rfl⟩ := List.mem_map.mp h
  rw [String.toList_ofList]
  exact Text.notMem_of_mem_split hpiece

/-- A path of several segments starts at the root exactly if the first one is empty. -/
theorem isRooted_iff_of_segments {p : Path} {front back : List String}
    (h : p.segments = front ++ back) (hfront : front ≠ []) (hback : back ≠ []) :
    p.isRooted = true ↔ front.head? = some "" := by
  cases front with
  | nil => exact absurd rfl hfront
  | cons first rest =>
    have hslash : '/' ∉ first.toList := by
      apply slash_notMem_of_mem_segments (p := p)
      rw [h]
      exact List.mem_cons_self ..
    have htext : p.text.toList =
        first.toList ++ '/' :: Text.join '/' ((rest ++ back).map String.toList) := by
      rw [toList_text_eq_join, h, List.cons_append, List.map_cons,
        Text.join_cons (by simp [hback])]
    unfold isRooted
    rw [htext, List.head?_cons, Option.some_inj, beq_iff_eq]
    cases hfirst : first.toList with
    | nil => simpa using hfirst
    | cons c cs =>
      have hc : c ≠ '/' := fun hc => hslash (by rw [hfirst, hc]; exact List.mem_cons_self ..)
      have hne : first ≠ "" := fun he => by simp [he] at hfirst
      simp [hc, hne]

/-! ## Segments that say something -/

/-- The segments that say something. -/
def significant (pieces : List String) : List String :=
  pieces.filter fun piece => !isNoise piece

theorem significant_cons_of_noise {piece : String} {pieces : List String}
    (h : isNoise piece = true) : significant (piece :: pieces) = significant pieces :=
  List.filter_cons_of_neg (by simp [h])

theorem significant_append (front back : List String) :
    significant (front ++ back) = significant front ++ significant back :=
  List.filter_append ..

/-- Leaving out empty segments leaves out nothing that says something. -/
theorem significant_filter_ne_empty (pieces : List String) :
    significant (pieces.filter (· != "")) = significant pieces := by
  unfold significant
  rw [List.filter_filter]
  apply List.filter_congr
  intro piece _
  by_cases h : piece = "" <;> simp [isNoise, h]

/-- Leaving out the dots in front of a path leaves out no segment that says something. -/
theorem significant_dropWhile_dot (pieces : List String) :
    significant (pieces.dropWhile (· == ".")) = significant pieces := by
  induction pieces with
  | nil => rfl
  | cons piece rest ih =>
    by_cases h : piece = "."
    · rw [List.dropWhile_cons_of_pos (by simpa using h), ih,
        significant_cons_of_noise (by simp [isNoise, h])]
    · rw [List.dropWhile_cons_of_neg (by simpa using h)]

end ElmManifest.Path
