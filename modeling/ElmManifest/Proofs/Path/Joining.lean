import ElmManifest.Path

/-!
# Joined paths

What a path means that is put together from a directory and a path seen from there.  Spellings are
joined as they are, so the directory may end in a slash or not and may be empty; the steps of the
joined path are those of the directory and then those of the other path all the same.

## Main Definitions

* `Path.StandsAt` — the segments of a path, but for an empty one at its end.

## Main Statements

* `Path.segments_join` — the segments of the second path come last.
* `Path.components_join` — the steps of the directory, and then those of the second path.
* `Path.components_join_name` — a name is one more step.
* `Path.fileName?_of_segments` — a path ends in its last segment, if that is a name.
-/

namespace ElmManifest.Path

variable {p q : Path}

/-- A path that is not rooted is joined by writing it behind the directory. -/
theorem exists_text_join (p : Path) (hq : q.isRooted = false) :
    ∃ rest, (p.join q).text = p.text ++ rest := by
  unfold join
  rw [if_neg (by simp [hq])]
  split
  · exact ⟨q.text, rfl⟩
  · exact ⟨"/" ++ q.text, String.append_assoc ..⟩

/-- A path that is not rooted takes its length and a slash. -/
theorem utf8ByteSize_join_le (p : Path) (hq : q.isRooted = false) :
    (p.join q).text.utf8ByteSize ≤ p.text.utf8ByteSize + q.text.utf8ByteSize + 1 := by
  have hslash : "/".utf8ByteSize = 1 := rfl
  unfold join
  rw [if_neg (by simp [hq])]
  split <;> simp only [String.utf8ByteSize_append, hslash] <;> omega

/-- The segments are those of the path, but for an empty one at its end. -/
def StandsAt (p : Path) (front : List String) : Prop :=
  p.segments = front ∧ front.getLast? ≠ some "" ∨ p.segments = front ++ [""]

theorem StandsAt.unique {front front' : List String} (h : p.StandsAt front)
    (h' : p.StandsAt front') : front = front' := by
  rcases h with ⟨h, hlast⟩ | h <;> rcases h' with ⟨h', hlast'⟩ | h' <;> rw [h] at h'
  · exact h'
  · exact absurd (by simp [h']) hlast
  · exact absurd (by simp [← h']) hlast'
  · exact List.append_cancel_right h'

/-- A path that ends in an empty segment is empty or ends in a slash. -/
theorem text_of_segments {front : List String} (h : p.segments = front ++ [""]) :
    p.text = "" ∨ p.text.toList.getLast? = some '/' := by
  cases front with
  | nil => exact .inl (by rw [← ofSegments_segments p, h]; rfl)
  | cons first rest =>
    refine .inr ?_
    rw [toList_text_eq_join, h, List.map_append, List.map_singleton, String.toList_empty,
      Text.join_append_nil '/' (by simp), List.getLast?_concat]

/-- The segments of the second path come last, behind those of the directory; an empty one at the
end of the directory is left out. -/
theorem segments_join (p : Path) (hq : q.isRooted = false) :
    ∃ front, (p.join q).segments = front ++ q.segments ∧ p.StandsAt front := by
  unfold join
  rw [if_neg (by simp [hq])]
  split
  next hend =>
    rcases hend with hempty | hslash
    · exact ⟨[], by simp [segments, hempty], .inr (by simp [segments, hempty, Text.split])⟩
    · obtain ⟨before, hbefore⟩ := List.getLast?_eq_some_iff.mp hslash
      refine ⟨(Text.split '/' before).map String.ofList, ?_, .inr ?_⟩
      · simp [segments, String.toList_append, hbefore, Text.split_append_sep]
      · simp [segments, hbefore, Text.split_append_sep, Text.split]
  next hend =>
    refine ⟨p.segments, by simp [segments, String.toList_append, Text.split_append_sep],
      .inl ⟨rfl, fun hlast => hend ?_⟩⟩
    obtain ⟨front, hfront⟩ := List.getLast?_eq_some_iff.mp hlast
    exact text_of_segments hfront

/-- A segment comes behind what the path stands at. -/
theorem StandsAt.segments_join {front : List String} {segment : String} (h : p.StandsAt front)
    (hslash : '/' ∉ segment.toList) : (p / segment).segments = front ++ [segment] := by
  obtain ⟨front', hjoined, h'⟩ := Path.segments_join p (isRooted_of_notMem hslash)
  rw [h.unique h']
  have hname : segments ⟨segment⟩ = [segment] := by simp [segments, Text.split_of_notMem hslash]
  exact hname ▸ hjoined

/-- In an empty directory a path is seen as it is. -/
theorem join_of_text_eq_empty (hq : q.isRooted = false) (hempty : p.text = "") : p.join q = q := by
  unfold join
  rw [if_neg (by simp [hq]), if_pos (.inl hempty), hempty, String.empty_append]

/-- Where a joined path starts is where the directory starts. -/
theorem isRooted_join (p : Path) (hq : q.isRooted = false) : (p.join q).isRooted = p.isRooted := by
  by_cases hempty : p.text = ""
  · rw [join_of_text_eq_empty hq hempty, hq, isRooted, hempty]
    rfl
  · obtain ⟨rest, htext⟩ := exists_text_join p hq
    cases hp : p.text.toList with
    | nil => exact absurd (by simpa using hp) hempty
    | cons c cs => simp [isRooted, htext, String.toList_append, hp]

/-- The steps behind the start of a path whose first segment is known. -/
theorem filterMap_body {first : String} (rest tail : List String)
    (h : p.segments = first :: (rest ++ tail)) : p.body.filterMap component? =
      (if p.isRooted || p.startsHere then rest else first :: rest).filterMap component? ++
        tail.filterMap component? := by
  rw [body, h, ← List.filterMap_append]
  split <;> rfl

/-- **The steps of a joined path** are those of the directory, and then those of the second path.  A
dot in front of the second path is a step only where there is nothing in front of it.  The spelling
of the directory does not matter, nor whether it ends with a slash. -/
theorem components_join (p : Path) (hq : q.isRooted = false)
    (hhere : p.text = "" → q.startsHere = false) :
    (p.join q).components = p.components ++ q.segments.filterMap component? := by
  by_cases hempty : p.text = ""
  · have hnone : p.components = [] := by
      simp [components, body, isRooted, startsHere, segments, hempty, Text.split, component?,
        isName, isNoise]
    rw [join_of_text_eq_empty hq hempty, hnone, components, body, hq, hhere hempty]
    rfl
  obtain ⟨front, hjoined, hp⟩ := segments_join p hq
  cases front with
  | nil =>
    -- The directory would be spelled with nothing.
    have hsegments : p.segments = [""] := by
      rcases hp with ⟨hp, -⟩ | hp
      · exact absurd (List.map_eq_nil_iff.mp hp) (Text.split_ne_nil '/' _)
      · exact hp
    refine absurd ?_ hempty
    rw [← ofSegments_segments p, hsegments]
    rfl
  | cons first rest =>
    have hstart : (p.join q).startsHere = p.startsHere := by
      rw [startsHere, startsHere, hjoined]
      rcases hp with ⟨hp, -⟩ | hp <;> rw [hp] <;> rfl
    have hbody : p.body.filterMap component? =
        (if p.isRooted || p.startsHere then rest else first :: rest).filterMap component? := by
      rcases hp with ⟨hp, -⟩ | hp
      · rw [filterMap_body rest [] (by rw [hp, List.append_nil]), List.filterMap_nil,
          List.append_nil]
      -- The empty segment at the end of the directory is no step.
      · rw [filterMap_body rest [""] hp]
        exact List.append_nil _
    rw [components, components, filterMap_body rest _ hjoined, isRooted_join p hq, hstart, hbody,
      List.append_assoc]

theorem segments_name {name : String} (h : '/' ∉ name.toList) : segments ⟨name⟩ = [name] := by
  simp [segments, Text.split_of_notMem h]

/-- **A name is one more step.**  It is the last step, so `file_name` gives it back. -/
theorem components_join_name (p : Path) {name : String} (hslash : '/' ∉ name.toList)
    (hname : isName name = true) : (p / name).components = p.components ++ [.name name] := by
  have hdot : startsHere ⟨name⟩ = false := by
    rw [startsHere, segments_name hslash]
    rw [isName, isNoise] at hname
    simpa using fun h => by simp [h] at hname
  refine (components_join p (isRooted_of_notMem hslash) fun _ => hdot).trans ?_
  have hstep : component? name = some (.name name) := if_pos hname
  rw [segments_name hslash, List.filterMap_cons_some hstep]
  rfl

/-! ## Last names -/

/-- A path whose last segment is a name is not empty. -/
theorem text_ne_empty_of_isName {front : List String} {name : String}
    (h : p.segments = front ++ [name]) (hname : isName name = true) : p.text ≠ "" := by
  intro hempty
  have hone : p.segments = [""] := by simp [segments, hempty, Text.split]
  have hlast := congrArg List.getLast? (hone.symm.trans h)
  rw [List.getLast?_concat] at hlast
  cases hlast
  exact absurd hname (by decide)

theorem text_join_name_ne_empty (p : Path) {name : String} (hname : isEntryName name = true) :
    (p / name).text ≠ "" := by
  obtain ⟨hplain, hslash⟩ := isEntryName_iff.mp hname
  obtain ⟨front, hfront⟩ := p.segments_join_name hslash
  exact text_ne_empty_of_isName hfront hplain

/-- A path whose last segment is a name ends in that name. -/
theorem fileName?_of_segments {front : List String} {name : String}
    (h : p.segments = front ++ [name]) (hname : isName name = true) : p.fileName? = some name := by
  have hstep : component? name = some (.name name) := if_pos hname
  have hlast : p.components.getLast? = some (.name name) := by
    cases front with
    | nil =>
      -- A path of one segment has no lead if the segment is a name.
      have hpath : p = ⟨name⟩ := by
        rw [← ofSegments_segments p, h]
        simp [ofSegments, Text.join]
      have hslash : '/' ∉ name.toList := by
        have hmem : name ∈ p.segments := by simp [h]
        obtain ⟨piece, hpiece, rfl⟩ := List.mem_map.mp hmem
        rw [String.toList_ofList]
        exact Text.notMem_of_mem_split hpiece
      have hhere : p.startsHere = false := by
        rw [startsHere, h]
        rw [isName, isNoise] at hname
        simpa using fun he => by simp [he] at hname
      have hroot : p.isRooted = false := hpath ▸ isRooted_of_notMem hslash
      simp [components, body, hroot, hhere, h, hstep]
    | cons first rest =>
      rw [components, filterMap_body rest [name] h]
      simp [hstep]
  rw [fileName?, hlast]

/-- A path that a name is joined to ends in that name. -/
theorem fileName?_join_name (p : Path) {name : String} (hslash : '/' ∉ name.toList)
    (hname : isName name = true) : (p / name).fileName? = some name := by
  obtain ⟨front, hfront⟩ := p.segments_join_name hslash
  exact fileName?_of_segments hfront hname

end ElmManifest.Path
