import ElmManifest.Proofs.Path.Joining
import ElmManifest.Proofs.Path.Segments
import Mathlib.Data.List.Basic

/-!
# The spelling of a walk

A listing builds the paths that it returns.  It starts at the root or at the first segment behind
the dots in front, and joins one segment after the other to the path it has.  So an empty segment
leaves no trace, but a dot inside the path does.  The spelling of the walk has the segments of the
path, but for some that say nothing.

## Main Definitions

* `Path.joinAll` — segments joined to a path one after the other.
* `Path.walked?` — the spelling by which a walk comes to a path.

## Main Statements

* `Path.StandsAt.segments_joinAll` — segments that are joined one after the other.
* `Path.segments_of_walked?` — how the spelling of the walk differs from that of the path.
-/

namespace ElmManifest.Path

variable {p q : Path} {front segments : List String} {segment last : String}

/-! ## Joining segments -/

/-- The path with segments joined to it one after the other. -/
def joinAll : Path → List String → Path
  | p, [] => p
  | p, segment :: rest => (p / segment).joinAll rest

theorem joinAll_concat (p : Path) (segments : List String) (segment : String) :
    p.joinAll (segments ++ [segment]) = p.joinAll segments / segment := by
  induction segments generalizing p with
  | nil => rfl
  | cons first rest ih => exact ih (p / first)

/-- An empty segment is not stood at, and any other one is. -/
theorem StandsAt.join (h : p.StandsAt front) (hslash : '/' ∉ segment.toList) :
    (p / segment).StandsAt (front ++ [segment].filter (· != "")) := by
  have hjoined := h.segments_join hslash
  by_cases hempty : segment = ""
  · subst hempty
    exact .inr (by simpa using hjoined)
  · refine .inl ?_
    rw [hjoined]
    simp [hempty]

theorem StandsAt.joinAll (h : p.StandsAt front)
    (hslash : ∀ segment ∈ segments, '/' ∉ segment.toList) :
    (p.joinAll segments).StandsAt (front ++ segments.filter (· != "")) := by
  induction segments generalizing p front with
  | nil => simpa [Path.joinAll] using h
  | cons segment rest ih =>
    have hrest := ih (h.join (hslash segment (by simp))) fun s hs => hslash s (by simp [hs])
    rw [List.append_assoc, ← List.filter_append, List.singleton_append] at hrest
    exact hrest

/-- **Segments that are joined one after the other** come behind what the path stands at, without
the empty ones. -/
theorem StandsAt.segments_joinAll (h : p.StandsAt front)
    (hslash : ∀ segment ∈ segments ++ [last], '/' ∉ segment.toList) :
    (p.joinAll (segments ++ [last])).segments = front ++ segments.filter (· != "") ++ [last] := by
  rw [joinAll_concat]
  exact (h.joinAll fun s hs => hslash s (by simp [hs])).segments_join (hslash last (by simp))

theorem isRooted_joinAll (hslash : ∀ segment ∈ segments, '/' ∉ segment.toList) :
    (p.joinAll segments).isRooted = p.isRooted := by
  induction segments generalizing p with
  | nil => rfl
  | cons segment rest ih =>
    rw [joinAll, ih fun s hs => hslash s (List.mem_cons_of_mem _ hs)]
    exact isRooted_join p (isRooted_of_notMem (hslash segment (List.mem_cons_self ..)))

/-! ## Walks -/

/-- The spelling by which a walk comes to a path.  There is none if an empty segment is right behind
the dots in front: from the working directory, the walk goes by names alone, and nothing has the
empty name there.  It is `Cache.versions` that has to do with such paths, since the home directory
is spelled by whoever configures it. -/
def walked? (p : Path) : Option Path :=
  if p.isRooted then some (joinAll ⟨"/"⟩ (p.segments.drop 1))
  else
    match p.segments.dropWhile (· == ".") with
    | [] => some ⟨"."⟩
    | first :: rest => if first = "" then none else some (joinAll ⟨first⟩ rest)

/-- Dropping the dots in front keeps a name at the end. -/
theorem dropWhile_dot_append (hlast : isName last = true) (pieces : List String) :
    (pieces ++ [last]).dropWhile (· == ".") = pieces.dropWhile (· == ".") ++ [last] := by
  have hdot : last ≠ "." := by
    rintro rfl
    exact absurd hlast (by decide)
  rw [List.dropWhile_append, List.dropWhile_cons_of_neg (by simpa using hdot)]
  split
  next hnil => rw [List.isEmpty_iff.mp hnil, List.nil_append]
  next => rfl

/-- **The spelling of the walk** is that of the path without segments that say nothing, and starts
at the root if the path does. -/
theorem segments_of_walked? (hp : p.segments = front ++ [last]) (hfront : front ≠ [])
    (hlast : isName last = true) (h : p.walked? = some q) :
    ∃ front', q.segments = front' ++ [last] ∧ significant front' = significant front ∧
      q.isRooted = p.isRooted ∧ front'.Sublist front := by
  have hslash : ∀ segment ∈ front ++ [last], '/' ∉ segment.toList :=
    fun segment hs => slash_notMem_of_mem_segments (hp ▸ hs)
  unfold walked? at h
  split at h
  next hrooted =>
    cases h
    obtain ⟨rest, rfl⟩ : ∃ rest, front = "" :: rest := by
      cases front with
      | nil => exact absurd rfl hfront
      | cons first rest =>
        have hroot := (isRooted_iff_of_segments hp hfront (List.cons_ne_nil last [])).mp hrooted
        exact ⟨rest, by simpa using hroot⟩
    -- The walk starts at the root, so the first empty segment stays and the others are lost.
    have hstart : StandsAt ⟨"/"⟩ [""] := .inr (by decide)
    refine ⟨"" :: rest.filter (· != ""), ?_, ?_, ?_, List.filter_sublist.cons_cons _⟩
    · rw [hp, List.cons_append, List.drop_one, List.tail_cons,
        hstart.segments_joinAll fun s hs => hslash s (List.mem_cons_of_mem _ hs)]
      rfl
    · rw [significant_cons_of_noise rfl, significant_cons_of_noise rfl, significant_filter_ne_empty]
    · rw [hrooted, isRooted_joinAll]
      · rfl
      · rw [hp]
        exact fun s hs => hslash s (List.mem_of_mem_drop hs)
  next hrooted =>
    -- The walk starts behind the dots in front, none of which is the last segment.
    rw [hp, dropWhile_dot_append hlast] at h
    have hkept : ∀ segment ∈ front.dropWhile (· == ".") ++ [last], '/' ∉ segment.toList := by
      rw [← dropWhile_dot_append hlast]
      exact fun segment hs => hslash segment (List.dropWhile_subset _ hs)
    obtain ⟨first, rest, hcons, hempty, rfl⟩ : ∃ first rest,
        front.dropWhile (· == ".") ++ [last] = first :: rest ∧ first ≠ "" ∧
          joinAll ⟨first⟩ rest = q := by
      obtain ⟨first, rest, hcons⟩ := List.exists_cons_of_ne_nil
        (List.append_ne_nil_of_right_ne_nil (front.dropWhile (· == ".")) (List.cons_ne_nil last []))
      rw [hcons] at h
      change (if first = "" then none else some (joinAll ⟨first⟩ rest)) = some q at h
      split at h
      next => cases h
      next hempty => exact ⟨first, rest, hcons, hempty, Option.some.inj h⟩
    rw [hcons] at hkept
    have hfirst := hkept first (List.mem_cons_self ..)
    refine ⟨(front.dropWhile (· == ".")).filter (· != ""), ?_, ?_, ?_,
      List.filter_sublist.trans (List.dropWhile_sublist _)⟩
    -- If nothing but dots is in front, the walk consists of the last segment alone.
    · cases hdropped : front.dropWhile (· == ".") with
      | nil =>
        rw [hdropped] at hcons
        cases hcons
        exact segments_name hfirst
      | cons first' rest' =>
        rw [hdropped, List.cons_append] at hcons
        cases hcons
        have hstart : StandsAt ⟨first⟩ [first] := .inl ⟨segments_name hfirst, by simpa using hempty⟩
        rw [hstart.segments_joinAll fun s hs => hkept s (List.mem_cons_of_mem _ hs),
          List.filter_cons_of_pos (by simpa using hempty)]
        rfl
    · rw [significant_filter_ne_empty, significant_dropWhile_dot]
    · rw [isRooted_joinAll fun s hs => hkept s (List.mem_cons_of_mem _ hs),
        isRooted_of_notMem hfirst, Bool.eq_false_iff.mpr hrooted]

end ElmManifest.Path
