import ElmManifest.OsPath
import ElmManifest.Proofs.Path.Segments
import ElmManifest.Proofs.Text.ByteOrder

/-!
# Paths in bytes

The slash and the dot are ASCII characters, so no other character has their bytes in it.  A path
that is a text is therefore cut at its slashes in the same way before and after it has been spelled
in bytes, and names are joined to it in the same way.  A name that is joined to any other path is
one more step as well, whatever the bytes of the path are.

## Main Statements

* `split_utf8Bytes` — the bytes of a text are cut where the text is cut.
* `OsPath.steps_ofPath`, `OsPath.ofPath_join` — a path that is a text, in bytes.
* `OsPath.steps_join` — a name is one more step.
* `OsPath.parentName?_of_steps` — the name in front of the last step.
-/

namespace ElmManifest

/-! ## Bytes of a text -/

theorem utf8Bytes_append (a b : String) : utf8Bytes (a ++ b) = utf8Bytes a ++ utf8Bytes b := by
  simp [utf8Bytes_eq_flatMap, String.toList_append]

theorem utf8Bytes_inj {a b : String} : utf8Bytes a = utf8Bytes b ↔ a = b := by
  refine ⟨fun h => ?_, congrArg utf8Bytes⟩
  have hdecode := congrArg (fun bytes => Text.Utf8.decode? ⟨bytes.toArray⟩) h
  simpa only [OsPath.mk_utf8Bytes, Text.Utf8.decode?_toUTF8, Option.some.injEq] using hdecode

/-- The byte of a slash is in no other character. -/
theorem slash_mem_utf8EncodeChar {c : Char} :
    OsPath.slash ∈ String.utf8EncodeChar c ↔ c = '/' := by
  refine ⟨fun h => ?_, fun h => h ▸ by decide⟩
  have hbyte : ∀ {n : Nat}, n < 256 → (OsPath.slash = UInt8.ofNat n ↔ n = 47) := by
    intro n hn
    rw [← UInt8.toNat_inj, UInt8.toNat_ofNat_of_lt' hn]
    exact eq_comm
  apply Char.ext
  apply UInt32.toNat_inj.mp
  change c.val.toNat = 47
  unfold String.utf8EncodeChar at h
  generalize c.val.toNat = v at *
  -- Behind the ASCII characters, every byte has its first bit set.
  dsimp only at h
  split_ifs at h <;>
    simp (disch := omega) only [List.mem_cons, List.not_mem_nil, or_false, hbyte] at h <;> omega

theorem slash_mem_utf8Bytes {text : String} :
    OsPath.slash ∈ utf8Bytes text ↔ '/' ∈ text.toList := by
  simp [utf8Bytes_eq_flatMap, List.mem_flatMap, slash_mem_utf8EncodeChar]

/-- **The bytes of a text are cut where the text is cut.**  The byte of a slash is part of no other
character. -/
theorem split_utf8Bytes (text : String) : Text.split OsPath.slash (utf8Bytes text) =
    (Text.split '/' text.toList).map fun piece => utf8Bytes (String.ofList piece) := by
  have hslash : String.utf8EncodeChar '/' = [OsPath.slash] := rfl
  rw [utf8Bytes_eq_flatMap, Text.split_flatMap hslash fun _ => slash_mem_utf8EncodeChar.mp]
  simp [utf8Bytes_eq_flatMap]

namespace OsPath

/-! ## Paths that are texts -/

theorem split_ofPath (p : Path) :
    Text.split slash (ofPath p).bytes = p.segments.map utf8Bytes := by
  rw [ofPath, split_utf8Bytes, Path.segments, List.map_map]
  rfl

/-- **The steps of a path that is a text** are its segments that say something.  So what is said of
bytes can be said of texts, where they are texts. -/
theorem steps_ofPath (p : Path) :
    (ofPath p).steps = (Path.significant p.segments).map utf8Bytes := by
  rw [steps, split_ofPath, List.filter_map, Path.significant]
  congr 1
  apply List.filter_congr
  intro segment _
  have hempty : utf8Bytes segment = [] ↔ segment = "" := utf8Bytes_inj (b := "")
  simp [Path.isNoise, hempty, utf8Bytes_inj]
  rfl

/-- The first byte of a text is a slash if its first character is. -/
theorem head?_utf8Bytes (text : String) :
    (utf8Bytes text).head? = some slash ↔ text.toList.head? = some '/' := by
  rw [utf8Bytes_eq_flatMap]
  cases text.toList with
  | nil => simp
  | cons c rest =>
    rw [List.flatMap_cons, List.head?_append, List.head?_cons, Option.some_inj]
    constructor
    · intro h
      rw [Option.or_eq_some_iff, List.head?_eq_none_iff] at h
      rcases h with h | ⟨h, -⟩
      · exact slash_mem_utf8EncodeChar.mp (List.mem_of_mem_head? h)
      · exact absurd h (utf8EncodeChar_ne_nil c)
    · rintro rfl
      rfl

/-- The last byte of a text is a slash if its last character is. -/
theorem getLast?_utf8Bytes (text : String) :
    (utf8Bytes text).getLast? = some slash ↔ text.toList.getLast? = some '/' := by
  rw [utf8Bytes_eq_flatMap]
  rcases List.eq_nil_or_concat' text.toList with h | ⟨front, c, h⟩
  · simp [h]
  · rw [h, List.flatMap_append, List.flatMap_singleton, List.getLast?_append,
      List.getLast?_concat, Option.some_inj]
    constructor
    · intro h
      rw [Option.or_eq_some_iff, List.getLast?_eq_none_iff] at h
      rcases h with h | ⟨h, -⟩
      · exact slash_mem_utf8EncodeChar.mp (List.mem_of_mem_getLast? h)
      · exact absurd h (utf8EncodeChar_ne_nil c)
    · rintro rfl
      rfl

@[simp] theorem isRooted_ofPath (p : Path) : (ofPath p).isRooted = p.isRooted := by
  rw [Bool.eq_iff_iff, isRooted, Path.isRooted, beq_iff_eq, beq_iff_eq]
  exact head?_utf8Bytes p.text

/-- **A name is joined to a path that is a text** as it is joined to the text.  The first and the
last byte tell whether the text starts or ends with a slash. -/
theorem ofPath_join (p : Path) (name : String) : ofPath (p / name) = ofPath p / name := by
  change ofPath (p.join ⟨name⟩) = (ofPath p).join name
  have hempty : (ofPath p).bytes = [] ↔ p.text = "" := utf8Bytes_inj (b := "")
  have hroot : (utf8Bytes name).head? = some slash ↔ Path.isRooted ⟨name⟩ = true := by
    rw [head?_utf8Bytes, Path.isRooted, beq_iff_eq]
  have hlast : (ofPath p).bytes.getLast? = some slash ↔ p.text.toList.getLast? = some '/' :=
    getLast?_utf8Bytes p.text
  unfold join Path.join
  simp only [hempty, hroot, hlast]
  split_ifs
  · rfl
  · rw [ofPath, utf8Bytes_append]
    rfl
  · rw [ofPath, utf8Bytes_append, utf8Bytes_append, List.append_assoc]
    rfl

/-! ## Names behind any path -/

section Names

variable {name : String} (hname : Path.isEntryName name = true)
include hname

theorem head?_ne_slash_of_isEntryName : (utf8Bytes name).head? ≠ some slash := by
  intro h
  have hslash := slash_mem_utf8Bytes.mp (List.mem_of_mem_head? (Option.mem_def.mpr h))
  simp [Path.isEntryName, hslash] at hname

/-- Where a path starts does not depend on the name behind it. -/
theorem isRooted_join (p : OsPath) : (p / name).isRooted = p.isRooted := by
  change (p.join name).isRooted = p.isRooted
  have hhead := head?_ne_slash_of_isEntryName hname
  unfold join
  rw [if_neg hhead]
  cases hp : p.bytes with
  | nil => simp [isRooted, hp, hhead]
  | cons byte rest => split <;> simp [isRooted, hp]

/-- **A name is one more step.**  This needs the name to be that of an entry. -/
theorem steps_join (p : OsPath) : (p / name).steps = p.steps ++ [utf8Bytes name] := by
  change (p.join name).steps = p.steps ++ [utf8Bytes name]
  have hslash : slash ∉ utf8Bytes name := by
    rw [slash_mem_utf8Bytes]
    intro hslash
    simp [Path.isEntryName, hslash] at hname
  have hstep : utf8Bytes name ≠ [] ∧ utf8Bytes name ≠ utf8Bytes "." := by
    have hempty : utf8Bytes name = [] ↔ name = "" := utf8Bytes_inj (b := "")
    rw [ne_eq, ne_eq, hempty, utf8Bytes_inj]
    constructor <;> rintro rfl <;> exact absurd hname (by decide)
  have hkeep : ∀ pieces : List (List UInt8),
      (pieces ++ [utf8Bytes name]).filter (fun step => step ≠ [] ∧ step ≠ utf8Bytes ".") =
        pieces.filter (fun step => step ≠ [] ∧ step ≠ utf8Bytes ".") ++ [utf8Bytes name] := by
    intro pieces
    rw [List.filter_append, List.filter_cons_of_pos (by simpa using hstep), List.filter_nil]
  unfold join
  rw [if_neg (head?_ne_slash_of_isEntryName hname)]
  split
  next hend =>
    rcases hend with hempty | hlast
    · simp only [steps, hempty, List.nil_append, Text.split_of_notMem hslash]
      exact hkeep []
    · -- The empty piece at the end of the path has said nothing.
      obtain ⟨front, hfront⟩ := List.getLast?_eq_some_iff.mp hlast
      simp only [steps, hfront, List.append_assoc, List.singleton_append, Text.split_append_sep,
        Text.split_of_notMem hslash, hkeep]
      simp [Text.split]
  next => simp only [steps, Text.split_append_sep, Text.split_of_notMem hslash, hkeep]

end Names

/-- The name in front of the last step is the name of the parent. -/
theorem parentName?_of_steps {p : OsPath} {front : List (List UInt8)} {name : String}
    {last : List UInt8} (h : p.steps = front ++ [utf8Bytes name, last]) (hname : name ≠ "..") :
    p.parentName? = some name := by
  unfold parentName?
  rw [h, List.reverse_append]
  simp only [List.reverse_cons, List.reverse_nil, List.nil_append, List.cons_append]
  rw [if_neg (by rwa [utf8Bytes_inj]), mk_utf8Bytes, Text.Utf8.decode?_toUTF8]

/-- There is something to read in a path that is not empty. -/
theorem lossy_ne_empty {p : OsPath} (h : p.bytes ≠ []) : p.lossy ≠ "" := by
  unfold lossy Text.Utf8.lossy
  split
  next text htext =>
    rintro rfl
    have hempty := congrArg (·.data.toList) (Text.Utf8.eq_of_decode? htext)
    exact h (by simpa using hempty)
  next =>
    obtain ⟨count, hcount⟩ : ∃ count, p.bytes.length = count + 1 :=
      Nat.exists_eq_succ_of_ne_zero (by simpa using h)
    have hsize : (ByteArray.mk p.bytes.toArray).size = count + 1 := hcount
    rw [hsize, Text.Utf8.lossyFrom, if_neg (by omega)]
    split <;> simp

end OsPath

end ElmManifest
