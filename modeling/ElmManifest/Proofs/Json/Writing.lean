import ElmManifest.Json.Reader
import ElmManifest.Json.Writer
import ElmManifest.Proofs.Success
import Mathlib.Data.List.Forall2

/-!
# Reading what is written

Every text that is written for a value is read as that value, whatever stands behind it.

## Main Definitions

* `Json.Spells` — a text that is read as a value, up to a depth.

## Main Statements

* `Json.readText_flatMap_escape` — a string is read back, whatever characters are in it.
* `Json.spells_string`, `Json.spells_array`, `Json.spells_object` — the texts of values spell them.
* `Json.ofBytes_of_spells` — a text that spells a value is read as that value from its bytes.
-/

namespace ElmManifest.Json

/-! ## Strings -/

theorem readText_quote (rest : List Char) : readText ('\x22' :: rest) = .ok ([], rest) := by
  rw [readText.eq_def]
  rfl

/-- A character that needs no escape is read as it is. -/
theorem readText_plain {c : Char} (hquote : c ≠ '\x22') (hslash : c ≠ '\\')
    (hspace : ¬ c.toNat < 0x20) (rest : List Char) :
    readText (c :: rest) = prepend c (readText rest) := by
  rw [readText.eq_def]
  dsimp only
  rw [if_neg hquote, if_neg hslash, if_neg hspace]

/-- An escape with one letter is read as its character. -/
theorem readText_simpleEscape {e c : Char} (hunit : e ≠ 'u') (h : simpleEscape? e = some c)
    (rest : List Char) : readText ('\\' :: e :: rest) = prepend c (readText rest) := by
  rw [readText.eq_def]
  dsimp only
  rw [if_neg (by decide), if_pos rfl, if_neg hunit, h]

/-- An escape with four digits is read as the character with this number, if it is no half of a
pair. -/
theorem readText_unitEscape {d₁ d₂ d₃ d₄ : Char} {unit : Nat} (h : unit? d₁ d₂ d₃ d₄ = some unit)
    (hhigh : isHighSurrogate unit = false) (hlow : isLowSurrogate unit = false)
    (rest : List Char) : readText ('\\' :: 'u' :: d₁ :: d₂ :: d₃ :: d₄ :: rest) =
      prepend (Char.ofNat unit) (readText rest) := by
  rw [readText.eq_def]
  dsimp only
  rw [if_neg (by decide), if_pos rfl, if_pos rfl, h]
  dsimp only
  rw [hhigh, hlow]
  rfl

/-- A small number is read back from two zeros and two digits. -/
theorem unit?_digitChar {n : Nat} (h : n < 0x20) :
    unit? '0' '0' (Nat.digitChar (n / 16)) (Nat.digitChar (n % 16)) = some n := by
  have hall : ∀ n < 0x20,
      unit? '0' '0' (Nat.digitChar (n / 16)) (Nat.digitChar (n % 16)) = some n := by
    decide
  exact hall n h

/-- A character is read back from its escape. -/
theorem readText_escape (c : Char) (rest : List Char) :
    readText (escape c ++ rest) = prepend c (readText rest) := by
  unfold escape
  split
  next h =>
    apply readText_simpleEscape
    · rcases h with rfl | rfl <;> decide
    · rw [simpleEscape?, if_pos (by rcases h with rfl | rfl <;> simp)]
  next hplain =>
    simp only [not_or] at hplain
    -- The five escapes with a letter of their own.
    iterate 5
      split
      next h =>
        subst h
        exact readText_simpleEscape (by decide) rfl rest
    split
    next h =>
      have hhigh : isHighSurrogate c.toNat = false := by
        simp [isHighSurrogate]
        omega
      have hlow : isLowSurrogate c.toNat = false := by
        simp [isLowSurrogate]
        omega
      have hread := readText_unitEscape (unit?_digitChar h) hhigh hlow rest
      rwa [Char.ofNat_toNat] at hread
    next h => exact readText_plain hplain.1 hplain.2 h rest

/-- **A string is read back**, whatever characters are in it.  The induction is on the characters,
and one lemma says of each what its escape is read as. -/
theorem readText_flatMap_escape (text rest : List Char) :
    readText (text.flatMap escape ++ '\x22' :: rest) = .ok (text, rest) := by
  induction text with
  | nil => rw [List.flatMap_nil, List.nil_append, readText_quote]
  | cons c text ih =>
    rw [List.flatMap_cons, List.append_assoc, readText_escape, ih]
    rfl

/-! ## Containers -/

section Containers

variable {α ε : Type}

/-- The text is read as the value, whatever stands behind it. -/
def ReadAs (read : List Char → Except ε (α × List Char)) (text : List Char) (a : α) : Prop :=
  ∀ rest, read (text ++ rest) = .ok (a, rest)

/-- The text starts with something that is no space and does not close the container. -/
def StartsItem (close : Char) (text : List Char) : Prop :=
  ∃ c rest, text = c :: rest ∧ isSpace c = false ∧ c ≠ close

theorem skipSpace_cons {c : Char} (h : isSpace c = false) (rest : List Char) :
    skipSpace (c :: rest) = c :: rest :=
  List.dropWhile_cons_of_neg (by simp [h])

variable {refuse : SyntaxFault → ε} {close : Char} {item : List Char → Except ε (α × List Char)}

/-- Items with commas between them are read one after the other, if there are as many turns. -/
theorem readMore_join (hspace : isSpace close = false) (hcomma : close ≠ ',')
    {texts : List (List Char)} {values : List α} (h : List.Forall₂ (ReadAs item) texts values)
    (hne : texts ≠ []) {count : Nat} (hcount : texts.length ≤ count) (rest : List Char) :
    readMore refuse close item count (Text.join ',' texts ++ close :: rest) =
      .ok (values, rest) := by
  induction h generalizing count with
  | nil => exact absurd rfl hne
  | @cons text value texts values hfirst hothers ih =>
    cases count with
    | zero => simp at hcount
    | succ count =>
      by_cases hlast : texts = []
      · subst hlast
        cases hothers
        rw [Text.join, readMore, hfirst]
        simp [skipSpace_cons hspace, hcomma]
      · have hothers := ih hlast (Nat.le_of_succ_le_succ hcount)
        rw [Text.join_cons hlast, List.append_assoc, readMore, hfirst]
        simp [skipSpace_cons (c := ',') rfl, hothers]

/-- The inside of a container is read as its items. -/
theorem readItems_join (hspace : isSpace close = false) (hcomma : close ≠ ',')
    {texts : List (List Char)} {values : List α}
    (h : List.Forall₂ (fun text a => StartsItem close text ∧ ReadAs item text a) texts values)
    (rest : List Char) :
    readItems refuse close item (Text.join ',' texts ++ close :: rest) = .ok (values, rest) := by
  unfold readItems
  cases h with
  | nil =>
    rw [Text.join, List.nil_append, skipSpace_cons hspace]
    exact if_pos rfl
  | @cons text value texts values hfirst hothers =>
    have hread : ∀ count, (text :: texts).length ≤ count →
        readMore refuse close item count (Text.join ',' (text :: texts) ++ close :: rest) =
          .ok (value :: values, rest) := fun count hcount =>
      readMore_join hspace hcomma (.cons hfirst.2 (hothers.imp fun _ _ h => h.2)) (by simp) hcount
        rest
    have hcount := Text.length_le_length_join ',' (text :: texts)
    obtain ⟨c, tail, hc, hnospace, hclose⟩ := hfirst.1
    obtain ⟨more, hjoin⟩ : ∃ more, Text.join ',' (text :: texts) = c :: more := by
      cases texts with
      | nil => exact ⟨tail, hc⟩
      | cons next texts => exact ⟨_, by rw [Text.join_cons (by simp), hc, List.cons_append]⟩
    rw [hjoin] at hread hcount ⊢
    rw [List.cons_append, skipSpace_cons hnospace]
    dsimp only
    rw [if_neg hclose]
    apply hread
    simp only [List.length_cons, List.length_append] at hcount ⊢
    omega

end Containers

/-! ## Values -/

/-- The text is read as the value, up to the depth, and starts like an item. -/
structure Spells (depth : Nat) (text : List Char) (value : Json) : Prop where
  /-- It starts with something that is no space and closes no array. -/
  starts : StartsItem ']' text
  /-- It is read as the value. -/
  reads : ReadAs (readValue depth) text value

theorem readLayer_string (inner : Option (List Char → Except SyntaxFault (Json × List Char)))
    (s : String) : ReadAs (readLayer inner) (stringText s) (.string s) := by
  intro rest
  have htext := readText_flatMap_escape s.toList rest
  rw [stringText, List.cons_append, List.append_assoc, readLayer, skipSpace_cons rfl]
  simp [htext]

theorem spells_string (depth : Nat) (s : String) : Spells depth (stringText s) (.string s) := by
  refine ⟨⟨_, _, rfl, rfl, by decide⟩, ?_⟩
  cases depth with
  | zero => exact readLayer_string _ s
  | succ depth => exact readLayer_string _ s

theorem readLayer_null (inner : Option (List Char → Except SyntaxFault (Json × List Char))) :
    ReadAs (readLayer inner) nullText .null := by
  intro rest
  rfl

theorem spells_null (depth : Nat) : Spells depth nullText .null := by
  refine ⟨⟨_, _, rfl, rfl, by decide⟩, ?_⟩
  cases depth with
  | zero => exact readLayer_null _
  | succ depth => exact readLayer_null _

/-- An array is spelled by the array of what spells its items. -/
theorem spells_array {depth : Nat} {texts : List (List Char)} {items : List Json}
    (h : List.Forall₂ (Spells depth) texts items) :
    Spells (depth + 1) (arrayText texts) (.array items) := by
  refine ⟨⟨_, _, rfl, rfl, by decide⟩, fun rest => ?_⟩
  have hitems : readItems id ']' (readValue depth) (Text.join ',' texts ++ ']' :: rest) =
      .ok (items, rest) :=
    readItems_join rfl (by decide) (h.imp fun _ _ hs => ⟨hs.starts, hs.reads⟩) rest
  rw [readValue, readLayer, arrayText, List.cons_append, skipSpace_cons rfl, List.append_assoc]
  simp [hitems]

/-- An entry is spelled by its key with what spells its value. -/
theorem readAs_entryText {depth : Nat} {text : String × List Char} {entry : String × Json}
    (hkey : text.1 = entry.1) (hvalue : Spells depth text.2 entry.2) :
    ReadAs (readEntry id (readValue depth)) (entryText text) entry := by
  intro rest
  have hread : readKey (entryText text ++ rest) = .ok (entry.1, text.2 ++ rest) := by
    have htext := readText_flatMap_escape entry.1.toList (':' :: (text.2 ++ rest))
    rw [readKey, entryText, stringText, hkey, List.cons_append, List.cons_append,
      skipSpace_cons rfl]
    simp [htext, skipSpace_cons (c := ':') rfl]
  rw [readEntry, hread]
  simp [hvalue.reads rest]

/-- An object is spelled by the object of what spells the values of its entries. -/
theorem spells_object {depth : Nat} {texts : List (String × List Char)}
    {entries : List (String × Json)}
    (h : List.Forall₂ (fun text entry => text.1 = entry.1 ∧ Spells depth text.2 entry.2) texts
      entries) : Spells (depth + 1) (objectText texts) (.object entries) := by
  refine ⟨⟨_, _, rfl, rfl, by decide⟩, fun rest => ?_⟩
  have hentries : readItems id '\x7d' (readEntry id (readValue depth))
      (Text.join ',' (texts.map entryText) ++ '\x7d' :: rest) = .ok (entries, rest) := by
    apply readItems_join rfl (by decide)
    rw [List.forall₂_map_left_iff]
    exact h.imp fun _ _ hs =>
      ⟨⟨_, _, rfl, rfl, by decide⟩, readAs_entryText hs.1 hs.2⟩
  rw [readValue, readLayer, objectText, List.cons_append, skipSpace_cons rfl, List.append_assoc]
  simp [hentries]

/-- **A text that spells a value is read as it**, from the bytes of the text.  The bytes are those
of a text, so nothing in them is replaced. -/
theorem ofBytes_of_spells {text : List Char} {value : Json} (h : Spells maxDepth text value) :
    ofBytes (String.ofList text).toUTF8 = .ok value := by
  have hread := h.reads []
  rw [List.append_nil] at hread
  rw [ofBytes, Text.Utf8.chars_toUTF8, String.toList_ofList, read, hread]
  rfl

theorem ofBytes_objectText {texts : List (String × List Char)} {entries : List (String × Json)}
    (h : List.Forall₂ (fun text entry => text.1 = entry.1 ∧ Spells (maxDepth - 1) text.2 entry.2)
      texts entries) :
    ofBytes (String.ofList (objectText texts)).toUTF8 = .ok (.object entries) := by
  have hspells : Spells (maxDepth - 1 + 1) (objectText texts) (.object entries) := spells_object h
  exact ofBytes_of_spells hspells

end ElmManifest.Json
