import ElmManifest.Json.Skipping
import ElmManifest.Proofs.Success
import Mathlib.Data.List.TakeWhile

/-!
# Following the reader of values

Where a text has been read as JSON, other readers go over it more easily.  A reader *follows* the
full one if it leaves the same text behind wherever that one reads a value, with what it sees of the
value, or refuses the value for what it is.  The readers of containers keep this, so it is enough to
look at scalars.  What follows the full reader of values can find no text broken that has been read
before.

## Main Definitions

* `Json.Reading` — the ways in which a value is read.
* `Json.Follows` — a reader that follows the full one.

## Main Statements

* `Json.reading_of_readLayer`, `Json.readLayer_of_reading` — a value is read exactly in one of these
  ways.
* `Json.readMore_cases`, `Json.readKey_cases` — what has been read as items and as a key.
* `Json.Follows.readItems`, `Json.Follows.readEntry` — containers of what follows.
* `Json.follows_skipValue` — skipping a value follows reading it, where nesting is not more limited.
-/

namespace ElmManifest

namespace Json

/-- The reader of the parts of a value, if there is room for any. -/
abbrev Inner := Option (List Char → Except SyntaxFault (Json × List Char))

/-! ## How values are read -/

/-- The ways in which a value whose parts are read by `inner` is read from a text without space in
front.  There is one constructor for each kind of value. -/
inductive Reading : Inner → List Char → Json → List Char → Prop where
  | string {inner : Inner} {text content rest : List Char}
      (h : readText text = .ok (content, rest)) :
      Reading inner ('\x22' :: text) (.string (String.ofList content)) rest
  | array {read : List Char → Except SyntaxFault (Json × List Char)} {text rest : List Char}
      {items : List Json} (h : readItems id ']' read text = .ok (items, rest)) :
      Reading (some read) ('[' :: text) (.array items) rest
  | object {read : List Char → Except SyntaxFault (Json × List Char)} {text rest : List Char}
      {entries : List (String × Json)}
      (h : readItems id '\x7d' (readEntry id read) text = .ok (entries, rest)) :
      Reading (some read) ('\x7b' :: text) (.object entries) rest
  | number {inner : Inner} {c : Char} {text rest : List Char} {n : JsonNumber}
      (hc : c = '-' ∨ c.isDigit = true) (h : readNumber (c :: text) = .ok (n, rest)) :
      Reading inner (c :: text) (.number n) rest
  | null {inner : Inner} {text rest : List Char}
      (h : readLiteral "ull".toList text = .ok rest) : Reading inner ('n' :: text) .null rest
  | true {inner : Inner} {text rest : List Char}
      (h : readLiteral "rue".toList text = .ok rest) : Reading inner ('t' :: text) (.bool true) rest
  | false {inner : Inner} {text rest : List Char}
      (h : readLiteral "alse".toList text = .ok rest) :
      Reading inner ('f' :: text) (.bool false) rest

theorem reading_of_readKeyword {inner : Inner} {text rest : List Char} {value : Json}
    (h : readKeyword text = .ok (value, rest)) : Reading inner text value rest := by
  unfold readKeyword at h
  split at h
  all_goals first
    | cases h
    | obtain ⟨_, hliteral, h⟩ := Except.bind_eq_ok_iff.mp h
      cases h
  · exact .null hliteral
  · exact .true hliteral
  · exact .false hliteral

/-- A value that has been read has been read in one of these ways. -/
theorem reading_of_readLayer {inner : Inner} {text rest : List Char} {value : Json}
    (h : readLayer inner text = .ok (value, rest)) :
    Reading inner (skipSpace text) value rest := by
  unfold readLayer at h
  cases htext : skipSpace text with
  | nil =>
    rw [htext] at h
    cases h
  | cons c tail =>
    rw [htext] at h
    dsimp only at h
    -- The reader decides by the first character, one constructor after the other.
    split at h
    next hc =>
      obtain ⟨⟨content, _⟩, hcontent, h⟩ := Except.bind_eq_ok_iff.mp h
      cases h
      rw [hc]
      exact .string hcontent
    split at h
    next hc =>
      cases inner with
      | none => cases h
      | some read =>
        obtain ⟨⟨items, _⟩, hitems, h⟩ := Except.bind_eq_ok_iff.mp h
        cases h
        rw [hc]
        exact .array hitems
    split at h
    next hc =>
      cases inner with
      | none => cases h
      | some read =>
        obtain ⟨⟨entries, _⟩, hentries, h⟩ := Except.bind_eq_ok_iff.mp h
        cases h
        rw [hc]
        exact .object hentries
    split at h
    next hc =>
      obtain ⟨⟨n, _⟩, hn, h⟩ := Except.bind_eq_ok_iff.mp h
      cases h
      exact .number hc hn
    next => exact reading_of_readKeyword h

@[simp]
theorem skipSpace_skipSpace (text : List Char) : skipSpace (skipSpace text) = skipSpace text :=
  List.dropWhile_eq_self_iff.mpr (List.dropWhile_get_zero_not _ text)

theorem ne_of_startsNumber {c : Char} (h : c = '-' ∨ c.isDigit = true) :
    c ≠ '\x22' ∧ c ≠ '[' ∧ c ≠ '\x7b' ∧ c ≠ 'n' := by
  refine ⟨?_, ?_, ?_, ?_⟩
  all_goals
    rintro rfl
    revert h
    decide

/-- What can be read in one of these ways is read. -/
theorem readLayer_of_reading {inner : Inner} {text rest : List Char} {value : Json}
    (h : Reading inner (skipSpace text) value rest) : readLayer inner text = .ok (value, rest) := by
  unfold readLayer
  generalize skipSpace text = start at h ⊢
  cases h with
  | string hcontent =>
    show (readText _ >>= _) = _
    rw [hcontent]
    rfl
  | array hitems =>
    show (readItems _ _ _ _ >>= _) = _
    rw [hitems]
    rfl
  | object hentries =>
    show (readItems _ _ _ _ >>= _) = _
    rw [hentries]
    rfl
  | number hc hn =>
    obtain ⟨hquote, hbracket, hbrace, -⟩ := ne_of_startsNumber hc
    dsimp only
    rw [if_neg hquote, if_neg hbracket, if_neg hbrace, if_pos hc, hn]
    rfl
  | null hliteral =>
    show readKeyword ('n' :: _) = _
    rw [readKeyword, hliteral]
    rfl
  | true hliteral =>
    show readKeyword ('t' :: _) = _
    rw [readKeyword, hliteral]
    rfl
  | false hliteral =>
    show readKeyword ('f' :: _) = _
    rw [readKeyword, hliteral]
    rfl

/-- Values are read in layers, the parts of a value in the same way as the value. -/
theorem readValue_eq_readLayer (depth : Nat) :
    ∃ inner, readValue depth = readLayer inner ∧
      ∀ read, inner = some read → ∃ smaller, read = readValue smaller := by
  cases depth with
  | zero => exact ⟨none, rfl, by simp⟩
  | succ depth => exact ⟨some (readValue depth), rfl, by simp⟩

/-! ## Following a reader -/

variable {α β ε : Type}

/-- Where the full reader reads something, the other one reads what it sees of it, and leaves the
same text. -/
def Follows (full : List Char → Except SyntaxFault (α × List Char))
    (read : List Char → Except ε (β × List Char)) (view : α → Except ε β) : Prop :=
  ∀ text a rest, full text = .ok (a, rest) → read text = (view a).map fun b => (b, rest)

/-- An entry with what is seen of its value. -/
def underKey (view : α → Except ε β) (entry : String × α) : Except ε (String × β) := do
  return (entry.1, ← view entry.2)

section Containers

variable {full : List Char → Except SyntaxFault (α × List Char)}
  {read : List Char → Except ε (β × List Char)} {view : α → Except ε β}
  {close : Char} (refuse : SyntaxFault → ε)

omit refuse in
/-- What has been read item by item is a first item, and others behind a comma or nothing but the
closing bracket. -/
theorem readMore_cases {count : Nat} {text rest : List Char} {items : List α}
    (h : readMore id close full (count + 1) text = .ok (items, rest)) :
    ∃ first middle, full text = .ok (first, middle) ∧
      ((∃ tail others, skipSpace middle = ',' :: tail ∧
          readMore id close full count tail = .ok (others, rest) ∧ items = first :: others) ∨
        (skipSpace middle = close :: rest ∧ close ≠ ',' ∧ items = [first])) := by
  rw [readMore, Except.bind_eq_ok_iff] at h
  obtain ⟨⟨first, middle⟩, hfirst, h⟩ := h
  refine ⟨first, middle, hfirst, ?_⟩
  dsimp only at h
  split at h
  next => cases h
  next c tail htail =>
    split at h
    next hc =>
      obtain ⟨⟨others, _⟩, hothers, hitems⟩ := Except.bind_eq_ok_iff.mp h
      cases hitems
      exact .inl ⟨tail, others, hc ▸ htail, hothers, rfl⟩
    split at h
    next hc hclose =>
      cases h
      exact .inr ⟨hclose ▸ htail, hclose ▸ hc, rfl⟩
    next => cases h

theorem Follows.readMore (h : Follows full read view) (count : Nat) :
    Follows (readMore id close full count) (readMore refuse close read count)
      (List.mapM view) := by
  induction count with
  | zero =>
    intro text items rest hfull
    cases hfull
  | succ count ih =>
    intro text items rest hfull
    obtain ⟨first, middle, hfirst, hmore⟩ := readMore_cases hfull
    rw [Json.readMore, h _ _ _ hfirst]
    obtain ⟨tail, others, htail, hothers, rfl⟩ | ⟨htail, hclose, rfl⟩ := hmore
    · rw [List.mapM_cons]
      cases view first with
      | error => rfl
      | ok b =>
        simp only [Except.map, htail, if_pos, ih _ _ _ hothers, bind, Except.bind]
        cases others.mapM view <;> rfl
    · rw [List.mapM_cons]
      cases view first with
      | error => rfl
      | ok b =>
        simp only [Except.map, htail, if_neg hclose, if_pos, bind, Except.bind]
        rfl

/-- What follows the reader of items follows the reader of a container of them. -/
theorem Follows.readItems (h : Follows full read view) :
    Follows (readItems id close full) (readItems refuse close read) (List.mapM view) := by
  intro text items rest hfull
  unfold Json.readItems at hfull ⊢
  split at hfull
  next => cases hfull
  next c tail =>
    split at hfull
    next hc =>
      cases hfull
      rw [if_pos hc]
      rfl
    next hc =>
      rw [if_neg hc]
      exact h.readMore refuse _ _ _ _ hfull

/-- What follows the reader of a value follows the reader of an entry with such a value. -/
theorem Follows.readEntry (h : Follows full read view) :
    Follows (readEntry id full) (readEntry refuse read) (underKey view) := by
  intro text entry rest hfull
  obtain ⟨⟨key, middle⟩, hkey, hfull⟩ := Except.bind_eq_ok_iff.mp hfull
  obtain ⟨⟨value, _⟩, hvalue, hentry⟩ := Except.bind_eq_ok_iff.mp hfull
  cases hentry
  rw [Except.mapError_eq_ok_iff] at hkey
  rw [Json.readEntry, hkey]
  show (read middle >>= fun r => return ((key, r.1), r.2)) = _
  rw [h _ _ _ hvalue]
  unfold underKey
  dsimp only
  cases view value <;> rfl

end Containers

/-! ## Skipping -/

/-- An escape with four digits is skipped as one, whatever it stands for. -/
theorem skipText_unitEscape {d₁ d₂ d₃ d₄ : Char} {unit : Nat} (h : unit? d₁ d₂ d₃ d₄ = some unit)
    (rest : List Char) :
    skipText ('\\' :: 'u' :: d₁ :: d₂ :: d₃ :: d₄ :: rest) = skipText rest := by
  rw [skipText.eq_def]
  simp [h]

theorem skipText_simpleEscape {e c : Char} (hunit : e ≠ 'u') (h : simpleEscape? e = some c)
    (rest : List Char) : skipText ('\\' :: e :: rest) = skipText rest := by
  rw [skipText.eq_def]
  simp [hunit, h]

theorem skipText_plain {c : Char} (hquote : c ≠ '\x22') (hslash : c ≠ '\\')
    (hspace : ¬ c.toNat < 0x20) (rest : List Char) : skipText (c :: rest) = skipText rest := by
  rw [skipText.eq_def]
  simp only [if_neg hquote, if_neg hslash, if_neg hspace]

theorem exists_of_prepend {c : Char} {reading : Except SyntaxFault (List Char × List Char)}
    {content rest : List Char} (h : prepend c reading = .ok (content, rest)) :
    ∃ behind, reading = .ok (behind, rest) := by
  obtain ⟨⟨behind, _⟩, hbehind, h⟩ := Except.map_eq_ok_iff.mp h
  cases h
  exact ⟨behind, hbehind⟩

/-- Where a string has been read, it can be skipped. -/
theorem skipText_of_readText {text content rest : List Char}
    (h : readText text = .ok (content, rest)) : skipText text = .ok rest := by
  -- the cases in which there is an escape or a character to go over; in the others nothing is read
  fun_induction readText text generalizing content with
  | case2 =>
    cases h
    rw [skipText.eq_def]
    rfl
  | case6 _ _ _ _ high hhigh _ _ _ _ _ _ low hlow _ _ ih =>
    -- two escapes are skipped for the one character that the pair stands for
    obtain ⟨_, h⟩ := exists_of_prepend h
    rw [skipText_unitEscape hhigh, skipText_unitEscape hlow, ih h]
  | case10 _ _ _ _ _ unit hunit _ _ _ ih =>
    obtain ⟨_, h⟩ := exists_of_prepend h
    rw [skipText_unitEscape hunit, ih h]
  | case13 _ _ hunit _ hsimple _ ih =>
    obtain ⟨_, h⟩ := exists_of_prepend h
    rw [skipText_simpleEscape hunit hsimple, ih h]
  | case15 _ _ hquote hslash hspace ih =>
    obtain ⟨_, h⟩ := exists_of_prepend h
    rw [skipText_plain hquote hslash hspace, ih h]
  | _ => cases h

/-- Where a number has been read, it can be skipped. -/
theorem skipNumber_of_readNumber {text rest : List Char} {n : JsonNumber}
    (h : readNumber text = .ok (n, rest)) : skipNumber text = .ok rest := by
  unfold readNumber at h
  obtain ⟨⟨whole, text₁⟩, hwhole, h⟩ := Except.bind_eq_ok_iff.mp h
  obtain ⟨⟨fraction, text₂⟩, hfraction, h⟩ := Except.bind_eq_ok_iff.mp h
  obtain ⟨⟨exponent, text₃⟩, hexponent, h⟩ := Except.bind_eq_ok_iff.mp h
  obtain ⟨_, -, h⟩ := Except.bind_eq_ok_iff.mp h
  cases h
  unfold skipNumber
  simp only [Except.bind_eq_ok_iff]
  exact ⟨_, hwhole, _, hfraction, _, hexponent, rfl⟩

/-- What has been read as a key is a string and a colon behind it. -/
theorem readKey_cases {text rest : List Char} {key : String} (h : readKey text = .ok (key, rest)) :
    ∃ tail content middle, skipSpace text = '\x22' :: tail ∧
      readText tail = .ok (content, middle) ∧ skipSpace middle = ':' :: rest := by
  unfold readKey at h
  split at h
  next tail htail =>
    obtain ⟨⟨content, middle⟩, hcontent, h⟩ := Except.bind_eq_ok_iff.mp h
    dsimp only at h
    split at h
    next hmiddle =>
      cases h
      exact ⟨tail, content, middle, htail, hcontent, hmiddle⟩
    next => cases h
  next => cases h

/-- Where a key has been read, it can be skipped. -/
theorem skipKey_of_readKey {text rest : List Char} {key : String}
    (h : readKey text = .ok (key, rest)) : skipKey text = .ok rest := by
  obtain ⟨tail, content, middle, htail, hcontent, hmiddle⟩ := readKey_cases h
  unfold skipKey
  rw [htail]
  show (skipText tail >>= _) = _
  rw [skipText_of_readText hcontent, Except.ok_bind, hmiddle]
  rfl

theorem Follows.skipEntry {full : List Char → Except SyntaxFault (Json × List Char)}
    {skip : List Char → Except SyntaxFault (Unit × List Char)}
    (h : Follows full skip fun _ => pure ()) :
    Follows (Json.readEntry id full) (skipEntry skip) fun _ => pure () := by
  intro text entry rest hfull
  obtain ⟨⟨key, middle⟩, hkey, hfull⟩ := Except.bind_eq_ok_iff.mp hfull
  obtain ⟨⟨value, _⟩, hvalue, hentry⟩ := Except.bind_eq_ok_iff.mp hfull
  cases hentry
  rw [Except.mapError_eq_ok_iff] at hkey
  rw [Json.skipEntry, skipKey_of_readKey hkey]
  exact h _ _ _ hvalue

/-- A value can be skipped where it has been read, if its parts can. -/
theorem follows_skipLayer {inner : Inner}
    {skip : Option (List Char → Except SyntaxFault (Unit × List Char))}
    (h : ∀ read, inner = some read →
      ∃ skip', skip = some skip' ∧ Follows read skip' fun _ => pure ()) :
    Follows (readLayer inner) (skipLayer skip) fun _ => pure () := by
  intro text value rest hread
  have hreading := reading_of_readLayer hread
  show _ = Except.ok ((), rest)
  unfold skipLayer
  generalize skipSpace text = start at hreading ⊢
  cases hreading with
  | string hcontent =>
    show (skipText _ >>= _) = _
    rw [skipText_of_readText hcontent]
    rfl
  | array hitems =>
    obtain ⟨skip, rfl, hskip⟩ := h _ rfl
    show (readItems id ']' skip _ >>= _) = _
    rw [hskip.readItems id _ _ _ hitems, List.mapM_pure]
    rfl
  | object hentries =>
    obtain ⟨skip, rfl, hskip⟩ := h _ rfl
    show (readItems id '\x7d' (skipEntry skip) _ >>= _) = _
    rw [hskip.skipEntry.readItems id _ _ _ hentries, List.mapM_pure]
    rfl
  | number hc hn =>
    obtain ⟨hquote, hbracket, hbrace, -⟩ := ne_of_startsNumber hc
    dsimp only
    rw [if_neg hquote, if_neg hbracket, if_neg hbrace, if_pos hc, skipNumber_of_readNumber hn]
    rfl
  | null hliteral =>
    show (readKeyword _ >>= _) = _
    rw [readKeyword, hliteral]
    rfl
  | true hliteral =>
    show (readKeyword _ >>= _) = _
    rw [readKeyword, hliteral]
    rfl
  | false hliteral =>
    show (readKeyword _ >>= _) = _
    rw [readKeyword, hliteral]
    rfl

/-- **Skipping follows reading**, where it is not more limited in the nesting.  Nothing is said of
the other direction: much can be skipped that cannot be read. -/
theorem follows_skipValue {depth limit : Nat} (h : depth ≤ limit) :
    Follows (readValue depth) (skipValue limit) fun _ => pure () := by
  induction depth generalizing limit with
  | zero =>
    cases limit <;> exact follows_skipLayer (by simp)
  | succ depth ih =>
    obtain ⟨limit, rfl⟩ : ∃ n, limit = n + 1 := ⟨limit - 1, by omega⟩
    apply follows_skipLayer
    intro read hread
    cases hread
    exact ⟨skipValue limit, rfl, ih (by omega)⟩

end Json

end ElmManifest
