import ElmManifest.Text.Digits
import ElmManifest.Text.Quoted

/-!
# Reading configuration text

A configuration file is a list of lines `key = "text"` in TOML.  Of that format only what such a
file can need is accepted: keys that are bare or quoted, and texts in each of the four quotations.

## Main Definitions

* `ConfigText.Fault` — what can be wrong with a text.
* `ConfigText.readBasic`, `readLiteral`, `readLongBasic`, `readLongLiteral` — the four quotations.
* `ConfigText.read` — the entries of a text, in source order.

## Design Notes

A quotation that spans lines may be followed by up to two more quotation marks, which belong to the
text.  Line ends in it are read as line feeds, and a backslash at the end of a line takes the space
in front of the next word along.
-/

namespace ElmManifest.ConfigText

/-- What can be wrong with a configuration text. -/
inductive Fault where
  /-- The text ends too early. -/
  | unexpectedEnd
  /-- A character stands where it must not stand. -/
  | unexpected (c : Char)
  /-- An escape does not exist. -/
  | badEscape
  /-- A key is not one of those that a configuration has. -/
  | unknownKey (key : String)
  /-- A key is given twice. -/
  | repeatedKey (key : String)
  deriving DecidableEq

/-- The wording of a fault. -/
def Fault.message : Fault → String
  | .unexpectedEnd => "the text ends too early"
  | .unexpected c => "unexpected character " ++ Text.quoteChar c
  | .badEscape => "invalid escape"
  | .unknownKey key => "unknown key " ++ Text.quoteText key
  | .repeatedKey key => "repeated key " ++ Text.quoteText key

/-- The fault of a text that goes on with something out of place. -/
def faultAt : List Char → Fault
  | [] => .unexpectedEnd
  | c :: _ => .unexpected c

/-! ## Characters -/

/-- Space within a line. -/
def isBlank (c : Char) : Bool :=
  c == ' ' || c == '\t'

/-- Whether a quotation or a comment may hold the character as it is. -/
def isPlain (c : Char) : Bool :=
  c == '\t' || 0x20 ≤ c.toNat && c != '\x7f'

/-- Whether a key may hold the character without quotation. -/
def isBareKeyCharacter (c : Char) : Bool :=
  c.isAlphanum || c == '_' || c == '-'

/-- The text behind a line end, if it starts with one. -/
def lineEnd? : List Char → Option (List Char)
  | '\n' :: rest => some rest
  | '\r' :: '\n' :: rest => some rest
  | _ => none

/-- The text without the space and line ends in front of it. -/
def skipSpace : List Char → List Char
  | '\r' :: '\n' :: rest => skipSpace rest
  | c :: rest => if isBlank c || c == '\n' then skipSpace rest else c :: rest
  | [] => []

/-- Puts characters in front of the text that a reader returns. -/
def prepend (front : List Char) (reading : Except Fault (List Char × List Char)) :
    Except Fault (List Char × List Char) :=
  reading.map fun (text, rest) => (front ++ text, rest)

/-! ## Escapes -/

/-- The character of an escape with one letter. -/
def simpleEscape? (c : Char) : Option Char :=
  if c = '\x22' ∨ c = '\\' then some c
  else if c = 'b' then some '\x08'
  else if c = 't' then some '\t'
  else if c = 'n' then some '\n'
  else if c = 'f' then some '\x0c'
  else if c = 'r' then some '\r'
  else none

/-- Reads the digits of a code point. -/
def readCodePoint (count : Nat) (text : List Char) : Option (Char × List Char) :=
  match Text.takeHex? count 0 text with
  | none => none
  | some (number, rest) =>
    if number.isValidChar then some (Char.ofNat number, rest) else none

/-- Reads an escape behind its backslash. -/
def readEscape : List Char → Option (Char × List Char)
  | [] => none
  | c :: rest =>
    if c = 'u' then readCodePoint 4 rest
    else if c = 'U' then readCodePoint 8 rest
    else (simpleEscape? c).map fun c => (c, rest)

theorem length_lt_of_readEscape {text rest : List Char} {c : Char}
    (h : readEscape text = some (c, rest)) : rest.length < text.length := by
  have code : ∀ {count : Nat} {digits : List Char},
      readCodePoint count digits = some (c, rest) → rest.length ≤ digits.length := by
    intro count digits hc
    unfold readCodePoint at hc
    split at hc
    · simp at hc
    next hh =>
      split at hc
      · obtain ⟨-, rfl⟩ := Prod.mk.injEq .. ▸ Option.some.injEq .. ▸ hc
        exact Text.length_le_of_takeHex? hh
      · simp at hc
  cases text with
  | nil => simp [readEscape] at h
  | cons d digits =>
    simp only [readEscape] at h
    split at h
    · exact Nat.lt_succ_of_le (code h)
    · split at h
      · exact Nat.lt_succ_of_le (code h)
      · obtain ⟨_, -, he⟩ := Option.map_eq_some_iff.mp h
        obtain ⟨-, rfl⟩ := Prod.mk.injEq .. ▸ he
        simp

theorem length_skipSpace_le (text : List Char) : (skipSpace text).length ≤ text.length := by
  fun_induction skipSpace text with
  | case1 rest ih => simp only [List.length_cons]; omega
  | case2 c rest _ _ ih => simp only [List.length_cons]; omega
  | case3 => simp
  | case4 => simp

/-! ## Quotations -/

/-- Reads a quotation on one line, up to and including the closing mark. -/
def readBasic (text : List Char) : Except Fault (List Char × List Char) :=
  match text with
  | [] => .error .unexpectedEnd
  | c :: rest =>
    if c = '\x22' then .ok ([], rest)
    else if c = '\\' then
      match h : readEscape rest with
      | none => .error .badEscape
      | some (c, behind) =>
        have := length_lt_of_readEscape h
        prepend [c] (readBasic behind)
    else if isPlain c then prepend [c] (readBasic rest)
    else .error (.unexpected c)
termination_by text.length
decreasing_by all_goals simp only [List.length_cons]; omega

/-- Reads a quotation without escapes on one line, up to and including the closing mark. -/
def readLiteral : List Char → Except Fault (List Char × List Char)
  | [] => .error .unexpectedEnd
  | c :: rest =>
    if c = '\x27' then .ok ([], rest)
    else if isPlain c then prepend [c] (readLiteral rest)
    else .error (.unexpected c)

/-- The marks that belong to the text of a quotation, of those that follow three closing ones: there
may be two. -/
def extraMarks (mark : Char) : List Char → List Char × List Char
  | c :: d :: rest =>
    if c = mark then if d = mark then ([mark, mark], rest) else ([mark], d :: rest)
    else ([], c :: d :: rest)
  | [c] => if c = mark then ([mark], []) else ([], [c])
  | [] => ([], [])

/-- The text behind three marks, if it starts with them. -/
def threeMarks? (mark : Char) : List Char → Option (List Char)
  | c :: d :: e :: rest => if c = mark ∧ d = mark ∧ e = mark then some rest else none
  | _ => none

/-- Whether nothing but space stands in front of the next line end. -/
def endsLine (text : List Char) : Bool :=
  (lineEnd? (text.dropWhile isBlank)).isSome

/-- Reads a quotation that may span lines, up to and including the closing marks. -/
def readLongBasic (text : List Char) : Except Fault (List Char × List Char) :=
  match text with
  | [] => .error .unexpectedEnd
  | c :: rest =>
    match threeMarks? '\x22' (c :: rest) with
    | some behind => .ok (extraMarks '\x22' behind)
    | none =>
      if c = '\\' then
        if endsLine rest then
          have := length_skipSpace_le rest
          readLongBasic (skipSpace rest)
        else
          match h : readEscape rest with
          | none => .error .badEscape
          | some (c, behind) =>
            have := length_lt_of_readEscape h
            prepend [c] (readLongBasic behind)
      else
        if c = '\r' ∧ rest.head? = some '\n' then readLongBasic rest
        else if isPlain c ∨ c = '\n' then prepend [c] (readLongBasic rest)
        else .error (.unexpected c)
termination_by text.length
decreasing_by all_goals simp only [List.length_cons]; omega

/-- Reads a quotation without escapes that may span lines, up to and including the closing marks. -/
def readLongLiteral : List Char → Except Fault (List Char × List Char)
  | [] => .error .unexpectedEnd
  | c :: rest =>
    match threeMarks? '\x27' (c :: rest) with
    | some behind => .ok (extraMarks '\x27' behind)
    | none =>
      if c = '\r' ∧ rest.head? = some '\n' then readLongLiteral rest
      else if isPlain c ∨ c = '\n' then prepend [c] (readLongLiteral rest)
      else .error (.unexpected c)

/-- The text without the line end in front of it, if it starts with one. -/
def dropLineEnd (text : List Char) : List Char :=
  (lineEnd? text).getD text

/-- Reads a text in any of the four quotations. -/
def readText (text : List Char) : Except Fault (List Char × List Char) :=
  match threeMarks? '\x22' text, threeMarks? '\x27' text with
  | some rest, _ => readLongBasic (dropLineEnd rest)
  | _, some rest => readLongLiteral (dropLineEnd rest)
  | none, none =>
    match text with
    | '\x22' :: rest => readBasic rest
    | '\x27' :: rest => readLiteral rest
    | text => .error (faultAt text)

/-! ## Lines -/

/-- Reads a key: bare, or in a quotation on one line. -/
def readKey (text : List Char) : Except Fault (List Char × List Char) :=
  match text with
  | '\x22' :: rest => readBasic rest
  | '\x27' :: rest => readLiteral rest
  | text =>
    if text.takeWhile isBareKeyCharacter = [] then .error (faultAt text)
    else .ok (text.takeWhile isBareKeyCharacter, text.dropWhile isBareKeyCharacter)

/-- Reads a key and its text.  Both are on one line, as far as the quotation of the text does not
span several. -/
def readEntry (text : List Char) : Except Fault ((String × String) × List Char) := do
  let (key, text) ← readKey text
  match text.dropWhile isBlank with
  | '=' :: text =>
    let (value, text) ← readText (text.dropWhile isBlank)
    return ((String.ofList key, String.ofList value), text)
  | text => throw (faultAt text)

/-- The text without the comment in front of it, if it starts with one. -/
def dropComment : List Char → List Char
  | '#' :: rest => rest.dropWhile isPlain
  | text => text

/-- Reads what may stand behind an entry on its line, up to and including the line end. -/
def readLineEnd (text : List Char) : Except Fault (List Char) :=
  match dropComment (text.dropWhile isBlank) with
  | [] => .ok []
  | text =>
    match lineEnd? text with
    | some rest => .ok rest
    | none => .error (faultAt text)

/-- Reads lines, at most as many as given. -/
def readLines : Nat → List Char → Except Fault (List (String × String))
  | 0, _ => .ok []
  | count + 1, text =>
    match text.dropWhile isBlank with
    | [] => .ok []
    | c :: rest =>
      if c = '#' ∨ c = '\n' ∨ c = '\r' then do
        readLines count (← readLineEnd (c :: rest))
      else do
        let (entry, text) ← readEntry (c :: rest)
        let entries ← readLines count (← readLineEnd text)
        return entry :: entries

/-- The text without the mark of byte order in front of it. -/
def dropByteOrderMark : List Char → List Char
  | '\ufeff' :: rest => rest
  | text => text

/-- The first key that is unknown or comes a second time, in source order. -/
def checkKeys (known : List String) (seen : List String) : List String → Except Fault Unit
  | [] => .ok ()
  | key :: rest =>
    if key ∉ known then .error (.unknownKey key)
    else if key ∈ seen then .error (.repeatedKey key)
    else checkKeys known (key :: seen) rest

/-- Reads the entries of a text, whose keys must be among the known ones and differ from each other.
There are no more lines than characters, apart from the last one. -/
def read (known : List String) (text : List Char) : Except Fault (List (String × String)) := do
  let text := dropByteOrderMark text
  let entries ← readLines (text.length + 1) text
  checkKeys known [] (entries.map Prod.fst)
  return entries

end ElmManifest.ConfigText
