/-!
# Bytes as text

Files hold bytes, and every format that is read here is UTF-8 text.  Paths are bytes as well, as far
as the operating system is concerned, and need not be text at all.

## Main Definitions

* `utf8Bytes` — the bytes of a text.
* `Utf8.decode?` — the text, for bytes that are UTF-8 throughout.
* `Utf8.chars` — the characters, for a reader that reports the first fault it meets.
* `Utf8.lossy` — a text for any bytes.

## Design Notes

A reader that goes from left to right may find a fault of its own before it comes to a byte that is
no text.  `chars` therefore keeps the characters in front of such a byte and puts a NUL in its
place, where the text ends.  NUL is a character no reader accepts unescaped, so the fault is met
where the byte stood.

`lossy` is for bytes that have to be text whatever they are: what cannot be read is replaced by
U+FFFD, one for each longest run of bytes that starts a character and does not end it.
-/

namespace ElmManifest

/-- The bytes of a text in UTF-8. -/
def utf8Bytes (text : String) : List UInt8 :=
  text.toUTF8.data.toList

theorem utf8Bytes_eq_flatMap (text : String) :
    utf8Bytes text = text.toList.flatMap String.utf8EncodeChar := by
  conv => lhs; rw [← String.ofList_toList (s := text)]
  rw [utf8Bytes, String.toUTF8_eq_toByteArray, String.toByteArray_ofList]
  exact List.toList_data_toByteArray

namespace Text.Utf8

/-- The text, if the bytes are UTF-8 throughout. -/
def decode? (bytes : ByteArray) : Option String :=
  String.fromUTF8? bytes

/-- The characters that start at the given position and behind it, as far as the bytes are UTF-8,
with a NUL for the first byte that is not. -/
def charsFrom (bytes : ByteArray) : Nat → Nat → List Char
  | 0, _ => []
  | count + 1, position =>
    if bytes.size ≤ position then []
    else
      match bytes.utf8DecodeChar? position with
      | some c => c :: charsFrom bytes count (position + c.utf8Size)
      | none => ['\x00']

/-- The characters of the bytes, with a NUL for the first byte that is no text and nothing behind
it. -/
def chars (bytes : ByteArray) : List Char :=
  match decode? bytes with
  | some text => text.toList
  | none => charsFrom bytes bytes.size 0

/-- Whether a byte is one of those behind the first one of a character. -/
def isContinuation (byte : UInt8) : Bool :=
  0x80 ≤ byte && byte ≤ 0xBF

/-- Whether there are characters that start with these two bytes.  Behind four of the first bytes
the second one is bounded: other characters would be spelled with too many bytes, be a half of a
pair, or be beyond the last code point. -/
def startsCharacter (first second : UInt8) : Bool :=
  isContinuation second && 0xC2 ≤ first && first ≤ 0xF4 &&
    (first != 0xE0 || 0xA0 ≤ second) && (first != 0xED || second ≤ 0x9F) &&
    (first != 0xF0 || 0x90 ≤ second) && (first != 0xF4 || second ≤ 0x8F)

/-- The number of bytes at the start, where no character is, that are replaced together. -/
def brokenLength : List UInt8 → Nat
  | first :: second :: third :: _ =>
    if startsCharacter first second then
      if 0xF0 ≤ first && isContinuation third then 3 else 2
    else 1
  | [first, second] => if startsCharacter first second then 2 else 1
  | _ => 1

/-- The characters that start at the given position and behind it, with U+FFFD for what is none. -/
def lossyFrom (bytes : ByteArray) : Nat → Nat → List Char
  | 0, _ => []
  | count + 1, position =>
    if bytes.size ≤ position then []
    else
      match bytes.utf8DecodeChar? position with
      | some c => c :: lossyFrom bytes count (position + c.utf8Size)
      | none =>
        '\uFFFD' :: lossyFrom bytes count
          (position + brokenLength (bytes.data.toList.drop position))

/-- The text, with U+FFFD for what is none. -/
def lossy (bytes : ByteArray) : String :=
  match decode? bytes with
  | some text => text
  | none => String.ofList (lossyFrom bytes bytes.size 0)

/-- The bytes of a text are that text. -/
theorem decode?_toUTF8 (text : String) : decode? text.toUTF8 = some text := by
  have valid : text.toUTF8.IsValidUTF8 := text.isValidUTF8
  simp only [decode?, String.fromUTF8?, dif_pos valid]
  rfl

/-- The bytes of a text have its characters. -/
theorem chars_toUTF8 (text : String) : chars text.toUTF8 = text.toList := by
  simp only [chars, decode?_toUTF8]

/-- Bytes that are a text are the bytes of that text. -/
theorem eq_of_decode? {bytes : ByteArray} {text : String} (h : decode? bytes = some text) :
    bytes = text.toUTF8 := by
  unfold decode? String.fromUTF8? at h
  split at h
  · cases h
    rfl
  · cases h

/-- A text is not changed by reading it for what it is. -/
theorem lossy_toUTF8 (text : String) : lossy text.toUTF8 = text := by
  rw [lossy, decode?_toUTF8]

end Text.Utf8

end ElmManifest
