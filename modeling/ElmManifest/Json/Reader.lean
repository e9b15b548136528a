import ElmManifest.Json.Value
import ElmManifest.Text.Digits
import ElmManifest.Text.Utf8

/-!
# Reading JSON

The reader accepts the JSON grammar and nothing beside it, from left to right, with three limits of
its own: containers nest at most 127 deep, a number must not lie beyond the doubles, and an escaped
surrogate must have its other half behind it.

## Main Definitions

* `Json.SyntaxFault` — what can be wrong with a text, and its wording.
* `Json.readText`, `Json.readNumber`, `Json.readValue` — the parts of the grammar; each returns what
  is left of the text.
* `Json.read` — a whole text.
* `Json.ofBytes` — the contents of a file.

## Design Notes

Nesting is the recursion: a reader for values that may nest `n + 1` deep is built from one for
values that may nest `n` deep.  The items of a container are read by a loop that is bounded by the
length of the text, as every item takes at least one character.
-/

namespace ElmManifest

namespace Json

/-! ## Faults -/

/-- What can be wrong with a text that should be JSON. -/
inductive SyntaxFault where
  /-- The text ends too early. -/
  | unexpectedEnd
  /-- A character stands where the grammar has no place for it. -/
  | unexpected (c : Char)
  /-- A number has a leading zero. -/
  | leadingZero
  /-- A number lies beyond the doubles. -/
  | numberTooLarge
  /-- A string holds a control character. -/
  | controlCharacter
  /-- A string holds an escape that does not exist. -/
  | badEscape
  /-- A string holds half of a surrogate pair. -/
  | loneSurrogate
  /-- Containers nest too deep. -/
  | tooDeep
  /-- There is more text behind the value. -/
  | trailing (c : Char)
  deriving DecidableEq

/-- The wording of a fault. -/
def SyntaxFault.message : SyntaxFault → String
  | .unexpectedEnd => "the text ends too early"
  | .unexpected c => "unexpected character " ++ Text.quoteChar c
  | .leadingZero => "a number has a leading zero"
  | .numberTooLarge => "a number is too large"
  | .controlCharacter => "a string holds a control character"
  | .badEscape => "a string holds an invalid escape"
  | .loneSurrogate => "a string holds half of a surrogate pair"
  | .tooDeep => "containers nest too deep"
  | .trailing c => "unexpected character " ++ Text.quoteChar c ++ " behind the value"

/-- Whether JSON allows the character between tokens. -/
def isSpace (c : Char) : Bool :=
  c == ' ' || c == '\t' || c == '\n' || c == '\r'

/-- The text without the space in front of it. -/
def skipSpace (text : List Char) : List Char :=
  text.dropWhile isSpace

/-- The fault of a text that goes on with something out of place. -/
def faultAt : List Char → SyntaxFault
  | [] => .unexpectedEnd
  | c :: _ => .unexpected c

/-! ## Strings -/

/-- The value of four hexadecimal digits. -/
def unit? (a b c d : Char) : Option Nat :=
  (Text.takeHex? 4 0 [a, b, c, d]).map Prod.fst

/-- Whether an escaped unit is the first half of a surrogate pair. -/
def isHighSurrogate (unit : Nat) : Bool := 0xD800 ≤ unit && unit < 0xDC00

/-- Whether an escaped unit is the second half of a surrogate pair. -/
def isLowSurrogate (unit : Nat) : Bool := 0xDC00 ≤ unit && unit < 0xE000

/-- The character of a surrogate pair. -/
def pairCharacter (high low : Nat) : Char :=
  Char.ofNat (0x10000 + (high - 0xD800) * 0x400 + (low - 0xDC00))

/-- The character of an escape with one letter. -/
def simpleEscape? (c : Char) : Option Char :=
  if c = '\x22' ∨ c = '\\' ∨ c = '/' then some c
  else if c = 'b' then some '\x08'
  else if c = 'f' then some '\x0C'
  else if c = 'n' then some '\n'
  else if c = 'r' then some '\r'
  else if c = 't' then some '\t'
  else none

/-- Puts a character in front of the text that a reader returns. -/
def prepend (c : Char) (reading : Except SyntaxFault (List Char × List Char)) :
    Except SyntaxFault (List Char × List Char) :=
  reading.map fun (text, rest) => (c :: text, rest)

/-- Reads a string behind its opening quote, up to and including the closing one. -/
def readText : List Char → Except SyntaxFault (List Char × List Char)
  | [] => .error .unexpectedEnd
  | c :: rest =>
    if c = '\x22' then .ok ([], rest)
    else if c = '\\' then
      match rest with
      | [] => .error .unexpectedEnd
      | e :: rest =>
        if e = 'u' then
          match rest with
          | d₁ :: d₂ :: d₃ :: d₄ :: rest =>
            match unit? d₁ d₂ d₃ d₄ with
            | none => .error .badEscape
            | some unit =>
              if isHighSurrogate unit then
                match rest with
                | '\\' :: 'u' :: e₁ :: e₂ :: e₃ :: e₄ :: rest =>
                  match unit? e₁ e₂ e₃ e₄ with
                  | none => .error .badEscape
                  | some low =>
                    if isLowSurrogate low then prepend (pairCharacter unit low) (readText rest)
                    else .error .loneSurrogate
                | _ => .error .loneSurrogate
              else if isLowSurrogate unit then .error .loneSurrogate
              else prepend (Char.ofNat unit) (readText rest)
          | _ => .error .badEscape
        else
          match simpleEscape? e with
          | none => .error .badEscape
          | some c => prepend c (readText rest)
    else if c.toNat < 0x20 then .error .controlCharacter
    else prepend c (readText rest)

/-! ## Numbers -/

/-- Takes a minus sign off the front, and says whether there was one. -/
def takeMinus : List Char → Bool × List Char
  | '-' :: rest => (true, rest)
  | text => (false, text)

/-- Reads one or more digits. -/
def readDigits (text : List Char) : Except SyntaxFault (List Char × List Char) :=
  match text.takeWhile Char.isDigit with
  | [] => .error (faultAt text)
  | digits => .ok (digits, text.dropWhile Char.isDigit)

/-- Reads the digits in front of a point: there is no leading zero. -/
def readWhole (text : List Char) : Except SyntaxFault (List Char × List Char) := do
  let (digits, rest) ← readDigits text
  match digits with
  | '0' :: _ :: _ => throw .leadingZero
  | _ => return (digits, rest)

/-- Reads a point and the digits behind it, if the number goes on with a point. -/
def readFraction : List Char → Except SyntaxFault (Option (List Char) × List Char)
  | '.' :: rest => do
    let (digits, rest) ← readDigits rest
    return (some digits, rest)
  | text => .ok (none, text)

/-- Takes a sign off the front of an exponent, and says whether it is a minus. -/
def takeSign : List Char → Bool × List Char
  | '+' :: rest => (false, rest)
  | text => takeMinus text

/-- Reads an exponent, if the number goes on with one. -/
def readExponent : List Char → Except SyntaxFault (Option Int × List Char)
  | c :: rest =>
    if c = 'e' ∨ c = 'E' then do
      let (negative, rest) := takeSign rest
      let (digits, rest) ← readDigits rest
      let size : Int := Text.digitsValue digits
      return (some (if negative then -size else size), rest)
    else .ok (none, c :: rest)
  | [] => .ok (none, [])

/-- Appends digits to a significand as long as it fits in 64 bits, and returns the digits that are
left over. -/
def appendDigits : Nat → List Char → Nat × List Char
  | significand, [] => (significand, [])
  | significand, digit :: digits =>
    let longer := 10 * significand + Text.digitValue digit
    if longer < UInt64.size then appendDigits longer digits else (significand, digit :: digits)

/-- The significand and the power of ten of a number in parts.  Digits that do not fit in 64 bits
are dropped; a dropped digit in front of the point still counts as a power of ten. -/
def decimalOf (whole fraction : List Char) (exponent : Int) : Nat × Int :=
  let (significand, left) := appendDigits 0 whole
  let (significand', left') := appendDigits significand fraction
  (significand', exponent + left.length - (fraction.length - left'.length : Nat))

/-- The double of a number in parts. -/
def doubleOf (negative : Bool) (whole fraction : List Char) (exponent : Int) :
    Except SyntaxFault JsonNumber :=
  let (significand, power) := decimalOf whole fraction exponent
  match Binary64.ofDecimal significand power with
  | some size => .ok (.double negative size)
  | none => .error .numberTooLarge

/-- The number with the given parts.  Without a fraction and an exponent it is an integer if it fits
in 64 bits, unsigned, or signed with a minus; minus zero is no integer. -/
def numberOf (negative : Bool) (whole : List Char) (fraction : Option (List Char))
    (exponent : Option Int) : Except SyntaxFault JsonNumber :=
  let size := Text.digitsValue whole
  let integral := fraction.isNone && exponent.isNone
  if integral = true ∧ negative = false ∧ size < UInt64.size then .ok (.integer size)
  else if integral = true ∧ negative = true ∧ 0 < size ∧ size ≤ UInt64.size / 2 then
    .ok (.integer (-size))
  else doubleOf negative whole (fraction.getD []) (exponent.getD 0)

/-- Reads a number. -/
def readNumber (text : List Char) : Except SyntaxFault (JsonNumber × List Char) := do
  let (negative, text) := takeMinus text
  let (whole, text) ← readWhole text
  let (fraction, text) ← readFraction text
  let (exponent, text) ← readExponent text
  return (← numberOf negative whole fraction exponent, text)

/-! ## Literals -/

/-- Reads a literal, or reports the first character that departs from it. -/
def readLiteral : List Char → List Char → Except SyntaxFault (List Char)
  | [], text => .ok text
  | l :: literal, c :: text => if c = l then readLiteral literal text else .error (.unexpected c)
  | _ :: _, [] => .error .unexpectedEnd

/-- Reads `null`, `true` or `false`. -/
def readKeyword (text : List Char) : Except SyntaxFault (Json × List Char) :=
  match text with
  | 'n' :: rest => do return (.null, ← readLiteral "ull".toList rest)
  | 't' :: rest => do return (.bool true, ← readLiteral "rue".toList rest)
  | 'f' :: rest => do return (.bool false, ← readLiteral "alse".toList rest)
  | text => .error (faultAt text)

/-! ## Containers -/

variable {α ε : Type}

/-- Reads items and the commas between them, up to and including the closing bracket.  What is wrong
with an item is said by the reader of the item; `refuse` says what is wrong between items. -/
def readMore (refuse : SyntaxFault → ε) (close : Char)
    (item : List Char → Except ε (α × List Char)) :
    Nat → List Char → Except ε (List α × List Char)
  | 0, _ => .error (refuse .unexpectedEnd)
  | count + 1, text => do
    let (first, text) ← item text
    match skipSpace text with
    | [] => throw (refuse .unexpectedEnd)
    | c :: text =>
      if c = ',' then
        let (others, text) ← readMore refuse close item count text
        return (first :: others, text)
      else if c = close then return ([first], text)
      else throw (refuse (.unexpected c))

/-- Reads the inside of a container behind its opening bracket. -/
def readItems (refuse : SyntaxFault → ε) (close : Char)
    (item : List Char → Except ε (α × List Char)) (text : List Char) :
    Except ε (List α × List Char) :=
  match skipSpace text with
  | [] => .error (refuse .unexpectedEnd)
  | c :: rest =>
    if c = close then .ok ([], rest)
    else readMore refuse close item (c :: rest).length (c :: rest)

/-- Reads a key and the colon behind it. -/
def readKey (text : List Char) : Except SyntaxFault (String × List Char) :=
  match skipSpace text with
  | '\x22' :: rest => do
    let (key, rest) ← readText rest
    match skipSpace rest with
    | ':' :: rest => return (String.ofList key, rest)
    | rest => throw (faultAt rest)
  | rest => .error (faultAt rest)

/-- Reads an entry of an object. -/
def readEntry (refuse : SyntaxFault → ε) (value : List Char → Except ε (α × List Char))
    (text : List Char) : Except ε ((String × α) × List Char) := do
  let (key, text) ← (readKey text).mapError refuse
  let (value, text) ← value text
  return ((key, value), text)

/-- Reads a value whose parts are read by `inner`; without one, there is no room for a container.
One layer is the same at every depth, so the reader below is this function applied again and
again. -/
def readLayer (inner : Option (List Char → Except SyntaxFault (Json × List Char)))
    (text : List Char) : Except SyntaxFault (Json × List Char) :=
  match skipSpace text with
  | [] => .error .unexpectedEnd
  | c :: rest =>
    if c = '\x22' then do
      let (content, rest) ← readText rest
      return (.string (String.ofList content), rest)
    else if c = '[' then
      match inner with
      | none => .error .tooDeep
      | some inner => do
        let (items, rest) ← readItems id ']' inner rest
        return (.array items, rest)
    else if c = '\x7b' then
      match inner with
      | none => .error .tooDeep
      | some inner => do
        let (entries, rest) ← readItems id '\x7d' (readEntry id inner) rest
        return (.object entries, rest)
    else if c = '-' ∨ c.isDigit = true then do
      let (value, rest) ← readNumber (c :: rest)
      return (.number value, rest)
    else readKeyword (c :: rest)

/-- Reads a value whose containers nest at most as deep as given. -/
def readValue : Nat → List Char → Except SyntaxFault (Json × List Char)
  | 0 => readLayer none
  | depth + 1 => readLayer (some (readValue depth))

/-- The greatest depth to which containers nest. -/
def maxDepth : Nat := 127

/-! ## Whole texts -/

/-- Requires that nothing but space is left. -/
def endOfText (text : List Char) : Except SyntaxFault Unit :=
  match skipSpace text with
  | [] => .ok ()
  | c :: _ => .error (.trailing c)

/-- Reads a text that holds one value and nothing else. -/
def read (text : List Char) : Except SyntaxFault Json := do
  let (value, rest) ← readValue maxDepth text
  endOfText rest
  return value

/-- Reads the contents of a file: `from_slice`. -/
def ofBytes (bytes : ByteArray) : Except SyntaxFault Json :=
  read (Text.Utf8.chars bytes)

end Json

end ElmManifest
