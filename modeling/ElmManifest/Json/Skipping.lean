import ElmManifest.Json.Reader

/-!
# Skipping JSON

A reader that has no use for a value goes over it without building it.

## Main Definitions

* `Json.skipText`, `Json.skipNumber`, `Json.skipKey` — the parts of the grammar.
* `Json.skipValue` — a value.

## Design Notes

To skip a value is less than to read it.  A number may lie beyond the doubles, an escaped surrogate
may lack its other half, and containers may nest as deep as they like; here a limit on the nesting
is a parameter.
-/

namespace ElmManifest

namespace Json

/-! ## Scalars and keys -/

/-- Skips a string behind its opening quote, up to and including the closing one.  Escapes are
passed over and not decoded, so a lone half of a surrogate pair is no fault here. -/
def skipText : List Char → Except SyntaxFault (List Char)
  | [] => .error .unexpectedEnd
  | c :: rest =>
    if c = '\x22' then .ok rest
    else if c = '\\' then
      match rest with
      | [] => .error .unexpectedEnd
      | e :: rest =>
        if e = 'u' then
          match rest with
          | d₁ :: d₂ :: d₃ :: d₄ :: rest =>
            if (unit? d₁ d₂ d₃ d₄).isSome then skipText rest else .error .badEscape
          | _ => .error .badEscape
        else if (simpleEscape? e).isSome then skipText rest
        else .error .badEscape
    else if c.toNat < 0x20 then .error .controlCharacter
    else skipText rest

/-- Skips a number, however large it is. -/
def skipNumber (text : List Char) : Except SyntaxFault (List Char) := do
  let (_, text) ← readWhole (takeMinus text).2
  let (_, text) ← readFraction text
  let (_, text) ← readExponent text
  return text

/-- Skips a key and the colon behind it. -/
def skipKey (text : List Char) : Except SyntaxFault (List Char) :=
  match skipSpace text with
  | '\x22' :: rest => do
    let rest ← skipText rest
    match skipSpace rest with
    | ':' :: rest => return rest
    | rest => throw (faultAt rest)
  | rest => .error (faultAt rest)

/-! ## Values -/

/-- Skips an entry of an object. -/
def skipEntry (value : List Char → Except SyntaxFault (Unit × List Char)) (text : List Char) :
    Except SyntaxFault (Unit × List Char) := do
  let text ← skipKey text
  value text

/-- Skips a value whose parts are skipped by `inner`; without one, there is no room for a
container. -/
def skipLayer (inner : Option (List Char → Except SyntaxFault (Unit × List Char)))
    (text : List Char) : Except SyntaxFault (Unit × List Char) :=
  match skipSpace text with
  | [] => .error .unexpectedEnd
  | c :: rest =>
    if c = '\x22' then do return ((), ← skipText rest)
    else if c = '[' then
      match inner with
      | none => .error .tooDeep
      | some inner => do return ((), (← readItems id ']' inner rest).2)
    else if c = '\x7b' then
      match inner with
      | none => .error .tooDeep
      | some inner => do return ((), (← readItems id '\x7d' (skipEntry inner) rest).2)
    else if c = '-' ∨ c.isDigit = true then do return ((), ← skipNumber (c :: rest))
    else do return ((), (← readKeyword (c :: rest)).2)

/-- Skips a value whose containers nest at most as deep as given. -/
def skipValue : Nat → List Char → Except SyntaxFault (Unit × List Char)
  | 0 => skipLayer none
  | depth + 1 => skipLayer (some (skipValue depth))

end Json

end ElmManifest
