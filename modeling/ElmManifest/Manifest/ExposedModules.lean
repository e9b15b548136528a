import ElmManifest.Json.Reader

/-!
# Exposed modules

A package names the modules it exposes in a list, or in a map from categories to lists.  A text that
holds such a declaration and nothing else can be read in one go.

## Main Definitions

* `ExposedModules.Fault` — what can be wrong with such a text.
* `ExposedModules.read` — the names, in source order.

## Design Notes

The text is gone through once.  A fault of syntax and a value of the wrong shape are told apart, and
whichever comes first is reported: an unfinished text is no obstacle to saying that its first item
is no name.
-/

namespace ElmManifest.ExposedModules

open Json

/-- What can be wrong with a text that should declare exposed modules. -/
inductive Fault where
  /-- It is not JSON. -/
  | broken (fault : SyntaxFault)
  /-- A value in it is not of the expected shape. -/
  | wrongShape (mismatch : Mismatch)
  deriving DecidableEq

/-- Refuses the value that the text goes on with.  A scalar is read to its end first, so that a
broken one is a fault of syntax; of a container only the bracket is looked at. -/
def refuse {α : Type} (expected : Shape) (text : List Char) : Except Fault α :=
  match text with
  | '[' :: _ => .error (.wrongShape ⟨.sequence, expected⟩)
  | '\x7b' :: _ => .error (.wrongShape ⟨.map, expected⟩)
  | text =>
    match readLayer none text with
    | .ok (value, _) => .error (.wrongShape ⟨value.glimpse, expected⟩)
    | .error fault => .error (.broken fault)

/-- Reads a module name. -/
def readName (text : List Char) : Except Fault (String × List Char) :=
  match skipSpace text with
  | '\x22' :: rest => do
    let (name, rest) ← (readText rest).mapError .broken
    return (String.ofList name, rest)
  | text => refuse .text text

/-- Reads a list of module names. -/
def readNames (text : List Char) : Except Fault (List String × List Char) :=
  match skipSpace text with
  | '[' :: rest => readItems .broken ']' readName rest
  | text => refuse .sequence text

/-- Reads a declaration of exposed modules: a list, as `visit_seq` takes it, or a map, whose lists
`visit_map` puts one behind the other in the order of the text. -/
def readDeclaration (text : List Char) : Except Fault (List String × List Char) :=
  match skipSpace text with
  | '[' :: rest => readItems .broken ']' readName rest
  | '\x7b' :: rest => do
    let (categories, rest) ← readItems .broken '\x7d' (readEntry .broken readNames) rest
    return (categories.flatMap Prod.snd, rest)
  | text => refuse .moduleNames text

/-- Reads a text that declares exposed modules and holds nothing else. -/
def read (text : List Char) : Except Fault (List String) := do
  let (names, rest) ← readDeclaration text
  (endOfText rest).mapError .broken
  return names

end ElmManifest.ExposedModules
