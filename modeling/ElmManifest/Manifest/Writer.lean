import ElmManifest.Json.Writer
import ElmManifest.Manifest.Basic

/-!
# Writing manifests

The text of a manifest, with every field in it: a version and a constraint as they are written, a
map with its entries in order of name, and `null` for a text that is missing.  The exposed modules
are a list.

## Main Definitions

* `Application.text`, `Package.text`, `LegacyManifest.text` — a manifest of each kind.
* `Manifest.text` — any manifest.

## Design Notes

The test directory of an application and the exact versions of a legacy manifest are kept in files
of their own, so they are no part of the text.
-/

namespace ElmManifest

/-- The text of a list of strings. -/
def textsText (texts : List String) : List Char :=
  Json.arrayText (texts.map Json.stringText)

/-- The text of a map, its values being written as strings. -/
def mapText {α : Type} (write : α → String) (m : NameMap α) : List Char :=
  Json.objectText ((m.map write).toList.map fun entry => (entry.1, Json.stringText entry.2))

/-- The text of a string that may be missing. -/
def optionalText : Option String → List Char
  | none => Json.nullText
  | some text => Json.stringText text

/-- The text of exact dependencies: an object with the two groups, also where one of them is
empty. -/
def ExactDependencies.text (d : ExactDependencies) : List Char :=
  Json.objectText [("direct", mapText Version.text d.direct),
    ("indirect", mapText Version.text d.indirect)]

/-- The text of an application.  The test directory is not in it, as it has a file of its own. -/
def Application.text (a : Application) : List Char :=
  Json.objectText [
    ("type", Json.stringText "application"),
    ("source-directories", textsText a.sourceDirectories),
    ("elm-version", Json.stringText a.elmVersion.text),
    ("dependencies", a.dependencies.text),
    ("test-dependencies", a.testDependencies.text)]

/-- The text of a package, with every field that a package can have. -/
def Package.text (p : Package) : List Char :=
  Json.objectText [
    ("type", Json.stringText "package"),
    ("name", Json.stringText p.name),
    ("version", Json.stringText p.version.text),
    ("summary", optionalText p.summary),
    ("license", optionalText p.license),
    ("elm-version", Json.stringText p.elmVersion.text),
    ("exposed-modules", textsText p.exposedModules),
    ("dependencies", mapText Constraint.text p.dependencies),
    ("test-dependencies", mapText Constraint.text p.testDependencies)]

/-- The text of a legacy manifest.  The exact versions are not in it. -/
def LegacyManifest.text (m : LegacyManifest) : List Char :=
  Json.objectText [
    ("elm-version", Json.stringText m.elmVersion.text),
    ("source-directories", textsText m.sourceDirectories),
    ("exposed-modules", textsText m.exposedModules),
    ("dependencies", mapText Constraint.text m.dependencies)]

/-- The text of a manifest, as JSON. -/
def Manifest.text : Manifest → String
  | .application declared => String.ofList declared.text
  | .package declared => String.ofList declared.text
  | .legacy declared => String.ofList declared.text

end ElmManifest
