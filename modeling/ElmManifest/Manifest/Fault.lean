import ElmManifest.FileTree
import ElmManifest.Json.Reader
import ElmManifest.Manifest.Basic

/-!
# Faults of manifests

Everything that can be wrong with a manifest, from its bytes to the values of its fields, and
everything that can stop a project from being loaded.

## Main Definitions

* `SchemaFault` — a JSON value that is no manifest.
* `DecodeFault` — bytes that are no manifest.
* `LoadError` — a project that cannot be loaded; each error says which file or package is to blame.
* `LoadError.message`, `LoadError.causes` — the wording.
-/

namespace ElmManifest

/-- Why a JSON value is not a manifest.  The constructors that are about one field hold its name, an
entry of a map as `field.entry`. -/
inductive SchemaFault where
  /-- An object was due. -/
  | notAnObject (found : Json.Kind)
  /-- The field that names the kind of manifest holds no text. -/
  | typeNotText (found : Json.Kind)
  /-- A field is missing. -/
  | missingField (key : String)
  /-- A field is given twice. -/
  | duplicateField (key : String)
  /-- A value is not of the expected shape. -/
  | wrongShape (mismatch : Json.Mismatch)
  /-- The package has an empty name. -/
  | emptyName
  /-- A field holds a text that is no version. -/
  | badVersion (field : String) (error : InvalidVersion)
  /-- A field holds a text that is no constraint. -/
  | badConstraint (field : String) (error : InvalidConstraint)
  /-- The manifest of a dependency is not that of a package. -/
  | notAPackage (name : String)
  deriving DecidableEq

/-- The wording of a fault. -/
def SchemaFault.message : SchemaFault → String
  | .notAnObject found => "expected a JSON object, found " ++ found.name
  | .typeNotText found => "field `type`: expected a string, found " ++ found.name
  | .missingField key => "missing field `" ++ key ++ "`"
  | .duplicateField key => "duplicate field `" ++ key ++ "`"
  | .wrongShape mismatch => mismatch.message
  | .emptyName => "field `name` cannot be empty"
  | .badVersion field error => "field `" ++ field ++ "`: " ++ error.message
  | .badConstraint field error => "field `" ++ field ++ "`: " ++ error.message
  | .notAPackage name => "dependency '" ++ name ++ "' is not a package manifest"

/-- Why bytes are not a manifest, in the three kinds that a caller can tell apart. -/
inductive DecodeFault where
  /-- They are not JSON. -/
  | malformed (fault : Json.SyntaxFault)
  /-- They declare a kind of manifest that does not exist. -/
  | unknownType (found : String)
  /-- They are JSON of another shape. -/
  | schema (fault : SchemaFault)
  deriving DecidableEq

/-- What a dependency was asked to be.  It decides which version is loaded, and is repeated in the
message when none can be. -/
inductive Requirement where
  /-- Exactly this version. -/
  | pinned (version : Version)
  /-- Any version of a range. -/
  | within (range : Constraint)
  deriving DecidableEq

/-- A requirement as messages show it: `= 1.0.0` for a pinned version, and a range as it is
written. -/
def Requirement.text : Requirement → String
  | .pinned version => "= " ++ version.text
  | .within range => range.text

/-- Why a dependency cannot be resolved. -/
inductive Shortage where
  /-- There is no version at all. -/
  | noVersions
  /-- There are versions, but none that is required. -/
  | noneSatisfies (available : List Version)
  /-- The selected version has no manifest. -/
  | noManifest (selected : Version)
  deriving DecidableEq

/-- The wording of a shortage. -/
def Shortage.message : Shortage → String
  | .noVersions => "no versions available"
  | .noneSatisfies available =>
    "no available version satisfies it (available: " ++
      ", ".intercalate (available.map Version.text) ++ ")"
  | .noManifest selected => "no manifest found for version " ++ selected.text

/-- A package at a version, as messages show it. -/
def packageText (name : String) (version : Version) : String :=
  name ++ "@" ++ version.text

/-- Why a project cannot be loaded: `LoadError`.  Every error holds the path, the package or the
chain that it is about. -/
inductive LoadError where
  /-- There is no file at the path. -/
  | fileNotFound (path : Path)
  /-- The file at the path cannot be read. -/
  | unreadable (path : Path) (fault : ReadFault)
  /-- The file is not JSON. -/
  | malformedJson (path : Path) (fault : Json.SyntaxFault)
  /-- The file declares a kind of manifest that does not exist. -/
  | unknownType (path : Path) (found : String)
  /-- The file is JSON of another shape. -/
  | schemaMismatch (path : Path) (fault : SchemaFault)
  /-- A dependency cannot be met. -/
  | unresolvedDependency (name : String) (requirement : Requirement) (shortage : Shortage)
  /-- A chain of dependencies comes back to where it has been. -/
  | dependencyCycle (chain : List (String × Version))
  deriving DecidableEq

namespace LoadError

/-- The wording of an error. -/
def message : LoadError → String
  | .fileNotFound path => "manifest not found: " ++ path.text
  | .unreadable path fault => "failed to read '" ++ path.text ++ "': " ++ fault.message
  | .malformedJson path fault => "malformed JSON in '" ++ path.text ++ "': " ++ fault.message
  | .unknownType path found =>
    "unknown manifest type '" ++ found ++ "' in '" ++ path.text ++
      "', expected \"application\" or \"package\""
  | .schemaMismatch path fault => "invalid manifest '" ++ path.text ++ "': " ++ fault.message
  | .unresolvedDependency name requirement shortage =>
    "unresolved dependency '" ++ name ++ "' (" ++ requirement.text ++ "): " ++ shortage.message
  | .dependencyCycle chain =>
    "dependency cycle detected: " ++
      " -> ".intercalate (chain.map fun link => packageText link.1 link.2)

/-- The error and, where another fault lies behind it, that fault: the chain that is listed under
the error. -/
def causes (e : LoadError) : List String :=
  match e with
  | .unreadable _ fault => [e.message, fault.message]
  | .malformedJson _ fault => [e.message, fault.message]
  | _ => [e.message]

end LoadError

/-- The error of a file that cannot be read: `io`.  That there is no file is an error of its own. -/
def ReadFault.at (fault : ReadFault) (path : Path) : LoadError :=
  if fault = .notFound then .fileNotFound path else .unreadable path fault

/-- The error of a file whose bytes are no manifest: `json` and `schema`.  What cannot be read as
JSON at all is malformed, and what can is a mismatch with the schema. -/
def DecodeFault.at (fault : DecodeFault) (path : Path) : LoadError :=
  match fault with
  | .malformed fault => .malformedJson path fault
  | .unknownType found => .unknownType path found
  | .schema fault => .schemaMismatch path fault

end ElmManifest
