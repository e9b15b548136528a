import ElmManifest.Config.Reader
import ElmManifest.FileTree
import ElmManifest.Text.Utf8
import ElmManifest.Version.Reader

/-!
# Configuration

Where the packages are: below the home directory of the compiler's tools, in a directory for the
compiler's version.

## Main Definitions

* `Environment` — the two environment variables that matter.
* `Config` — a home directory and a compiler version, and `Config.packagesDir`.
* `Config.default` — what holds when nothing is configured.
* `Config.parse`, `Config.load` — the defaults, overridden by a configuration text or file.
* `ConfigError` — why a file is no configuration.
-/

namespace ElmManifest

/-- The environment variables that matter. -/
structure Environment where
  /-- The home directory of the compiler's tools. -/
  elmHome : Option String
  /-- The user's home directory. -/
  home : Option String

/-- The home directory of the compiler's tools when nothing is configured: `default_elm_home`.  It
is the variable for it, however it is set, or else a hidden directory in the user's home directory,
or in the working directory where there is no home. -/
def Environment.defaultElmHome (env : Environment) : Path :=
  match env.elmHome, env.home with
  | some elmHome, _ => ⟨elmHome⟩
  | none, some home => if home = "" then ⟨".elm"⟩ else (⟨home⟩ : Path) / ".elm"
  | none, none => ⟨".elm"⟩

/-- Where the packages are: `RepositoryConfig`. -/
structure Config where
  /-- The home directory of the compiler's tools. -/
  elmHome : Path
  /-- The compiler version whose packages are used. -/
  compiler : Version
  deriving DecidableEq

/-- Why a file is no configuration. -/
inductive ConfigError where
  /-- It cannot be read. -/
  | unreadable (fault : ReadFault)
  /-- Its bytes are no text. -/
  | notText
  /-- Its text is no configuration text. -/
  | malformed (fault : ConfigText.Fault)
  /-- Its compiler version is no version. -/
  | badVersion (error : InvalidVersion)
  deriving DecidableEq

namespace ConfigError

/-- What lies behind an error. -/
def reason : ConfigError → String
  | .unreadable fault => fault.message
  | .notText => "the file is not UTF-8 text"
  | .malformed fault => fault.message
  | .badVersion error => error.message

/-- The wording of an error. -/
def message (e : ConfigError) : String :=
  match e with
  | .unreadable _ => "failed to read config file: " ++ e.reason
  | .notText => "failed to read config file: " ++ e.reason
  | .malformed _ => "failed to parse config file: " ++ e.reason
  | .badVersion _ => "invalid compiler version in config file: " ++ e.reason

/-- The error and what lies behind it: the message repeats the reason, and both are listed. -/
def causes (e : ConfigError) : List String :=
  [e.message, e.reason]

end ConfigError

namespace Config

/-- The compiler version when nothing is configured. -/
def defaultCompiler : Version := .ofNumbers 0 19 1

/-- What holds when nothing is configured: `default`. -/
def default (env : Environment) : Config :=
  ⟨env.defaultElmHome, defaultCompiler⟩

/-- The directory with one directory for each author of packages: `packages_dir`. -/
def packagesDir (c : Config) : Path :=
  c.elmHome / c.compiler.text / "packages"

/-- The key of the home directory. -/
def elmHomeKey : String := "elm-home"

/-- The key of the compiler version. -/
def compilerKey : String := "compiler-version"

/-- The defaults, overridden by the entries of a configuration text: `parse`.  Both keys are
optional and no other key is known; the text for the home directory is taken as it is, while the one
for the compiler must be a version. -/
def parse (env : Environment) (text : String) : Except ConfigError Config := do
  let entries ← (ConfigText.read [elmHomeKey, compilerKey] text.toList).mapError .malformed
  let compiler ←
    match entries.lookup compilerKey with
    | none => .ok defaultCompiler
    | some text => (Version.parse text).mapError .badVersion
  return ⟨(entries.lookup elmHomeKey).elim env.defaultElmHome Path.mk, compiler⟩

/-- The defaults, overridden by a configuration file: `from_path`. -/
def load (env : Environment) (files : FileTree) (path : Path) : Except ConfigError Config := do
  let bytes ← (files.read path).mapError .unreadable
  match Text.Utf8.decode? bytes with
  | none => throw .notText
  | some text => parse env text

end Config

end ElmManifest
