import ElmManifest.Cache
import ElmManifest.CommandLine.Arguments
import ElmManifest.Project.Load
import ElmManifest.Project.Summary

/-!
# Running commands

A run is a function of its arguments, the environment and a snapshot of the files.

## Main Definitions

* `Failure` — why a run fails; `Failure.text` is what it says.
* `configOf` — the configuration of a run, from its flags, the configuration file and the defaults.
* `execute` — a command.
* `Ending`, `run` — how a run ends.
* `Ending.output`, `Ending.complaint?` — what is printed then.

## Design Notes

What a run prints is settled before anything is printed, so a run that fails prints nothing but its
error.
-/

namespace ElmManifest.CommandLine

/-! ## Failures -/

/-- Why a run fails: one constructor for each step of `main` that can. -/
inductive Failure where
  /-- The configuration file is none. -/
  | badConfig (path : String) (error : ConfigError)
  /-- A compiler version is none. -/
  | badCompiler (text : String) (error : InvalidVersion)
  /-- There is no manifest. -/
  | noManifest (path : String)
  /-- The project cannot be loaded. -/
  | notLoaded (error : LoadError)
  /-- The name of a package is none. -/
  | badPackageName (name : String)
  deriving DecidableEq

namespace Failure

/-- What failed, in one line. -/
def headline : Failure → String
  | .badConfig path _ => "Failed to load config '" ++ path ++ "'"
  | .badCompiler text _ => "Invalid compiler version '" ++ text ++ "'"
  | .noManifest path =>
    "Could not find elm.json or elm-package.json in '" ++ path ++ "' or any parent directory"
  | .notLoaded _ => "Failed to load project"
  | .badPackageName name => "Invalid package name '" ++ name ++ "': expected author/project"

/-- What lies behind it, and what lies behind that. -/
def causes : Failure → List String
  | .badConfig _ error => error.causes
  | .badCompiler _ error => [error.message]
  | .noManifest _ => []
  | .notLoaded error => error.causes
  | .badPackageName _ => []

/-- A text with something in front of its first line and something in front of every other one. -/
def indent (first others : String) (text : String) : String :=
  first ++ String.ofList (text.toList.flatMap fun c =>
    if c = '\n' then c :: others.toList else [c])

/-- The causes as they are listed: a single one indented, several ones numbered. -/
def causeLines : List String → List String
  | [] => []
  | [cause] => [indent "    " "    " cause]
  | causes => causes.zipIdx.map fun (cause, position) =>
    indent ("    " ++ toString position ++ ": ") "       " cause

/-- What a failed run says: the headline, and the list of causes if there are any. -/
def text (failure : Failure) : String :=
  "Error: " ++ failure.headline ++
    (if failure.causes = [] then ""
      else "\n\nCaused by:\n" ++ "\n".intercalate (causeLines failure.causes))

end Failure

/-! ## Commands -/

/-- What a run works with.  The files are a snapshot, so a run is a function of it. -/
structure Setting where
  /-- The environment variables. -/
  environment : Environment
  /-- The files. -/
  files : FileTree

/-- Reads the text of a compiler version, from a flag or from the arguments of a command. -/
def readCompiler (text : String) : Except Failure Version :=
  (Version.parse text).mapError (.badCompiler text)

/-- The configuration without the flags that override it: the file that a flag names, or the
defaults. -/
def baseConfig (setting : Setting) (flags : Flags) : Except Failure Config :=
  match flags.config with
  | none => .ok (Config.default setting.environment)
  | some path => (Config.load setting.environment setting.files ⟨path⟩).mapError (.badConfig path)

/-- The configuration of a run: `repository_config`.  Flags come before the configuration file, and
that before the environment and the built-in defaults.  A flag does not save a file that is no
configuration: the file is read first, whatever is overridden in it. -/
def configOf (setting : Setting) (flags : Flags) : Except Failure Config := do
  let base ← baseConfig setting flags
  let compiler ←
    match flags.compiler with
    | none => pure base.compiler
    | some text => readCompiler text
  return ⟨flags.elmHome.elim base.elmHome Path.mk, compiler⟩

/-- The project that a path belongs to, and the warnings on the way: `locate_manifest`, then
`load_manifest` over the cache. -/
def openProject (setting : Setting) (config : Config) (path : String) :
    Except Failure Project × List Warning :=
  match findManifest? setting.files ⟨path⟩ with
  | none => (.error (.noManifest path), [])
  | some manifest =>
    let outcome := loadProject setting.files (Cache.mk config setting.files).repository manifest
    (outcome.result.mapError .notLoaded, outcome.warnings)

/-- What a run prints, and whether its answer is yes. -/
structure Answer where
  /-- The printed text. -/
  output : String
  /-- Whether the answer is yes; it is no only for a compiler version that is not accepted. -/
  yes : Bool

/-- The answer to whether a project accepts a compiler version.  Both answers are printed in the
same words but for a `not`, and the exit code tells them apart. -/
def checkAnswer (project : Project) (compiler : Version) : Answer :=
  let accepted := project.acceptsCompiler compiler
  ⟨project.presentableName ++ (if accepted then " accepts Elm " else " does not accept Elm ") ++
    compiler.text ++ " (requires " ++ project.elmVersionText ++ ")\n", accepted⟩

/-- The list of the versions of a package.  A name of the wrong form is a failure, while a package
of which nothing is in the cache is an answer like any other. -/
def versionsAnswer (cache : Cache) (name : String) : Except Failure Answer :=
  if (Cache.packageDir? cache.config name).isNone then .error (.badPackageName name)
  else
    match (cache.versions name).toList with
    | [] => .ok ⟨"No cached versions of " ++ name ++ ".\n", true⟩
    | versions => .ok ⟨Project.unlines (versions.map Version.text), true⟩

/-- Carries out a command: the `match` of `main`.  The text of a compiler version is read before any
project is looked for. -/
def execute (setting : Setting) (config : Config) :
    Command → Except Failure Answer × List Warning
  | .summary path =>
    let (project, warnings) := openProject setting config path
    (project.map fun project => ⟨project.summary, true⟩, warnings)
  | .check version path =>
    match readCompiler version with
    | .error failure => (.error failure, [])
    | .ok compiler =>
      let (project, warnings) := openProject setting config path
      (project.map fun project => checkAnswer project compiler, warnings)
  | .versions package => (versionsAnswer ⟨config, setting.files⟩ package, [])

/-! ## Whole runs -/

/-- How a run ends.  There is no other way: every list of arguments leads to one of these. -/
inductive Ending where
  /-- With an answer. -/
  | answered (answer : Answer)
  /-- With a failure. -/
  | failed (failure : Failure)
  /-- Without having been asked anything that makes sense. -/
  | misused (fault : UsageFault)

/-- The exit code of a run. -/
def Ending.exitCode : Ending → UInt32
  | .answered answer => if answer.yes then 0 else 1
  | .failed _ => 1
  | .misused _ => 2

/-- What a request for the version is answered with. -/
def versionText : String := "elm-project 0.1.0\n"

/-- What a request for help is answered with. -/
def helpText : String :=
  "Usage: elm-project [FLAGS] show [PATH]\n" ++
  "       elm-project [FLAGS] check VERSION [PATH]\n" ++
  "       elm-project [FLAGS] versions PACKAGE\n" ++
  "\n" ++
  "Flags:\n" ++
  "  --elm-home DIR      home directory of the compiler's tools\n" ++
  "  --compiler VERSION  compiler version whose packages are used\n" ++
  "  --config FILE       configuration file\n" ++
  "  -v, --verbose       more messages\n"

/-- What a run prints as its answer; nothing, unless it ends with one. -/
def Ending.output : Ending → String
  | .answered answer => answer.output
  | _ => ""

/-- What a run complains of, unless it ends with an answer. -/
def Ending.complaint? : Ending → Option String
  | .answered _ => none
  | .failed failure => some failure.text
  | .misused fault => some ("error: " ++ fault.message ++ "\n\n" ++ helpText)

/-- Carries out a request: the configuration first, and then the command. -/
def answer (setting : Setting) : Request → Ending × List Warning
  | .version => (.answered ⟨versionText, true⟩, [])
  | .help => (.answered ⟨helpText, true⟩, [])
  | .run flags command =>
    match configOf setting flags with
    | .error failure => (.failed failure, [])
    | .ok config =>
      match execute setting config command with
      | (.ok answer, warnings) => (.answered answer, warnings)
      | (.error failure, warnings) => (.failed failure, warnings)

/-- A run with the given arguments: `main`, apart from reading the files and printing. -/
def run (setting : Setting) (arguments : List String) : Ending × List Warning :=
  match Request.ofArguments arguments with
  | .ok request => answer setting request
  | .error fault => (.misused fault, [])

end ElmManifest.CommandLine
