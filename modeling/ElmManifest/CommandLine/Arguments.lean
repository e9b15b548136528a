import ElmManifest.Text.Split

/-!
# Command lines

What the arguments of a run ask for.

## Main Definitions

* `Item` — an argument by what it is: a flag, a flag with its value, or a word.
* `items` — the arguments as items.
* `Flags` — the flags that every command takes.
* `Command`, `Request` — what is asked for.
* `UsageFault` — why arguments ask for nothing.
* `Request.ofArguments` — the request of a list of arguments.

## Design Notes

Arguments are gone through from left to right, and the first thing that settles the matter counts: a
request for the version in front of an unknown flag is a request for the version.  The flags may
stand before the command and behind it.  On either side each of them is given once at most; if it is
given on both sides, the one behind the command counts.  Behind two hyphens everything is a word.
Behind the word `help` there are no flags.
-/

namespace ElmManifest.CommandLine

/-- The flags that take a value. -/
inductive ValueFlag where
  /-- The home directory of the compiler's tools. -/
  | elmHome
  /-- The compiler version whose packages are used. -/
  | compiler
  /-- The configuration file. -/
  | config
  deriving DecidableEq

/-- The name of a flag behind its two hyphens. -/
def ValueFlag.name : ValueFlag → String
  | .elmHome => "elm-home"
  | .compiler => "compiler"
  | .config => "config"

/-- Whether the value of a flag is a path; a path is never empty, while any text can be given for a
version and is refused later. -/
def ValueFlag.isPath : ValueFlag → Bool
  | .elmHome => true
  | .compiler => false
  | .config => true

/-- The flag with a name. -/
def valueFlag? (name : String) : Option ValueFlag :=
  [ValueFlag.elmHome, .compiler, .config].find? fun flag => flag.name == name

/-- Why arguments ask for nothing.  Such a run never comes to the configuration or the files. -/
inductive UsageFault where
  /-- There is no command. -/
  | missingCommand
  /-- There is no such command. -/
  | unknownCommand (name : String)
  /-- There is no such flag. -/
  | unknownFlag (text : String)
  /-- A flag or an argument needs a value. -/
  | missingValue (name : String)
  /-- A flag takes no value. -/
  | needlessValue (name : String)
  /-- A flag is given twice. -/
  | repeatedFlag (name : String)
  /-- There is an argument too many. -/
  | extraArgument (text : String)
  /-- Help is asked for something that is not one command. -/
  | badTopic
  deriving DecidableEq

/-- The wording of a fault. -/
def UsageFault.message : UsageFault → String
  | .missingCommand => "a command is required"
  | .unknownCommand name => "unknown command '" ++ name ++ "'"
  | .unknownFlag text => "unknown flag '" ++ text ++ "'"
  | .missingValue name => "a value is required for '" ++ name ++ "'"
  | .needlessValue name => "no value is expected for '" ++ name ++ "'"
  | .repeatedFlag name => "'" ++ name ++ "' is given twice"
  | .extraArgument text => "unexpected argument '" ++ text ++ "'"
  | .badTopic => "help is available for one command at a time"

/-! ## Items -/

/-- An argument by what it is.  Flags are recognized in one pass over the arguments, before it is
asked which command they belong to. -/
inductive Item where
  /-- A flag with its value. -/
  | valued (flag : ValueFlag) (value : String)
  /-- The flag for more messages. -/
  | verbose
  /-- The flag that asks for the version. -/
  | version
  /-- The flag that asks for help. -/
  | help
  /-- Two hyphens. -/
  | separator
  /-- Anything that is no flag. -/
  | word (text : String)
  /-- Something that cannot be. -/
  | fault (fault : UsageFault)
  deriving DecidableEq

/-- The flag of one letter. -/
def Item.ofLetter (letter : Char) : Item :=
  if letter = 'v' then .verbose
  else if letter = 'V' then .version
  else if letter = 'h' then .help
  else .fault (.unknownFlag ("-" ++ String.singleton letter))

/-- The flag without a value that has a name. -/
def Item.ofName? (name : String) : Option Item :=
  if name = "verbose" then some .verbose
  else if name = "version" then some .version
  else if name = "help" then some .help
  else none

/-- Whether an argument can be the value of the flag in front of it: a hyphen in front makes it a
flag, unless it is all of the argument. -/
def canBeValue (argument : String) : Bool :=
  argument == "-" || argument.toList.head? != some '-'

/-- The name of a flag and the value attached to it. -/
def splitFlag (text : List Char) : String × Option String :=
  match Text.cut ['='] text with
  | none => (String.ofList text, none)
  | some (name, value) => (String.ofList name, some (String.ofList value))

/-- The arguments as items.  The list ends with the first fault, as nothing behind it is looked
at. -/
def items : List String → List Item
  | [] => []
  | argument :: rest =>
    if argument = "--" then .separator :: rest.map .word
    else
      match argument.toList with
      | '-' :: '-' :: text =>
        let (name, attached) := splitFlag text
        match valueFlag? name, attached with
        | some flag, some value => .valued flag value :: items rest
        | some flag, none =>
          match rest with
          | [] => [.fault (.missingValue flag.name)]
          | value :: rest =>
            if canBeValue value then .valued flag value :: items rest
            else [.fault (.missingValue flag.name)]
        | none, attached =>
          match Item.ofName? name, attached with
          | some item, none => item :: items rest
          | some _, some _ => [.fault (.needlessValue name)]
          | none, _ => [.fault (.unknownFlag argument)]
      | '-' :: letter :: letters => (letter :: letters).map Item.ofLetter ++ items rest
      | _ => .word argument :: items rest

/-! ## Flags -/

/-- The flags that every command takes, before it or behind it. -/
structure Flags where
  /-- The home directory of the compiler's tools. -/
  elmHome : Option String
  /-- The compiler version whose packages are used. -/
  compiler : Option String
  /-- The configuration file. -/
  config : Option String
  /-- Whether to give more messages. -/
  verbose : Bool
  deriving DecidableEq

namespace Flags

/-- No flags. -/
def none : Flags := ⟨.none, .none, .none, false⟩

/-- The value of a flag. -/
def value? (flags : Flags) : ValueFlag → Option String
  | .elmHome => flags.elmHome
  | .compiler => flags.compiler
  | .config => flags.config

/-- The flags with one more value. -/
def set (flags : Flags) (flag : ValueFlag) (value : String) : Flags :=
  match flag with
  | .elmHome => { flags with elmHome := some value }
  | .compiler => { flags with compiler := some value }
  | .config => { flags with config := some value }

/-- Adds a value, unless there is one already or it cannot be one. -/
def addValue (flags : Flags) (flag : ValueFlag) (value : String) : Except UsageFault Flags :=
  if (flags.value? flag).isSome then .error (.repeatedFlag flag.name)
  else if flag.isPath ∧ value = "" then .error (.missingValue flag.name)
  else .ok (flags.set flag value)

/-- Adds the flag for more messages, unless it is there already. -/
def addVerbose (flags : Flags) : Except UsageFault Flags :=
  if flags.verbose then .error (.repeatedFlag "verbose") else .ok { flags with verbose := true }

/-- The flags of two sides of a command; those on the first side count. -/
def orElse (first second : Flags) : Flags where
  elmHome := first.elmHome <|> second.elmHome
  compiler := first.compiler <|> second.compiler
  config := first.config <|> second.config
  verbose := first.verbose || second.verbose

end Flags

/-! ## Requests -/

/-- What to do: `Commands`. -/
inductive Command where
  /-- Show the project that a path belongs to. -/
  | summary (path : String)
  /-- Check whether the project that a path belongs to accepts a compiler version. -/
  | check (version path : String)
  /-- List the versions of a package in the cache. -/
  | versions (package : String)
  deriving DecidableEq

/-- What is asked for. -/
inductive Request where
  /-- A command. -/
  | run (flags : Flags) (command : Command)
  /-- The version of the program. -/
  | version
  /-- Help. -/
  | help
  deriving DecidableEq

/-- The path that is meant when none is given: the working directory. -/
def defaultPath : String := "."

/-- A path that is given as an argument. -/
def asPath (text : String) : Except UsageFault String :=
  if text = "" then .error (.missingValue "PATH") else .ok text

/-- The command with a name and the words behind it.  Too few words and too many are told apart, and
a path is never empty. -/
def Command.ofWords (name : String) (words : List String) : Except UsageFault Command :=
  if name = "show" then
    match words with
    | [] => .ok (.summary defaultPath)
    | [path] => .summary <$> asPath path
    | _ :: extra :: _ => .error (.extraArgument extra)
  else if name = "check" then
    match words with
    | [] => .error (.missingValue "VERSION")
    | [version] => .ok (.check version defaultPath)
    | [version, path] => .check version <$> asPath path
    | _ :: _ :: extra :: _ => .error (.extraArgument extra)
  else if name = "versions" then
    match words with
    | [] => .error (.missingValue "PACKAGE")
    | [package] => .ok (.versions package)
    | _ :: extra :: _ => .error (.extraArgument extra)
  else .error (.unknownCommand name)

/-- The names of the commands. -/
def commandNames : List String := ["show", "check", "versions"]

/-- Reads the items behind the word that asks for help: at most one command, which may be that word
again. -/
def readTopic : List Item → Except UsageFault Request
  | [] => .ok .help
  | [.word name] => if name ∈ "help" :: commandNames then .ok .help else .error .badTopic
  | _ => .error .badTopic

/-- Reads the items behind the name of a command; `before` are the flags in front of it.  A word
belongs to the command, and a flag to the flags behind its name. -/
def readCommand (before : Flags) (name : String) (flags : Flags) (words : List String) :
    List Item → Except UsageFault Request
  | [] => .run (flags.orElse before) <$> Command.ofWords name words
  | .valued flag value :: rest => do
    readCommand before name (← flags.addValue flag value) words rest
  | .verbose :: rest => do
    readCommand before name (← flags.addVerbose) words rest
  | .version :: _ => .error (.unknownFlag "version")
  | .help :: _ => .ok .help
  | .separator :: rest => readCommand before name flags words rest
  | .word text :: rest => readCommand before name flags (words ++ [text]) rest
  | .fault fault :: _ => .error fault

/-- Reads the items up to the name of a command, and then those behind it. -/
def readRequest (flags : Flags) : List Item → Except UsageFault Request
  | [] => .error .missingCommand
  | .valued flag value :: rest => do readRequest (← flags.addValue flag value) rest
  | .verbose :: rest => do readRequest (← flags.addVerbose) rest
  | .version :: _ => .ok .version
  | .help :: _ => .ok .help
  | .separator :: _ => .error .missingCommand
  | .word name :: rest =>
    if name ∈ commandNames then readCommand flags name .none [] rest
    else if name = "help" then readTopic rest
    else .error (.unknownCommand name)
  | .fault fault :: _ => .error fault

/-- The request of a list of arguments, which do not include the name of the program. -/
def Request.ofArguments (arguments : List String) : Except UsageFault Request :=
  readRequest .none (items arguments)

end ElmManifest.CommandLine
