import ElmManifest.CommandLine.Run

/-!
# The command-line program

Takes a snapshot of the files that the arguments can need, lets `CommandLine.run` settle what is to
be printed, and prints it.

## Design Notes

A command needs its configuration file, the manifests in the directory it starts from and in those
above it with the files beside them, and the package cache.  What cannot be read is not in the
snapshot.
-/

namespace ElmManifest.CommandLine

/-- The location of a rooted path without dots. -/
def locationOf (text : String) : Location :=
  ((⟨text⟩ : Path).segments.filter Path.isName).reverse

/-- The snapshot with what is at a path, if there is anything.  What cannot be read is left out and
so counts as missing. -/
def capture (files : FileTree) (path : Path) : IO FileTree := do
  let here ← IO.currentDir
  if ← (here / path.text).isDir then return files.makeDirectory path
  try
    return files.write path (← IO.FS.readBinFile (here / path.text))
  catch _ => return files

/-- The names in a directory, none if it is none. -/
def namesIn (path : Path) : IO (List String) := do
  let here ← IO.currentDir
  try
    return ((← (here / path.text).readDir).map fun entry => entry.fileName).toList
  catch _ => return []

/-- The snapshot with every manifest that is as many directories below a path as given. -/
def captureBelow : Nat → FileTree → Path → IO FileTree
  | 0, files, path => capture files (path / manifestName)
  | depth + 1, files, path => do
    (← namesIn path).foldlM
      (fun files (name : String) => captureBelow depth files (path / name)) files

/-- The snapshot with the manifests that a path can belong to, and the files beside them.  Every
directory above is captured, as the search goes up to the root. -/
def captureProject (files : FileTree) (start : Path) : IO FileTree := do
  let directories := start :: start.ancestors
  let names := [manifestName, legacyManifestName, sidecarName, exactDependenciesName]
  let beside := directories.flatMap fun directory =>
    names.map fun (name : String) => directory / name
  (directories ++ beside).foldlM capture files

/-- The snapshot for a command.  A package is three directories below the directory of packages, and
nothing else in the cache is looked at. -/
def captureFor (files : FileTree) (config : Config) : Command → IO FileTree
  | .summary path => do captureProject (← captureBelow 3 files config.packagesDir) ⟨path⟩
  | .check _ path => do captureProject (← captureBelow 3 files config.packagesDir) ⟨path⟩
  | .versions _ => captureBelow 3 files config.packagesDir

/-- The snapshot that a run with the given arguments works with.  The configuration file is captured
first, since it says where the cache is. -/
def snapshot (environment : Environment) (arguments : List String) : IO FileTree := do
  let files := FileTree.empty (locationOf (← IO.currentDir).toString)
  match Request.ofArguments arguments with
  | .ok (.run flags command) =>
    let files ← flags.config.elim (pure files) fun path => capture files ⟨path⟩
    match configOf ⟨environment, files⟩ flags with
    | .ok config => captureFor files config command
    | .error _ => return files
  | _ => return files

/-- A warning as it is printed. -/
def warningText : Warning → String
  | .ignoredSidecar path error =>
    "warning: ignoring unreadable sidecar file '" ++ path.text ++ "': " ++ error.message
  | .otherPackage requested found path =>
    "warning: dependency manifest '" ++ path.text ++ "' does not match the requested package: " ++
      packageText requested.1 requested.2 ++ " was requested, " ++
      packageText found.1 found.2 ++ " was found"

/-- Prints how a run ended, and returns its exit code. -/
def report (ending : Ending) : IO UInt32 := do
  IO.print ending.output
  if let some complaint := ending.complaint? then IO.eprintln complaint
  return ending.exitCode

end ElmManifest.CommandLine

open ElmManifest CommandLine in
/-- The program: takes a snapshot, runs on it, and prints the warnings before the answer. -/
def main (arguments : List String) : IO UInt32 := do
  let environment : Environment := ⟨← IO.getEnv "ELM_HOME", ← IO.getEnv "HOME"⟩
  let files ← snapshot environment arguments
  let (ending, warnings) := run ⟨environment, files⟩ arguments
  for warning in warnings do
    IO.eprintln (warningText warning)
  report ending
