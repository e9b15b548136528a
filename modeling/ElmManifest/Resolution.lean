import ElmManifest.Eventual
import ElmManifest.Manifest.Decode
import ElmManifest.Project.Basic
import ElmManifest.Repository

/-!
# Resolution

Resolving a manifest loads every package it depends on, and every package those depend on, depth
first.  A pinned dependency is looked up as it is; for a range, the smallest available version in it
is taken.  The test dependencies of the manifest itself are resolved too, unless they are to be
ignored; those of its dependencies never are.

## Main Definitions

* `Sources` — the repository that is asked and the files that are read.
* `Demand` — a dependency as it is declared.
* `Session` — what a run remembers: the packages under way, the packages done, the questions asked
  and the warnings given.
* `Sources.loadWithin` — one package with all it depends on, down to a depth.
* `Sources.load`, `Sources.loadAll` — one package, and several of them, to any depth.
* `Sources.loadManifest` — a manifest with all it depends on.
* `Outcome`, `resolve?`, `resolve` — a whole run.

## Design Notes

What identifies a package in a run is its name and release.  A package that is done is never loaded
again, and a package that is needed while it is still under way closes a cycle.

The recursion follows what the manifests say, and a repository with a manifest for every version can
lead it on for ever.  So it is bounded by the number of packages that may be under way inside each
other, and a run is the eventual value over all bounds: `none` is a run that does not end.  A step
that ends gives its result together with what the run remembers, whether the step fails or not.
-/

namespace ElmManifest

/-- What resolution works with.  The repository and the files are kept apart, because a repository
only says where a manifest is: the run reads it by itself, and the two need not agree. -/
structure Sources where
  /-- The repository. -/
  repository : Repository
  /-- The contents of files. -/
  read : Path → Except ReadFault ByteArray

/-- A question to a repository, one constructor for each thing that can be asked:
`available_versions` and `find_package_manifest`. -/
inductive Query where
  /-- Which versions of a package there are. -/
  | versions (name : String)
  /-- Where the manifest of a package at a version is. -/
  | find (name : String) (version : Version)
  deriving DecidableEq

/-- A question in words, for a trace of the run. -/
def Query.text : Query → String
  | .versions name => "versions " ++ name
  | .find name version => "find " ++ packageText name version

/-- Something odd that does not stop a run.  It is kept as data, so that a theorem can say when it
is given, and becomes words only where it is printed. -/
inductive Warning where
  /-- The sidecar of the project is no sidecar. -/
  | ignoredSidecar (path : Path) (error : LoadError)
  /-- A manifest declares another package than the one it was found for. -/
  | otherPackage (requested found : String × Version) (path : Path)
  deriving DecidableEq

/-- The wording of a warning, apart from what it is about. -/
def Warning.message : Warning → String
  | .ignoredSidecar .. => "ignoring unreadable sidecar file"
  | .otherPackage .. => "dependency manifest does not match the requested package"

/-! ## Packages and demands -/

/-- What identifies a requested package: its name and release.  Versions are compared without their
tags, so two requests that differ in the tags only are for one package. -/
def packageKey (request : String × Version) : String × Release :=
  (request.1, request.2.toRelease)

/-- Whether two requests are for the same package: the `==` of the keys under which `Session` keeps
its results. -/
def samePackage (a b : String × Version) : Bool :=
  decide (packageKey a = packageKey b)

@[simp] theorem samePackage_iff {a b : String × Version} :
    samePackage a b = true ↔ packageKey a = packageKey b := by
  simp [samePackage]

/-- A dependency as it is declared: a name, and what is required of the package. -/
abbrev Demand := String × Requirement

/-- The dependencies of a package, in order of name, which is the order in which
`load_constrained_all` goes through them. -/
def rangeDemands (ranges : NameMap Constraint) : List Demand :=
  ranges.toList.map fun (name, range) => (name, .within range)

/-- The dependencies of an application, the direct ones first and each group in order of name.  A
name that is in both groups is demanded twice. -/
def pinDemands (pins : ExactDependencies) : List Demand :=
  pins.toList.map fun (name, version) => (name, .pinned version)

namespace Manifest

/-- The runtime dependencies that are to be loaded.  The versions of a legacy manifest are recorded
elsewhere, so nothing is loaded for it. -/
def demands : Manifest → List Demand
  | .application declared => pinDemands declared.dependencies
  | .package declared => rangeDemands declared.dependencies
  | .legacy _ => []

/-- The test dependencies that are to be loaded.  Only the manifest that a run starts from is asked
for them: the packages that it leads to are resolved without. -/
def testDemands : Manifest → List Demand
  | .application declared => pinDemands declared.testDependencies
  | .package declared => rangeDemands declared.testDependencies
  | .legacy _ => []

/-- What the project of a manifest declares.  There are only two kinds left: a legacy manifest has
become the application that it stands for. -/
def declaration : Manifest → Declaration
  | .application declared => .application declared
  | .package declared => .package declared
  | .legacy declared => .application declared.toApplication

end Manifest

/-! ## Asking and reading -/

namespace Sources

/-- Reads the manifest at a path.  A file that cannot be read and bytes that are no manifest are
both failures at this path. -/
def readManifest (sources : Sources) (path : Path) : Except LoadError Manifest := do
  let bytes ← (sources.read path).mapError (·.at path)
  Manifest.decode path bytes

/-- Reads the manifest of a dependency, as `load_package` does after it has found it: a dependency
must be a package, whatever else can be decoded. -/
def readPackage (sources : Sources) (name : String) (path : Path) : Except LoadError Package := do
  match ← sources.readManifest path with
  | .package declared => return declared
  | _ => throw (.schemaMismatch path (.notAPackage name))

/-- The version to load for a demand: the pinned one (`load_exact`), or the smallest available one
in the range (`load_constrained`).  Only a range asks the repository, and only a range can fail
here, either because nothing is there or because nothing that is there fits. -/
def select (sources : Sources) (name : String) : Requirement → Except LoadError Version
  | .pinned version => .ok version
  | .within range =>
    let available := (sources.repository.versions name).toList
    match range.selectMinimum available with
    | some version => .ok version
    | none =>
      .error (.unresolvedDependency name (.within range)
        (if available = [] then .noVersions else .noneSatisfies available))

/-- The part of `load_package` that deals with one manifest: looks the package up at exactly the
selected version and reads what was found.  The requirement is there for the message alone. -/
def fetch (sources : Sources) (name : String) (version : Version) (requirement : Requirement) :
    Except LoadError (Path × Package) :=
  match sources.repository.find name version with
  | none => .error (.unresolvedDependency name requirement (.noManifest version))
  | some path => (sources.readPackage name path).map fun declared => (path, declared)

end Sources

/-! ## What a run remembers -/

/-- The result that is kept for a package among packages that are done: a look-up in `resolved`.
The newest entry comes first, but no package is ever entered twice. -/
def kept? (done : List ((String × Version) × Project)) (request : String × Version) :
    Option Project :=
  (done.find? fun entry => samePackage entry.1 request).map Prod.snd

/-- The chain from a package on, and that package again, as the message about a cycle shows it; none
if the package is not in the chain.  What stands in front of the package in `in_progress` leads to
the cycle and is not part of it. -/
def closedChain? (chain : List (String × Version)) (request : String × Version) :
    Option (List (String × Version)) :=
  match chain with
  | [] => none
  | link :: rest =>
    if samePackage link request then some (link :: (rest ++ [request]))
    else closedChain? rest request

/-- What a run remembers: the `Session` that all calls of `load_package` share, together with a
record of the questions and the warnings, which the statements about runs are made of. -/
structure Session where
  /-- The packages under way, each needed by the one in front of it. -/
  inProgress : List (String × Version)
  /-- The packages that are done. -/
  resolved : List ((String × Version) × Project)
  /-- The questions that have been asked, in order. -/
  calls : List Query
  /-- The warnings that have been given, in order. -/
  warnings : List Warning

namespace Session

/-- Nothing yet.  The manifest that a run starts from is not under way either: a dependency on it is
looked up like any other. -/
def empty : Session := ⟨[], [], [], []⟩

/-- Takes note of a question.  Questions are only ever added at the end, also by calls that fail. -/
def ask (s : Session) (query : Query) : Session :=
  { s with calls := s.calls ++ [query] }

/-- Takes note of the question that comes before a version is selected; a pinned version needs
none. -/
def askFor (s : Session) : Demand → Session
  | (_, .pinned _) => s
  | (name, .within _) => s.ask (.versions name)

/-- Warns of a manifest that declares another package than the one it was found for.  The package is
used all the same, under the name and version that were requested. -/
def check (s : Session) (request : String × Version) (path : Path) (declared : Package) :
    Session :=
  if samePackage (declared.name, declared.version) request then s
  else { s with
    warnings := s.warnings ++ [.otherPackage request (declared.name, declared.version) path] }

/-- Puts a package under way, behind the one that needs it. -/
def enter (s : Session) (request : String × Version) : Session :=
  { s with inProgress := s.inProgress ++ [request] }

/-- Takes back the package that was put under way last.  This happens before the outcome of its
dependencies is looked at, so also when one of them has failed. -/
def leave (s : Session) : Session :=
  { s with inProgress := s.inProgress.dropLast }

/-- Keeps the result for a package that is done, under the version that was requested and not the
one that its manifest declares. -/
def finish (s : Session) (request : String × Version) (project : Project) : Session :=
  { s with resolved := (request, project) :: s.resolved }

/-- Notes the look-up of a package and puts it under way with the manifest that was found: all that
`load_package` does between the look-up and the dependencies. -/
def start (s : Session) (request : String × Version) (path : Path) (declared : Package) :
    Session :=
  ((s.ask (.find request.1 request.2)).check request path declared).enter request

/-- Ends the loading of a package when what it depends on has been loaded, or has failed to.  The
package is not under way any more in either case, and only a success is kept. -/
def conclude (s : Session) (request : String × Version) (path : Path) (declared : Package) :
    Except LoadError (List Project) → Except LoadError Project × Session
  | .error error => (.error error, s.leave)
  | .ok dependencies =>
    let project := ⟨path, .package declared, dependencies, []⟩
    (.ok project, s.leave.finish request project)

section Fields

variable (s : Session) (query : Query) (demand : Demand) (request : String × Version)
  (project : Project) (path : Path) (declared : Package)

@[simp] theorem inProgress_ask : (s.ask query).inProgress = s.inProgress := rfl

@[simp] theorem resolved_ask : (s.ask query).resolved = s.resolved := rfl

@[simp] theorem calls_ask : (s.ask query).calls = s.calls ++ [query] := rfl

@[simp] theorem inProgress_askFor : (s.askFor demand).inProgress = s.inProgress := by
  obtain ⟨name, requirement⟩ := demand
  cases requirement <;> rfl

@[simp] theorem resolved_askFor : (s.askFor demand).resolved = s.resolved := by
  obtain ⟨name, requirement⟩ := demand
  cases requirement <;> rfl

@[simp] theorem inProgress_check : (s.check request path declared).inProgress = s.inProgress := by
  unfold check
  split <;> rfl

@[simp] theorem resolved_check : (s.check request path declared).resolved = s.resolved := by
  unfold check
  split <;> rfl

@[simp] theorem calls_check : (s.check request path declared).calls = s.calls := by
  unfold check
  split <;> rfl

@[simp] theorem inProgress_start :
    (s.start request path declared).inProgress = s.inProgress ++ [request] := by
  simp [start, enter]

@[simp] theorem resolved_start : (s.start request path declared).resolved = s.resolved := by
  simp [start, enter]

@[simp] theorem calls_start :
    (s.start request path declared).calls = s.calls ++ [.find request.1 request.2] := by
  simp [start, enter]

@[simp] theorem inProgress_leave : s.leave.inProgress = s.inProgress.dropLast := rfl

@[simp] theorem resolved_leave : s.leave.resolved = s.resolved := rfl

@[simp] theorem calls_leave : s.leave.calls = s.calls := rfl

@[simp] theorem inProgress_finish : (s.finish request project).inProgress = s.inProgress := rfl

@[simp] theorem resolved_finish :
    (s.finish request project).resolved = (request, project) :: s.resolved := rfl

@[simp] theorem calls_finish : (s.finish request project).calls = s.calls := rfl

end Fields

end Session

/-! ## Runs -/

namespace Sources

/-- Loads a package for each demand, up to the first that fails, when single packages are loaded by
`load`: the loop of `load_constrained_all`, and the loops over pinned versions around `load_exact`.
The function for single packages is a parameter so that the recursion below is on the depth
alone. -/
def loadEach (sources : Sources)
    (load : String → Version → Requirement → Session →
      Option (Except LoadError Project × Session)) :
    List Demand → Session → Option (Except LoadError (List Project) × Session)
  | [], s => some (.ok [], s)
  | (name, requirement) :: rest, s =>
    let s := s.askFor (name, requirement)
    match sources.select name requirement with
    | .error error => some (.error error, s)
    | .ok version => do
      match ← load name version requirement s with
      | (.error error, s) => return (.error error, s)
      | (.ok project, s) =>
        let (outcome, s) ← sources.loadEach load rest s
        return (outcome.map (project :: ·), s)

/-- Loads a package with all it depends on, as long as no more than `depth` packages have to be put
under way inside each other: `load_package`.  It looks at the kept results first, then for a cycle,
and asks the repository last; the depth is spent only where a package is put under way, so a run
that needs no more of them is the run without a bound. -/
def loadWithin (sources : Sources) (depth : Nat) (name : String) (version : Version)
    (requirement : Requirement) (s : Session) : Option (Except LoadError Project × Session) :=
  match kept? s.resolved (name, version) with
  | some project => some (.ok project, s)
  | none =>
    match closedChain? s.inProgress (name, version) with
    | some chain => some (.error (.dependencyCycle chain), s)
    | none =>
      match sources.fetch name version requirement with
      | .error error => some (.error error, s.ask (.find name version))
      | .ok (path, declared) =>
        match depth with
        | 0 => none
        | depth + 1 => do
          let (outcome, s) ← sources.loadEach (sources.loadWithin depth)
            (rangeDemands declared.dependencies) (s.start (name, version) path declared)
          return s.conclude (name, version) path declared outcome

/-- Loads a package with all it depends on, however deep that leads; none if it leads on for
ever. -/
def load (sources : Sources) (name : String) (version : Version) (requirement : Requirement)
    (s : Session) : Option (Except LoadError Project × Session) :=
  eventual fun depth => sources.loadWithin depth name version requirement s

/-- Loads a package for each demand with all it depends on, up to the first that fails.  One bound
serves for all the demands, since a larger one never changes what a smaller one gave. -/
def loadAll (sources : Sources) (demands : List Demand) (s : Session) :
    Option (Except LoadError (List Project) × Session) :=
  eventual fun depth => sources.loadEach (sources.loadWithin depth) demands s

/-- Loads all that a manifest depends on, the test dependencies last unless they are ignored, and
makes a project of the manifest: `resolve_manifest` for the manifest that the run starts from. -/
def loadManifest (sources : Sources) (ignoreTests : Bool) (path : Path) (manifest : Manifest)
    (s : Session) : Option (Except LoadError Project × Session) := do
  match ← sources.loadAll manifest.demands s with
  | (.error error, s) => return (.error error, s)
  | (.ok dependencies, s) =>
    let (outcome, s) ← sources.loadAll (if ignoreTests then [] else manifest.testDemands) s
    return (outcome.map fun tests => ⟨path, manifest.declaration, dependencies, tests⟩, s)

end Sources

/-! ## Outcomes -/

/-- What comes of a run, and what was asked and warned about on the way.  The record is there for
failures as well. -/
structure Outcome where
  /-- The resolved project, or why there is none. -/
  result : Except LoadError Project
  /-- The questions that were asked, in order. -/
  calls : List Query
  /-- The warnings that were given, in order. -/
  warnings : List Warning

/-- The outcome of a run that failed before it asked anything. -/
def Outcome.failed (error : LoadError) : Outcome := ⟨.error error, [], []⟩

/-- Resolves a manifest that was read at a path, with its test dependencies or, as after
`ignore_test_deps`, without them; none if the run does not end.  Every run starts with an empty
session, so nothing is shared between two of them. -/
def resolve? (sources : Sources) (ignoreTests : Bool) (path : Path) (manifest : Manifest) :
    Option Outcome :=
  (sources.loadManifest ignoreTests path manifest .empty).map fun (result, s) =>
    ⟨result, s.calls, s.warnings⟩

/-- Resolves a manifest that was read at a path: `resolve`.  A run that does not end never gets to
the failure that stands in for its outcome. -/
def resolve (sources : Sources) (ignoreTests : Bool) (path : Path) (manifest : Manifest) :
    Outcome :=
  (resolve? sources ignoreTests path manifest).getD (.failed (.dependencyCycle []))

end ElmManifest
