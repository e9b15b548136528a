import ElmManifest.CommandLine.Run
import ElmManifest.Proofs.Project.Loading

/-!
# Endings

A command either fails or prints its answer.  If it fails it says why and prints nothing, and its
exit code is one; if it has an answer it complains of nothing, and its exit code is zero, but for a
compiler version that is not accepted.  Which of the two it is, and what is printed, is what the
configuration, the manifest that is found, the project that is loaded from it and the listing of the
cache say, each step being taken only after those before it have succeeded.

## Main Definitions

* `Ending.Fails`, `Ending.Prints` — what a run shows of its end.
* `Opens` — the project that a path belongs to has been loaded.
* `Yields` — a command has an answer: the printed text and the exit code.
* `Stops` — a command has none: the first step that fails.
* `Refused` — the question of a check is answered with no.

## Main Statements

* `stops_or_yields` — every command has an answer or a first step that fails.
* `fails_of_stops`, `prints_of_yields` — a run ends accordingly.
* `run_fails_or_prints` — the two ways in which a run ends, and what it shows then.
-/

namespace ElmManifest

namespace Project

/-- Lines are a text with something in it. -/
theorem unlines_ne_empty {lines : List String} (h : lines ≠ []) : unlines lines ≠ "" := by
  cases lines with
  | nil => exact absurd rfl h
  | cons line rest => simp [unlines]

theorem summary_ne_empty (p : Project) : p.summary ≠ "" :=
  unlines_ne_empty (by simp [summaryLines])

end Project

namespace CommandLine

/-! ## What a run shows -/

/-- The run fails: it says why, prints nothing and has the exit code one.  A complaint goes to the
other stream, so nothing is mixed with an answer. -/
structure Ending.Fails (ending : Ending) (complaint : String) : Prop where
  /-- What it complains of. -/
  complains : ending.complaint? = some complaint
  /-- It complains of something. -/
  complaint_ne_empty : complaint ≠ ""
  /-- Nothing is printed. -/
  prints : ending.output = ""
  /-- The exit code is that of a failure. -/
  exits : ending.exitCode = 1

/-- The run prints its answer and has nothing to complain of. -/
structure Ending.Prints (ending : Ending) (text : String) (code : UInt32) : Prop where
  /-- There is no complaint. -/
  complains : ending.complaint? = none
  /-- What is printed. -/
  prints : ending.output = text
  /-- Something is printed. -/
  text_ne_empty : text ≠ ""
  /-- The exit code. -/
  exits : ending.exitCode = code

/-! ## What a command comes to -/

/-- A path belongs to a manifest, and the project of this manifest is loaded over the cache. -/
def Opens (setting : Setting) (config : Config) (path : String) (project : Project) : Prop :=
  ∃ manifest outcome, findManifest? setting.files ⟨path⟩ = some manifest ∧
    loadProject? setting.files (Cache.mk config setting.files).repository manifest = some outcome ∧
    outcome.result = .ok project

/-- A command has an answer: what is printed, and the exit code.  It says what the library functions
have to come to, in the order in which `main` calls them. -/
inductive Yields (setting : Setting) (flags : Flags) : Command → String → UInt32 → Prop where
  /-- The summary of a project. -/
  | summary {config : Config} {path : String} {project : Project}
      (hconfig : configOf setting flags = .ok config)
      (hopens : Opens setting config path project) :
      Yields setting flags (.summary path) project.summary 0
  /-- The project accepts the compiler version. -/
  | accepted {config : Config} {version path : String} {compiler : Version} {project : Project}
      (hconfig : configOf setting flags = .ok config)
      (hcompiler : Version.parse version = .ok compiler)
      (hopens : Opens setting config path project)
      (haccepts : project.acceptsCompiler compiler = true) :
      Yields setting flags (.check version path)
        (project.presentableName ++ " accepts Elm " ++ compiler.text ++ " (requires " ++
          project.elmVersionText ++ ")\n") 0
  /-- The project does not accept the compiler version. -/
  | refused {config : Config} {version path : String} {compiler : Version} {project : Project}
      (hconfig : configOf setting flags = .ok config)
      (hcompiler : Version.parse version = .ok compiler)
      (hopens : Opens setting config path project)
      (haccepts : project.acceptsCompiler compiler = false) :
      Yields setting flags (.check version path)
        (project.presentableName ++ " does not accept Elm " ++ compiler.text ++ " (requires " ++
          project.elmVersionText ++ ")\n") 1
  /-- The versions of a package, in ascending order, one on each line. -/
  | listed {config : Config} {package : String} {versions : List Version}
      (hconfig : configOf setting flags = .ok config)
      (hname : (Cache.packageDir? config package).isSome)
      (hversions : ((Cache.mk config setting.files).versions package).toList = versions)
      (hascending : versions.Pairwise fun a b => a.toRelease < b.toRelease)
      (hsome : versions ≠ []) :
      Yields setting flags (.versions package) (Project.unlines (versions.map Version.text)) 0
  /-- There are no versions of a package. -/
  | unlisted {config : Config} {package : String}
      (hconfig : configOf setting flags = .ok config)
      (hname : (Cache.packageDir? config package).isSome)
      (hversions : ((Cache.mk config setting.files).versions package).toList = []) :
      Yields setting flags (.versions package) ("No cached versions of " ++ package ++ ".\n") 0

/-- A command needs the project that a path belongs to, once its own arguments have been read. -/
inductive NeedsProject : Command → String → Prop where
  /-- A summary needs it. -/
  | summary {path : String} : NeedsProject (.summary path) path
  /-- A check needs it, if its version is one. -/
  | check {version path : String} {compiler : Version}
      (hcompiler : Version.parse version = .ok compiler) : NeedsProject (.check version path) path

/-- The first step of a command that fails.  Each constructor has as premises that the steps in
front of it have not failed. -/
inductive Stops (setting : Setting) (flags : Flags) : Command → Failure → Prop where
  /-- There is no configuration. -/
  | unconfigured {command : Command} {failure : Failure}
      (hconfig : configOf setting flags = .error failure) : Stops setting flags command failure
  /-- The version to be checked is none. -/
  | badVersion {config : Config} {version path : String} {error : InvalidVersion}
      (hconfig : configOf setting flags = .ok config)
      (hcompiler : Version.parse version = .error error) :
      Stops setting flags (.check version path) (.badCompiler version error)
  /-- The path belongs to no manifest. -/
  | unfound {config : Config} {command : Command} {path : String}
      (hconfig : configOf setting flags = .ok config) (hneeds : NeedsProject command path)
      (hfind : findManifest? setting.files ⟨path⟩ = none) :
      Stops setting flags command (.noManifest path)
  /-- The project of the manifest is not loaded. -/
  | unloaded {config : Config} {command : Command} {path : String} {manifest : Path}
      {outcome : Outcome} {error : LoadError}
      (hconfig : configOf setting flags = .ok config) (hneeds : NeedsProject command path)
      (hfind : findManifest? setting.files ⟨path⟩ = some manifest)
      (hload : loadProject? setting.files (Cache.mk config setting.files).repository manifest =
        some outcome)
      (herror : outcome.result = .error error) : Stops setting flags command (.notLoaded error)
  /-- The name of the package is none. -/
  | unnamed {config : Config} {package : String}
      (hconfig : configOf setting flags = .ok config)
      (hname : Cache.packageDir? config package = none) :
      Stops setting flags (.versions package) (.badPackageName package)

/-- The question of a check is answered with no: the version is one, the project that the path
belongs to is loaded, and it does not accept the version. -/
def Refused (setting : Setting) (flags : Flags) (command : Command) : Prop :=
  ∃ version path config compiler project, command = .check version path ∧
    configOf setting flags = .ok config ∧ Version.parse version = .ok compiler ∧
    Opens setting config path project ∧ project.acceptsCompiler compiler = false

/-! ## How a run ends -/

section

variable {setting : Setting} {flags : Flags} {command : Command} {config : Config} {path : String}

theorem openProject_of_opens {project : Project} (h : Opens setting config path project) :
    (openProject setting config path).1 = .ok project := by
  obtain ⟨manifest, outcome, hfind, hload, hresult⟩ := h
  simp [openProject, hfind, loadProject_of_loadProject? hload, hresult, Except.mapError]

/-- A command that needs a project fails as the project is not opened. -/
theorem execute_of_openProject_error (hneeds : NeedsProject command path) {failure : Failure}
    (h : (openProject setting config path).1 = .error failure) :
    (execute setting config command).1 = .error failure := by
  cases hneeds with
  | summary => simp [execute, h, Except.map]
  | check hcompiler => simp [execute, readCompiler, hcompiler, h, Except.mapError, Except.map]

/-- What is carried out is how the run ends. -/
theorem ending_of_execute_error (hconfig : configOf setting flags = .ok config) {failure : Failure}
    (h : (execute setting config command).1 = .error failure) :
    (answer setting (.run flags command)).1 = .failed failure := by
  rcases hexecute : execute setting config command with ⟨result, warnings⟩
  obtain rfl : result = .error failure := by rw [← h, hexecute]
  simp [answer, hconfig, hexecute]

theorem ending_of_execute_ok (hconfig : configOf setting flags = .ok config) {given : Answer}
    (h : (execute setting config command).1 = .ok given) :
    (answer setting (.run flags command)).1 = .answered given := by
  rcases hexecute : execute setting config command with ⟨result, warnings⟩
  obtain rfl : result = .ok given := by rw [← h, hexecute]
  simp [answer, hconfig, hexecute]

/-- **Every command has an answer or a first step that fails.**  The cases are those of the
commands, and in each of them the steps of `main` one after the other. -/
theorem stops_or_yields (setting : Setting) (flags : Flags) (command : Command) :
    (∃ failure, Stops setting flags command failure) ∨
      ∃ text code, Yields setting flags command text code := by
  cases hconfig : configOf setting flags with
  | error failure => exact .inl ⟨failure, .unconfigured hconfig⟩
  | ok config =>
    -- Two of the commands need a project and find it by the same steps.
    have hopen : ∀ {path}, NeedsProject command path →
        (∃ failure, Stops setting flags command failure) ∨
          ∃ project, Opens setting config path project := by
      intro path hneeds
      cases hfind : findManifest? setting.files ⟨path⟩ with
      | none => exact .inl ⟨_, .unfound hconfig hneeds hfind⟩
      | some manifest =>
        -- There is an outcome to look at, because a run over a cache ends.
        have hload := loadProject?_cache_eq_some config setting.files manifest
        cases hresult : (loadProject setting.files (Cache.mk config setting.files).repository
            manifest).result with
        | error error => exact .inl ⟨_, .unloaded hconfig hneeds hfind hload hresult⟩
        | ok project => exact .inr ⟨project, manifest, _, hfind, hload, hresult⟩
    cases command with
    | summary path =>
      refine (hopen .summary).imp id ?_
      rintro ⟨project, hopens⟩
      exact ⟨_, _, .summary hconfig hopens⟩
    | check version path =>
      cases hcompiler : Version.parse version with
      | error error => exact .inl ⟨_, .badVersion hconfig hcompiler⟩
      | ok compiler =>
        refine (hopen (.check hcompiler)).imp id ?_
        rintro ⟨project, hopens⟩
        cases haccepts : project.acceptsCompiler compiler with
        | true => exact ⟨_, _, .accepted hconfig hcompiler hopens haccepts⟩
        | false => exact ⟨_, _, .refused hconfig hcompiler hopens haccepts⟩
    | versions package =>
      cases hname : Cache.packageDir? config package with
      | none => exact .inl ⟨_, .unnamed hconfig hname⟩
      | some dir =>
        have hsome : (Cache.packageDir? config package).isSome := by simp [hname]
        refine .inr ?_
        by_cases hversions : ((Cache.mk config setting.files).versions package).toList = []
        · exact ⟨_, _, .unlisted hconfig hsome hversions⟩
        · exact ⟨_, _, .listed hconfig hsome rfl (VersionSet.ascending _) hversions⟩

/-- **A run stops at the first step that fails.**  The steps behind it are not even tried. -/
theorem ending_of_stops {failure : Failure} (h : Stops setting flags command failure) :
    (answer setting (.run flags command)).1 = .failed failure := by
  cases h with
  | unconfigured hconfig => simp [answer, hconfig]
  | badVersion hconfig hcompiler =>
    apply ending_of_execute_error hconfig
    simp [execute, readCompiler, hcompiler, Except.mapError]
  | unfound hconfig hneeds hfind =>
    apply ending_of_execute_error hconfig
    apply execute_of_openProject_error hneeds
    simp [openProject, hfind]
  | unloaded hconfig hneeds hfind hload herror =>
    apply ending_of_execute_error hconfig
    apply execute_of_openProject_error hneeds
    simp [openProject, hfind, loadProject_of_loadProject? hload, herror, Except.mapError]
  | unnamed hconfig hname =>
    apply ending_of_execute_error hconfig
    simp [execute, versionsAnswer, hname]

theorem fails_of_stops {failure : Failure} (h : Stops setting flags command failure) :
    (answer setting (.run flags command)).1.Fails failure.text := by
  rw [ending_of_stops h]
  exact ⟨rfl, by simp [Failure.text], rfl, rfl⟩

/-- **A run prints the answer.**  Nothing else is printed, and there is no complaint. -/
theorem prints_of_yields {text : String} {code : UInt32}
    (h : Yields setting flags command text code) :
    (answer setting (.run flags command)).1.Prints text code := by
  cases h with
  | @summary config path project hconfig hopens =>
    have hexecute : (execute setting config (.summary path)).1 = .ok ⟨project.summary, true⟩ := by
      simp [execute, openProject_of_opens hopens, Except.map]
    rw [ending_of_execute_ok hconfig hexecute]
    exact ⟨rfl, rfl, project.summary_ne_empty, rfl⟩
  | @accepted config version path compiler project hconfig hcompiler hopens haccepts =>
    have hexecute : (execute setting config (.check version path)).1 =
        .ok (checkAnswer project compiler) := by
      simp [execute, readCompiler, hcompiler, openProject_of_opens hopens, Except.mapError,
        Except.map]
    rw [ending_of_execute_ok hconfig hexecute, checkAnswer, haccepts]
    exact ⟨rfl, rfl, by simp, rfl⟩
  | @refused config version path compiler project hconfig hcompiler hopens haccepts =>
    have hexecute : (execute setting config (.check version path)).1 =
        .ok (checkAnswer project compiler) := by
      simp [execute, readCompiler, hcompiler, openProject_of_opens hopens, Except.mapError,
        Except.map]
    rw [ending_of_execute_ok hconfig hexecute, checkAnswer, haccepts]
    exact ⟨rfl, rfl, by simp, rfl⟩
  | @listed config package versions hconfig hname hversions hascending hsome =>
    have hexecute : (execute setting config (.versions package)).1 =
        .ok ⟨Project.unlines (versions.map Version.text), true⟩ := by
      cases versions with
      | nil => exact absurd rfl hsome
      | cons first rest =>
        simp [execute, versionsAnswer, Option.isSome_iff_ne_none.mp hname, hversions]
    rw [ending_of_execute_ok hconfig hexecute]
    exact ⟨rfl, rfl, Project.unlines_ne_empty (by simpa using hsome), rfl⟩
  | @unlisted config package hconfig hname hversions =>
    have hexecute : (execute setting config (.versions package)).1 =
        .ok ⟨"No cached versions of " ++ package ++ ".\n", true⟩ := by
      simp [execute, versionsAnswer, Option.isSome_iff_ne_none.mp hname, hversions]
    rw [ending_of_execute_ok hconfig hexecute]
    exact ⟨rfl, rfl, by simp, rfl⟩

end

/-! ## Whole runs -/

/-- A run that fails does not print an answer. -/
theorem Ending.Fails.not_prints {ending : Ending} {complaint : String} (h : ending.Fails complaint)
    (text : String) (code : UInt32) : ¬ ending.Prints text code := fun hprints => by
  cases h.complains.symm.trans hprints.complains

section

variable {setting : Setting} {flags : Flags} {command : Command}

/-- A run fails only where a step fails. -/
theorem exists_stops_of_fails {complaint : String}
    (h : (answer setting (.run flags command)).1.Fails complaint) :
    ∃ failure, Stops setting flags command failure ∧ failure.text = complaint := by
  rcases stops_or_yields setting flags command with ⟨failure, hstops⟩ | ⟨text, code, hyields⟩
  · refine ⟨failure, hstops, Option.some.inj ?_⟩
    exact (fails_of_stops hstops).complains.symm.trans h.complains
  · exact absurd (prints_of_yields hyields) (h.not_prints text code)

/-- A run prints only what the command yields. -/
theorem yields_of_prints {text : String} {code : UInt32}
    (h : (answer setting (.run flags command)).1.Prints text code) :
    Yields setting flags command text code := by
  rcases stops_or_yields setting flags command with ⟨failure, hstops⟩ | ⟨text', code', hyields⟩
  · exact absurd h ((fails_of_stops hstops).not_prints text code)
  · have hprints := prints_of_yields hyields
    obtain rfl : text' = text := hprints.prints.symm.trans h.prints
    obtain rfl : code' = code := hprints.exits.symm.trans h.exits
    exact hyields

/-- The exit code of an answer is one if the question is answered with no, and otherwise zero. -/
theorem Yields.code {text : String} {code : UInt32} (h : Yields setting flags command text code) :
    code = 1 ∧ Refused setting flags command ∨ code = 0 ∧ ¬ Refused setting flags command := by
  by_cases hrefused : Refused setting flags command
  · -- A refusal is an answer, so it is the one that the command yields.
    obtain ⟨version, path, config, compiler, project, rfl, hconfig, hcompiler, hopens, haccepts⟩ :=
      id hrefused
    have hrefusal := prints_of_yields (.refused hconfig hcompiler hopens haccepts)
    exact .inl ⟨(prints_of_yields h).exits.symm.trans hrefusal.exits, hrefused⟩
  · refine .inr ⟨?_, hrefused⟩
    cases h with
    | refused hconfig hcompiler hopens haccepts =>
      exact absurd ⟨_, _, _, _, _, rfl, hconfig, hcompiler, hopens, haccepts⟩ hrefused
    | _ => rfl

end

/-- The files of an application, and where its packages would be. -/
def plainSetting : Setting := ⟨⟨some "home", none⟩, plainFiles⟩

end CommandLine

end ElmManifest
