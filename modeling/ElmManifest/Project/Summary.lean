import ElmManifest.Project.Basic

/-!
# Summaries

A summary shows what a project is and the tree of what it depends on.

## Main Definitions

* `Project.summary` — the text.
* `Project.treeLines` — a dependency and what is below it, one line each.

## Design Notes

A package that several others depend on is shown in full where it comes first.  Later it has one
line, marked if something was below it.  What is the same package is told by the place of its
manifest.
-/

namespace ElmManifest

namespace Project

/-- The places of the manifests shown in full so far: `expanded`. -/
abbrev Shown := List (List Component)

/-- The line of a dependency: two blanks for each level, the name, the version, and the mark for
what has been shown before. -/
def treeLine (depth : Nat) (p : Project) (marked : Bool) : String :=
  String.join (List.replicate depth "  ") ++ p.packageName?.getD "?" ++ " " ++
    (p.packageVersion?.elim "" Version.text) ++ (if marked then " (*)" else "")

mutual

/-- A dependency and what is below it: `render_dependency`.  Where the place of its manifest has
been shown before there is one line only, marked if something is left out; else its dependencies
follow one level deeper. -/
def treeLines (depth : Nat) : Project → Shown → List String × Shown
  | ⟨path, declaration, dependencies, tests⟩, shown =>
    let p : Project := ⟨path, declaration, dependencies, tests⟩
    if path.components ∈ shown then ([treeLine depth p (!dependencies.isEmpty)], shown)
    else
      let (below, shown) := forestLines (depth + 1) dependencies (path.components :: shown)
      (treeLine depth p false :: below, shown)

/-- Dependencies and what is below them, one after the other: what the first one shows, the next one
does not show again. -/
def forestLines (depth : Nat) : List Project → Shown → List String × Shown
  | [], shown => ([], shown)
  | p :: rest, shown =>
    let (lines, shown) := treeLines depth p shown
    let (more, shown) := forestLines depth rest shown
    (lines ++ more, shown)

end

/-- A section of dependencies: `render_section`.  A section of none is said in one line. -/
def sectionLines (title : String) (dependencies : List Project) (shown : Shown) :
    List String × Shown :=
  match dependencies with
  | [] => (["  " ++ title ++ ": none"], shown)
  | dependencies =>
    let (lines, shown) := forestLines 2 dependencies shown
    (("  " ++ title ++ ":") :: lines, shown)

/-- The kind of a project. -/
def kindName (p : Project) : String :=
  if p.isPackage then "package" else "application"

/-- The first line of a summary: the name and version of a package, and the presentable name of an
application. -/
def headline (p : Project) : String :=
  match p.package? with
  | some declared => declared.name ++ " " ++ declared.version.text ++ " (" ++ p.kindName ++ ")"
  | none => p.presentableName ++ " (" ++ p.kindName ++ ")"

/-- The lines of a summary.  What was shown among the runtime dependencies is not shown again among
the test dependencies. -/
def summaryLines (p : Project) : List String :=
  let (dependencies, shown) := sectionLines "dependencies" p.dependencies []
  let (tests, _) := sectionLines "test dependencies" p.testDependencies shown
  [p.headline, "  manifest: " ++ p.manifestPath.text, "  elm version: " ++ p.elmVersionText,
    "  source directories:"] ++
  (p.sourceDirectories.map fun directory => "    " ++ directory.text) ++
  ["  test directory: " ++ p.testDirectory.text] ++
  (if p.exposedModules = [] then []
    else ["  exposed modules: " ++ ", ".intercalate p.exposedModules]) ++
  dependencies ++ tests

/-- Each line with a line end behind it. -/
def unlines (lines : List String) : String :=
  String.join (lines.map fun line => line ++ "\n")

/-- What a project is, and the tree of what it depends on: `render`. -/
def summary (p : Project) : String :=
  unlines p.summaryLines

end Project

end ElmManifest
