import ElmManifest.FileTree
import ElmManifest.Version.Reader

/-!
# Repositories

Resolution asks two things only: which versions of a package there are, and where the manifest of a
version is.

## Main Definitions

* `Repository` — answers to these questions.
* `Repository.ofTable` — a repository that is written down.

## Design Notes

Nothing is asked of the answers.  A repository may say that it has versions which it has no manifest
for, may have a manifest for every version there can be, and may find one manifest or several by the
spellings of one version.
-/

namespace ElmManifest

/-- Where the manifests of packages are: the two methods of `PackageRepository`, as functions.  That
they are functions says that a repository answers a question in one way during a run. -/
structure Repository where
  /-- The manifest of a package at a version, if there is one. -/
  find : String → Version → Option Path
  /-- The versions of a package. -/
  versions : String → VersionSet

/-- The repository with the listed manifests and versions.  It answers by the spelling of a version,
so that one spelling may be there and another one not. -/
def Repository.ofTable (manifests : List ((String × String) × Path))
    (versions : NameMap VersionSet) : Repository where
  find name version := manifests.lookup (name, version.text)
  versions name := (versions.find? name).getD .empty

end ElmManifest
