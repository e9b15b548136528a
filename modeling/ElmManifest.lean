import ElmManifest.Cache
import ElmManifest.CommandLine.Arguments
import ElmManifest.CommandLine.Run
import ElmManifest.Config.Basic
import ElmManifest.Config.Reader
import ElmManifest.Constraint
import ElmManifest.Eventual
import ElmManifest.FileTree
import ElmManifest.Glob
import ElmManifest.Json.Reader
import ElmManifest.Json.Skipping
import ElmManifest.Json.Value
import ElmManifest.Json.Writer
import ElmManifest.Main
import ElmManifest.Manifest.Basic
import ElmManifest.Manifest.Decode
import ElmManifest.Manifest.ExposedModules
import ElmManifest.Manifest.Fault
import ElmManifest.Manifest.Schema
import ElmManifest.Manifest.TypedPass
import ElmManifest.Manifest.Writer
import ElmManifest.NameMap
import ElmManifest.Number.Binary64
import ElmManifest.Number.Shortest
import ElmManifest.OsPath
import ElmManifest.Path
import ElmManifest.Pattern
import ElmManifest.Project.Basic
import ElmManifest.Project.Load
import ElmManifest.Project.Summary
import ElmManifest.Proofs.Cache.Confinement
import ElmManifest.Proofs.Cache.Entries
import ElmManifest.Proofs.Cache.Listing
import ElmManifest.Proofs.Cache.Matching
import ElmManifest.Proofs.CommandLine.Endings
import ElmManifest.Proofs.Config.Layers
import ElmManifest.Proofs.Constraint.Acceptance
import ElmManifest.Proofs.Constraint.Minimum
import ElmManifest.Proofs.Constraint.Reading
import ElmManifest.Proofs.Constraint.Spelling
import ElmManifest.Proofs.FileTree.Agreement
import ElmManifest.Proofs.FileTree.Globbing
import ElmManifest.Proofs.FileTree.Looking
import ElmManifest.Proofs.Json.Skipping
import ElmManifest.Proofs.Json.Writing
import ElmManifest.Proofs.Manifest.Accepted
import ElmManifest.Proofs.Manifest.Agreement
import ElmManifest.Proofs.Manifest.Failures
import ElmManifest.Proofs.Manifest.Fields
import ElmManifest.Proofs.Manifest.FirstOffence
import ElmManifest.Proofs.Manifest.Offence
import ElmManifest.Proofs.Manifest.Rearranging
import ElmManifest.Proofs.Manifest.Shapes
import ElmManifest.Proofs.Manifest.TypedFields
import ElmManifest.Proofs.Manifest.TypedPass
import ElmManifest.Proofs.Manifest.Writing
import ElmManifest.Proofs.Path.Ancestors
import ElmManifest.Proofs.Path.Bytes
import ElmManifest.Proofs.Path.Joining
import ElmManifest.Proofs.Path.Normalizing
import ElmManifest.Proofs.Path.Segments
import ElmManifest.Proofs.Path.Walking
import ElmManifest.Proofs.Project.Compilers
import ElmManifest.Proofs.Project.Dependencies
import ElmManifest.Proofs.Project.Directories
import ElmManifest.Proofs.Project.Forest
import ElmManifest.Proofs.Project.Legacy
import ElmManifest.Proofs.Project.Listing
import ElmManifest.Proofs.Project.Loading
import ElmManifest.Proofs.Project.Locating
import ElmManifest.Proofs.Project.Sidecar
import ElmManifest.Proofs.Resolution.Afresh
import ElmManifest.Proofs.Resolution.Cycle
import ElmManifest.Proofs.Resolution.Failures
import ElmManifest.Proofs.Resolution.IgnoredTests
import ElmManifest.Proofs.Resolution.Lookups
import ElmManifest.Proofs.Resolution.Mismatches
import ElmManifest.Proofs.Resolution.NewerVersions
import ElmManifest.Proofs.Resolution.RootCycle
import ElmManifest.Proofs.Resolution.Run
import ElmManifest.Proofs.Resolution.Sharing
import ElmManifest.Proofs.Resolution.Steps
import ElmManifest.Proofs.Resolution.Tags
import ElmManifest.Proofs.Resolution.Termination
import ElmManifest.Proofs.Resolution.TestDependencies
import ElmManifest.Proofs.Resolution.Tree
import ElmManifest.Proofs.Selection
import ElmManifest.Proofs.Success
import ElmManifest.Proofs.Text.ByteOrder
import ElmManifest.Proofs.Text.Escaping
import ElmManifest.Proofs.Version.Language
import ElmManifest.Proofs.Version.Order
import ElmManifest.Proofs.Version.Reading
import ElmManifest.Repository
import ElmManifest.Resolution
import ElmManifest.Text.Blank
import ElmManifest.Text.Digits
import ElmManifest.Text.Quoted
import ElmManifest.Text.Split
import ElmManifest.Text.Unprintable
import ElmManifest.Text.Utf8
import ElmManifest.Version.Basic
import ElmManifest.Version.Reader
import ElmManifest.Version.Spelling
