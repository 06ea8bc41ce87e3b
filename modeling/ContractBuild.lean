import ContractBuild.Artifact.Reading
import ContractBuild.Artifact.Written
import ContractBuild.CommandLine
import ContractBuild.Compiler.Outline
import ContractBuild.Compiler.Programs
import ContractBuild.Dependents
import ContractBuild.FileTree.Snapshot
import ContractBuild.Main
import ContractBuild.Project
import ContractBuild.Project.Standalone
import ContractBuild.Staleness
import ContractBuild.Proofs.Names
import ContractBuild.Proofs.Reachability
import ContractBuild.Proofs.Rebuild
import ContractBuild.Proofs.Answers
import ContractBuild.Proofs.Reuse
import ContractBuild.Proofs.FileNames
import ContractBuild.Proofs.FileTree
import ContractBuild.Proofs.FileChanges
import ContractBuild.Proofs.Loading
import ContractBuild.Proofs.JsonDigits
import ContractBuild.Proofs.JsonStrings
import ContractBuild.Proofs.JsonText
import ContractBuild.Proofs.ArtifactText
import ContractBuild.Proofs.JsonKeys
import ContractBuild.Proofs.CanonicalText
import ContractBuild.Proofs.Storing
import ContractBuild.Proofs.Loads
import ContractBuild.Proofs.Opening
import ContractBuild.Proofs.Agreement
import ContractBuild.Proofs.Copies
import ContractBuild.Proofs.Planning
import ContractBuild.Proofs.Discards
import ContractBuild.Proofs.Repeated
import ContractBuild.Proofs.Lifecycle
import ContractBuild.Proofs.Sessions
import ContractBuild.Proofs.FailedLoads
import ContractBuild.Proofs.History
import ContractBuild.Proofs.Identifiers
import ContractBuild.Proofs.Retry
import ContractBuild.Proofs.Scanning
import ContractBuild.Proofs.LookAhead
import ContractBuild.Proofs.Lexing
import ContractBuild.Proofs.Scopes
import ContractBuild.Proofs.Replacing
import ContractBuild.Proofs.Spans
import ContractBuild.Proofs.Fingerprints
import ContractBuild.Proofs.Propagation
import ContractBuild.Proofs.Worklist
import ContractBuild.Proofs.Siblings
import ContractBuild.Proofs.Characters
import ContractBuild.Proofs.Pieces
import ContractBuild.Proofs.Grammar
import ContractBuild.Proofs.FileScope
import ContractBuild.Proofs.Frames
import ContractBuild.Proofs.Lexemes
import ContractBuild.Proofs.Minifying
import ContractBuild.Proofs.NormalForm
import ContractBuild.Proofs.MinifiedUnits
import ContractBuild.Proofs.Reformatting
import ContractBuild.Proofs.Entries
import ContractBuild.Proofs.Healing
import ContractBuild.Proofs.Reloading
import ContractBuild.Proofs.Confinement
import ContractBuild.Proofs.OpenSettings
import ContractBuild.Proofs.LeastPaths
import ContractBuild.Proofs.SourceTrees
import ContractBuild.Proofs.Duplicates
import ContractBuild.Proofs.Filing
import ContractBuild.Proofs.OwnNames
import ContractBuild.Proofs.Orphans
import ContractBuild.Proofs.Handles
import ContractBuild.Proofs.Requests
import ContractBuild.Proofs.StatusReports
import ContractBuild.Proofs.DigestText
import ContractBuild.Proofs.Standing
import ContractBuild.Proofs.SuppliedSettings
import ContractBuild.Proofs.DeletionReports
import ContractBuild.Proofs.Ends
import ContractBuild.Proofs.Rounds
import ContractBuild.Proofs.Comments
import ContractBuild.Proofs.Boundaries
