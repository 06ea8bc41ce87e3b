import ContractBuild.Digest
import ContractBuild.Json
import ContractBuild.NameSet

/-! What the compilation of one unit left behind: its code, its interface, and a record of what it
was made from. -/

namespace ContractBuild

inductive ArtifactKind where
  | contract
  | interface
  | library
  deriving DecidableEq, Repr, Inhabited

def ArtifactKind.label : ArtifactKind → String
  | .contract => "contract"
  | .interface => "interface"
  | .library => "library"

def ArtifactKind.all : List ArtifactKind := [.contract, .interface, .library]

def ArtifactKind.ofLabel? (label : String) : Option ArtifactKind :=
  all.find? (·.label == label)

structure RecordedSettings where
  version : String
  optimize : Bool
  runs : UInt32
  evmVersion : Option String
  deriving DecidableEq, Repr

structure Artifact where
  name : String
  fingerprint : Digest
  compiler : RecordedSettings
  dependencies : NameSet
  /-- Empty for what cannot be deployed. -/
  bytecode : String
  deployedBytecode : String
  abi : Json
  /-- Of the declaring file, from the root of the project. -/
  sourcePath : String
  kind : ArtifactKind
  metadata : Json
  deriving DecidableEq, Repr

namespace Artifact

def isDeployable (a : Artifact) : Bool := a.bytecode != ""

def dependsOn (a : Artifact) (unit : String) : Bool := a.dependencies.contains unit

end Artifact

structure Handle where
  artifact : Artifact
  deployable : artifact.isDeployable = true
  deriving DecidableEq, Repr

def Handle.ofArtifact? (a : Artifact) : Option Handle :=
  if h : a.isDeployable = true then some ⟨a, h⟩ else none

end ContractBuild
