import ContractBuild.Compiler
import ContractBuild.Source.Declaration

/-! A compiler that compiles nothing: it makes an artifact of every declaration that it finds, with
a fixed code for what can be deployed. Good for dry runs, where only the shape of a project counts.
-/

namespace ContractBuild.Compiler

open Source

def outlineVersion : String := "0.8.24"

def recorded (s : Settings) : RecordedSettings where
  version := s.effectiveVersion.getD outlineVersion
  optimize := s.optimize.getD true
  runs := s.runs.getD defaultRuns
  evmVersion := s.effectiveEvmVersion

def outlineCode : UnitKind → String
  | .contract => "6080604052"
  | .abstractContract | .interface => ""
  | .library => "6080"

def outlineKind : UnitKind → ArtifactKind
  | .contract | .abstractContract => .contract
  | .interface => .interface
  | .library => .library

def outlineArtifact (settings : Settings) (path : String) (d : Declaration) : Artifact where
  name := d.name
  fingerprint := .ofBytes []
  compiler := recorded settings
  dependencies := .ofList d.bases
  bytecode := outlineCode d.kind
  deployedBytecode := outlineCode d.kind
  abi := .array []
  sourcePath := path
  kind := outlineKind d.kind
  metadata := .null

/-- Of several declarations of a unit the last one counts. -/
def outline : Compiler := fun request =>
  let file (e : String × String) : List (String × Artifact) :=
    (declarations (Text.bytes e.2)).map fun d => (d.name, outlineArtifact request.settings e.1 d)
  .ok (.ofList (request.sources.entries.flatMap file))

end ContractBuild.Compiler
