import ContractBuild.Artifact.Reading
import ContractBuild.FileTree
import ContractBuild.Settings
import ContractBuild.Text.Utf8

/-! What a compiler is asked and what it answers: the full texts of some sources, and artifacts by
the names of their units. Compilers are outside of this library; any function may stand for one. -/

namespace ContractBuild

structure CompileRequest where
  sources : NameMap String
  settings : Settings
  deriving DecidableEq, Repr

def CompileRequest.toJson (r : CompileRequest) : Json :=
  .object [("sources", .object (r.sources.mapValues Json.string).entries),
    ("settings", r.settings.toJson)]

def CompileRequest.text (r : CompileRequest) : String := r.toJson.compact

inductive OutputError where
  | malformed
  | notObject (unit : String)
  | invalid (unit : String) (error : FieldError)
  deriving DecidableEq, Repr

def OutputError.message : OutputError → String
  | .malformed => "not a JSON object"
  | .notObject unit => "'" ++ unit ++ "' is not an object"
  | .invalid unit error => "'" ++ unit ++ "': " ++ error.message

inductive StartError where
  | file (cause : FileError)
  | nulInCommand
  deriving DecidableEq, Repr

def StartError.message : StartError → String
  | .file cause => cause.message
  | .nulInCommand => "nul byte found in provided data"

inductive CompileError where
  | rejected (diagnostics : String)
  | notStarted (program : String) (error : StartError)
  | output (error : OutputError)
  deriving DecidableEq, Repr

def CompileError.diagnostics : CompileError → String
  | .rejected diagnostics => diagnostics
  | .notStarted program error => "could not run " ++ program ++ ": " ++ error.message
  | .output error => "invalid compiler output: " ++ error.message

def CompileError.message (e : CompileError) : String := "compilation failed: " ++ e.diagnostics

abbrev Compiler := CompileRequest → Except CompileError (NameMap Artifact)

namespace Compiler

def withMember (key : String) (value : Json) (members : List (String × Json)) :
    List (String × Json) :=
  if (members.lookup key).isSome then members else (key, value) :: members

/-- An external compiler may leave out the name and the fingerprint. -/
def outputArtifact (unit : String) : Json → Except OutputError Artifact
  | .object members =>
    let members := withMember "contractName" (.string unit) members
    let members := withMember "fingerprint" (.string (Digest.ofBytes []).hex) members
    (Artifact.ofMembers members).mapError (.invalid unit)
  | _ => .error (.notObject unit)

def outputArtifacts (found : NameMap Artifact) :
    List (String × Json) → Except OutputError (NameMap Artifact)
  | [] => .ok found
  | (unit, value) :: rest =>
    match outputArtifact unit value with
    | .error e => .error e
    | .ok a => outputArtifacts (found.insert unit a) rest

def readOutput (output : List UInt8) : Except OutputError (NameMap Artifact) :=
  match Json.ofBytes? output with
  | some (.object members) => outputArtifacts {} members
  | _ => .error .malformed

end Compiler
end ContractBuild
