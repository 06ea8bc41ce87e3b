import ContractBuild.Artifact
import ContractBuild.Count
import ContractBuild.Json.Parser
import ContractBuild.Json.Printer
import ContractBuild.Text.Quoted

/-! Reading artifacts back. The members of an object are looked at in the order of their keys, and
the first one that is wrong is reported; members that are missing come after that. -/

namespace ContractBuild

inductive Shape where
  | text
  | boolean
  | count
  | sequence
  | settings
  | kind
  | nothing
  deriving DecidableEq, Repr

def Shape.label : Shape → String
  | .text => "a string"
  | .boolean => "a boolean"
  | .count => "u32"
  | .sequence => "a sequence"
  | .settings => "struct CompilerSettings"
  | .kind => "string or map"
  | .nothing => "unit"

inductive FieldError where
  | wrongShape (found : Json) (expected : Shape)
  | outOfRange (found : Int)
  | tooShort (length : Nat)
  | tooLong (length : Nat)
  | notSingleMember
  | unknownKind (label : String)
  | missing (key : String)
  | malformedDigest (text : String)
  deriving DecidableEq, Repr

def Json.describe : Json → String
  | .null => "null"
  | .bool b => "boolean `" ++ (if b then "true" else "false") ++ "`"
  | .integer n => "integer `" ++ toString n ++ "`"
  | .real d => "floating point `" ++ realText d ++ "`"
  | .string s => "string " ++ Text.quoted s
  | .array _ => "sequence"
  | .object _ => "map"

def kindChoices : String :=
  ", ".intercalate (ArtifactKind.all.map fun k => "`" ++ k.label ++ "`")

def FieldError.message : FieldError → String
  | .wrongShape found expected =>
    "invalid type: " ++ found.describe ++ ", expected " ++ expected.label
  | .outOfRange n => "invalid value: integer `" ++ toString n ++ "`, expected u32"
  | .tooShort n =>
    "invalid length " ++ toString n ++ ", expected struct CompilerSettings with 4 elements"
  | .tooLong n => "invalid length " ++ toString n ++ ", expected fewer elements in array"
  | .notSingleMember => "invalid value: map, expected map with a single key"
  | .unknownKind label => "unknown variant `" ++ label ++ "`, expected one of " ++ kindChoices
  | .missing key => "missing field `" ++ key ++ "`"
  | .malformedDigest text => Digest.parseMessage text

abbrev Reader (α : Type) := Json → Except FieldError α

namespace Reader

def text : Reader String
  | .string s => .ok s
  | j => .error (.wrongShape j .text)

def boolean : Reader Bool
  | .bool b => .ok b
  | j => .error (.wrongShape j .boolean)

def count : Reader UInt32
  | .integer n =>
    match Count.ofInt? n with
    | some c => .ok c
    | none => .error (.outOfRange n)
  | j => .error (.wrongShape j .count)

def orNull {α : Type} (read : Reader α) : Reader (Option α)
  | .null => .ok none
  | j => some <$> read j

def digest : Reader Digest := fun j => do
  let s ← text j
  match Digest.parse? s with
  | some d => return d
  | none => throw (.malformedDigest s)

def names : Reader NameSet
  | .array items => NameSet.ofList <$> items.mapM text
  | j => .error (.wrongShape j .sequence)

def knownKind (label : String) : Except FieldError ArtifactKind :=
  match ArtifactKind.ofLabel? label with
  | some k => .ok k
  | none => .error (.unknownKind label)

/-- The label of a kind, or an object with that key and nothing in it. -/
def kind : Reader ArtifactKind
  | .string s => knownKind s
  | .object [(label, value)] => do
    let k ← knownKind label
    if value = .null then return k else throw (.wrongShape value .nothing)
  | .object _ => .error .notSingleMember
  | j => .error (.wrongShape j .kind)

def member {α : Type} (members : List (String × Json)) (key : String) (read : Reader α) :
    Except FieldError (Option α) :=
  match members.lookup key with
  | none => .ok none
  | some j => some <$> read j

def required {α : Type} (key : String) (value : Option α) : Except FieldError α :=
  match value with
  | some v => .ok v
  | none => .error (.missing key)

/-- An object, or a list in the order of version, optimizer, runs and EVM version, which may be left
out. -/
def settings : Reader RecordedSettings
  | .object members => do
    let evmVersion ← member members "evmVersion" (orNull text)
    let optimize ← member members "optimize" boolean
    let runs ← member members "runs" count
    let version ← member members "version" text
    return {
      version := ← required "version" version
      optimize := ← required "optimize" optimize
      runs := ← required "runs" runs
      evmVersion := evmVersion.join }
  | .array items => do
    let element {α : Type} (i : Nat) (read : Reader α) : Except FieldError α :=
      match items[i]? with
      | some j => read j
      | none => .error (.tooShort i)
    let version ← element 0 text
    let optimize ← element 1 boolean
    let runs ← element 2 count
    let evmVersion ←
      match items[3]? with
      | some j => orNull text j
      | none => pure none
    if items.length > 4 then throw (.tooLong items.length)
    return ⟨version, optimize, runs, evmVersion⟩
  | j => .error (.wrongShape j .settings)

end Reader

namespace Artifact

open Reader

def ofMembers (members : List (String × Json)) : Except FieldError Artifact := do
  let abi ← member members "abi" .ok
  let bytecode ← member members "bytecode" text
  let compiler ← member members "compiler" settings
  let name ← member members "contractName" text
  let dependencies ← member members "dependencies" names
  let deployedBytecode ← member members "deployedBytecode" text
  let fingerprint ← member members "fingerprint" digest
  let metadata ← member members "metadata" .ok
  let sourcePath ← member members "sourcePath" text
  let kind ← member members "type" Reader.kind
  return {
    name := ← required "contractName" name
    fingerprint := ← required "fingerprint" fingerprint
    compiler := ← required "compiler" compiler
    dependencies := ← required "dependencies" dependencies
    bytecode := ← required "bytecode" bytecode
    deployedBytecode := deployedBytecode.getD ""
    abi := ← required "abi" abi
    sourcePath := ← required "sourcePath" sourcePath
    kind := kind.getD .contract
    metadata := metadata.getD .null }

def requiredKeys : List String :=
  ["abi", "bytecode", "compiler", "contractName", "dependencies", "fingerprint", "sourcePath"]

inductive ReadError where
  | notJson
  | notObject
  | missingKey (key : String)
  | field (error : FieldError)
  deriving DecidableEq, Repr

def ReadError.message : ReadError → String
  | .notJson => "artifact is not JSON"
  | .notObject => "artifact is not a JSON object"
  | .missingKey key => "missing required key '" ++ key ++ "'"
  | .field e => e.message

def ofJson (value : Json) : Except ReadError Artifact :=
  match value with
  | .object members =>
    match requiredKeys.find? fun key => (members.lookup key).isNone with
    | some key => .error (.missingKey key)
    | none => (ofMembers members).mapError .field
  | _ => .error .notObject

def ofText (text : String) : Except ReadError Artifact :=
  match Json.parse? text with
  | some value => ofJson value
  | none => .error .notJson

end Artifact
end ContractBuild
