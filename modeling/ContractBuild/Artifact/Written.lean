import ContractBuild.Artifact
import ContractBuild.Json.Printer

/-! The text of an artifact file: indented JSON with sorted keys and a line feed at the end, so that
equal artifacts make equal files. -/

namespace ContractBuild

def RecordedSettings.toJson (s : RecordedSettings) : Json :=
  .object [("evmVersion", (s.evmVersion.map .string).getD .null), ("optimize", .bool s.optimize),
    ("runs", .integer s.runs.toNat), ("version", .string s.version)]

namespace Artifact

def metadataMember (a : Artifact) : List (String × Json) :=
  if a.metadata = .null then [] else [("metadata", a.metadata)]

def toJson (a : Artifact) : Json :=
  .object <|
    [("abi", a.abi), ("bytecode", .string a.bytecode), ("compiler", a.compiler.toJson),
      ("contractName", .string a.name),
      ("dependencies", .array (a.dependencies.names.map .string)),
      ("deployedBytecode", .string a.deployedBytecode),
      ("fingerprint", .string a.fingerprint.hex)] ++ a.metadataMember ++
    [("sourcePath", .string a.sourcePath), ("type", .string a.kind.label)]

def canonicalText (a : Artifact) : String := a.toJson.pretty ++ "\n"

end Artifact
end ContractBuild
