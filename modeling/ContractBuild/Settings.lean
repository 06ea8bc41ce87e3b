import ContractBuild.Json

/-! Compiler settings of a project. Every setting but the last may be left open; an open setting is
never held against an artifact, and an empty version counts as open. -/

namespace ContractBuild

def defaultRuns : UInt32 := 200

structure Settings where
  version : Option String := none
  optimize : Option Bool := some true
  runs : Option UInt32 := some defaultRuns
  evmVersion : Option String := none
  minifySource : Bool := false
  deriving DecidableEq, Repr, Inhabited

namespace Settings

def unset : Settings := ⟨none, none, none, none, false⟩

def nonempty (s : Option String) : Option String := s.filter (· != "")

def effectiveVersion (s : Settings) : Option String := nonempty s.version

def effectiveEvmVersion (s : Settings) : Option String := nonempty s.evmVersion

def textOrNull (s : Option String) : Json := (s.map Json.string).getD .null

def toJson (s : Settings) : Json :=
  .object [("version", textOrNull s.version), ("optimize", (s.optimize.map .bool).getD .null),
    ("runs", (s.runs.map fun n => .integer n.toNat).getD .null),
    ("evm_version", textOrNull s.evmVersion), ("minify_source", .bool s.minifySource)]

end Settings
end ContractBuild
