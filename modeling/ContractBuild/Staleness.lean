import ContractBuild.Settings
import ContractBuild.Source.SourceSet
import ContractBuild.Store

/-! Which units must be compiled again, and why: their artifacts are missing, their sources differ
from what was compiled, or a setting differs from the recorded one. -/

namespace ContractBuild

inductive Setting where
  | version
  | optimize
  | runs
  | evmVersion
  deriving DecidableEq, Repr

def Setting.label : Setting → String
  | .version => "version"
  | .optimize => "optimize"
  | .runs => "runs"
  | .evmVersion => "evmVersion"

inductive Staleness where
  | fresh
  | missing
  | sourceChanged
  | settingChanged (setting : Setting)
  deriving DecidableEq, Repr

namespace Staleness

def isStale (s : Staleness) : Bool := s != .fresh

def message : Staleness → String
  | .fresh => "up to date"
  | .missing => "not built"
  | .sourceChanged => "source changed"
  | .settingChanged setting => "compiler " ++ setting.label ++ " changed"

end Staleness

/-- A version without one leading `v` and without all that follows the first plus sign. -/
def normalizeVersion (version : String) : String :=
  let cs := version.toList
  let cs := if cs.head? = some 'v' then cs.tail else cs
  String.ofList (cs.takeWhile (· != '+'))

def agrees {α : Type} (asked : Option α) (holds : α → Bool) : Bool := asked.all holds

def Settings.mismatch? (s : Settings) (recorded : RecordedSettings) : Option Setting :=
  if !agrees s.effectiveVersion
      (fun v => normalizeVersion v == normalizeVersion recorded.version) then some .version
  else if !agrees s.optimize (· == recorded.optimize) then some .optimize
  else if !agrees s.runs (· == recorded.runs) then some .runs
  else if !agrees s.effectiveEvmVersion (fun v => recorded.evmVersion == some v) then
    some .evmVersion
  else none

def check (sources : SourceSet) (store : Store) (settings : Settings) (unit : String) : Staleness :=
  match store.get? unit, sources.fingerprint? unit settings.minifySource with
  | some a, some fingerprint =>
    if fingerprint ≠ a.fingerprint then .sourceChanged
    else
      match settings.mismatch? a.compiler with
      | some setting => .settingChanged setting
      | none => .fresh
  | _, _ => .missing

def staleUnits (sources : SourceSet) (store : Store) (settings : Settings) : NameSet :=
  sources.units.nameSet.filter fun unit => (check sources store settings unit).isStale

def staleReasons (sources : SourceSet) (store : Store) (settings : Settings) : NameMap Staleness :=
  sources.units.filterMap fun unit _ =>
    let staleness := check sources store settings unit
    if staleness.isStale then some staleness else none

end ContractBuild
