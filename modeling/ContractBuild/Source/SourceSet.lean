import ContractBuild.NameSet
import ContractBuild.Source.Fingerprint

/-! The sources of a project by their paths, and an index from every declared unit to the file that
declares it. Of several files that declare a unit the one with the least path wins, and of several
declarations in one file the first. -/

namespace ContractBuild

open Source

structure UnitInfo where
  path : String
  kind : UnitKind
  deriving DecidableEq, Repr

abbrev UnitIndex := NameMap UnitInfo

def UnitIndex.add (units : UnitIndex) (path : String) (d : Declaration) : UnitIndex :=
  if units.contains d.name then units else units.insert d.name ⟨path, d.kind⟩

def UnitIndex.addFile (units : UnitIndex) (path text : String) : UnitIndex :=
  (declarations (Text.bytes text)).foldl (fun units d => UnitIndex.add units path d) units

def UnitIndex.ofFiles (files : NameMap String) : UnitIndex :=
  files.entries.foldl (fun units e => UnitIndex.addFile units e.1 e.2) {}

structure SourceSet where
  files : NameMap String
  units : UnitIndex
  deriving Repr, DecidableEq

namespace SourceSet

def ofFiles (files : NameMap String) : SourceSet := ⟨files, UnitIndex.ofFiles files⟩

instance : Inhabited SourceSet := ⟨ofFiles {}⟩

def unit? (s : SourceSet) (unit : String) : Option UnitInfo := s.units.get? unit

def path? (s : SourceSet) (unit : String) : Option String := (s.unit? unit).map (·.path)

def containsUnit (s : SourceSet) (unit : String) : Bool := s.units.contains unit

/-- The text of a source path or, if there is no such path, of the file that declares a unit. -/
def text? (s : SourceSet) (name : String) : Option String :=
  match s.files.get? name with
  | some text => some text
  | none => (s.path? name).bind s.files.get?

def fingerprint? (s : SourceSet) (unit : String) (minified : Bool) : Option Digest :=
  (s.text? unit).map fun text => fingerprintText text unit minified

def unitNames (s : SourceSet) : List String := s.units.names

def paths (s : SourceSet) : List String := s.files.names

end SourceSet
end ContractBuild
