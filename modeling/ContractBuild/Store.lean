import ContractBuild.Artifact.Reading
import ContractBuild.Artifact.Written
import ContractBuild.FileTree

/-! The artifacts of a project by the names of their units, in memory and, if the store has a
directory, in one file each. Loading heals: files that are no valid artifacts are deleted. -/

namespace ContractBuild

inductive StoreError where
  | notFound (unit : String)
  | file (path : Path) (cause : FileError)
  deriving DecidableEq, Repr

def StoreError.message : StoreError → String
  | .notFound unit => "no build artifact for '" ++ unit ++ "'"
  | .file path cause => "artifact I/O error at " ++ path.text ++ ": " ++ cause.message

structure LoadReport where
  loaded : List String := []
  discarded : List Path := []
  deriving DecidableEq, Repr

structure Store where
  directory : Option Path
  entries : NameMap Artifact
  deriving DecidableEq, Repr

namespace Store

def projectDirectory : String := "build/contracts"

def fileExtension : String := "json"

def persistent (directory : Path) : Store := ⟨some directory, {}⟩

def inMemory : Store := ⟨none, {}⟩

def fileName (unit : String) : String := unit ++ "." ++ fileExtension

def artifactPath? (s : Store) (unit : String) : Option Path :=
  s.directory.map (·.joinText (fileName unit))

def get? (s : Store) (unit : String) : Option Artifact := s.entries.get? unit

def get (s : Store) (unit : String) : Except StoreError Artifact :=
  match s.get? unit with
  | some a => .ok a
  | none => .error (.notFound unit)

def contains (s : Store) (unit : String) : Bool := s.entries.contains unit

def dependents (s : Store) (unit : String) : NameSet :=
  .ofList ((s.entries.values.filter (·.dependsOn unit)).map (·.name))

def artifactFiles (t : FileTree) (directory : Path) : List String :=
  (t.list directory).filter fun name => Path.extensionOf? name == some fileExtension

/-- The artifact in a file, if the file is valid: it is named for the unit, and the unit's source
is there. -/
def readValid? (t : FileTree) (root directory : Path) (name : String) : Option Artifact :=
  match t.text (directory.joinText name) with
  | .error _ => none
  | .ok text =>
    match Artifact.ofText text with
    | .error _ => none
    | .ok a =>
      if a.name = Path.stemOf name ∧ t.pathExists (root.joinText a.sourcePath) then some a else none

structure Reading where
  report : LoadReport
  entries : NameMap Artifact
  tree : FileTree

/-- An invalid file is deleted if the reading heals; a failure to delete it is passed over. -/
def Reading.file (heal : Bool) (root directory : Path) (r : Reading) (name : String) : Reading :=
  match readValid? r.tree root directory name with
  | some a =>
    { r with
      report := { r.report with loaded := r.report.loaded ++ [a.name] }
      entries := r.entries.insert a.name a }
  | none =>
    let path := directory.joinText name
    { r with
      report := { r.report with discarded := r.report.discarded ++ [path] }
      tree := if heal then (r.tree.removeFile path).toOption.getD r.tree else r.tree }

def read (heal : Bool) (root : Path) (s : Store) (t : FileTree) : Reading :=
  match s.directory with
  | none => ⟨{}, s.entries, t⟩
  | some directory =>
    let files := NameSet.ofList (artifactFiles t directory)
    files.names.foldl (Reading.file heal root directory) ⟨{}, s.entries, t⟩

def load (s : Store) (root : Path) (t : FileTree) : LoadReport × Store × FileTree :=
  let r := read true root s t
  (r.report, { s with entries := r.entries }, r.tree)

def inspect (s : Store) (root : Path) (t : FileTree) : LoadReport × Store :=
  let r := read false root s t
  (r.report, { s with entries := r.entries })

/-- The file is written first, so a failure to write it leaves the entries as they are. -/
def add (s : Store) (a : Artifact) (t : FileTree) : Except StoreError Unit × Store × FileTree :=
  let stored : Store := { s with entries := s.entries.insert a.name a }
  match s.artifactPath? a.name with
  | none => (.ok (), stored, t)
  | some path =>
    match t.replaceInto path (Text.bytes a.canonicalText) with
    | (.error e, t) => (.error (.file path e), s, t)
    | (.ok (), t) => (.ok (), stored, t)

def remove (s : Store) (unit : String) : Store := { s with entries := s.entries.erase unit }

def sweep (entries : NameMap Artifact) (directory : Path) (removed : NameSet) (t : FileTree) :
    List String → Except StoreError NameSet × FileTree
  | [] => (.ok removed, t)
  | name :: rest =>
    if entries.contains (Path.stemOf name) then sweep entries directory removed t rest
    else
      let path := directory.joinText name
      match t.removeFile path with
      | .error e => (.error (.file path e), t)
      | .ok t => sweep entries directory (removed.insert (Path.stemOf name)) t rest

def collect (s : Store) (live : NameSet) (t : FileTree) :
    Except StoreError NameSet × Store × FileTree :=
  let kept : Store := { s with entries := s.entries.filter fun name _ => live.contains name }
  let removed := s.entries.nameSet.filter (!live.contains ·)
  match s.directory with
  | none => (.ok removed, kept, t)
  | some directory =>
    let (result, t) := sweep kept.entries directory removed t (artifactFiles t directory)
    (result, kept, t)

end Store
end ContractBuild
