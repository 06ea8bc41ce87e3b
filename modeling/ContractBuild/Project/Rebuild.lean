import ContractBuild.Dependents
import ContractBuild.Project.Error
import ContractBuild.Staleness

/-! One round of building: the stale units and all that depend on them lose their artifacts, the
files that declare them are compiled in one call, and what comes back is installed. -/

namespace ContractBuild

inductive ProjectState where
  | idle
  | scanningSources
  | detectingChanges
  | compiling
  | installingArtifacts
  | active
  | failed
  deriving DecidableEq, Repr, Inhabited

def ProjectState.label : ProjectState → String
  | .idle => "idle"
  | .scanningSources => "scanning sources"
  | .detectingChanges => "detecting changes"
  | .compiling => "compiling"
  | .installingArtifacts => "installing artifacts"
  | .active => "active"
  | .failed => "failed"

def ProjectState.word : ProjectState → String
  | .idle => "Idle"
  | .scanningSources => "ScanningSources"
  | .detectingChanges => "DetectingChanges"
  | .compiling => "Compiling"
  | .installingArtifacts => "InstallingArtifacts"
  | .active => "Active"
  | .failed => "Failed"

structure BuildSummary where
  stale : NameSet := {}
  closure : NameSet := {}
  compiledPaths : List String := []
  installed : List String := []
  discarded : List Path := []
  handles : Nat := 0
  deriving DecidableEq, Repr

def BuildSummary.isUpToDate (s : BuildSummary) : Bool := s.compiledPaths.isEmpty

def Store.handles (s : Store) : NameMap Handle :=
  s.entries.filterMap fun _ a => Handle.ofArtifact? a

def SourceSet.pathsOf (sources : SourceSet) (units : NameSet) : NameSet :=
  .ofList (units.names.filterMap sources.path?)

def SourceSet.textsOf (sources : SourceSet) (paths : NameSet) : NameMap String :=
  .ofList (paths.names.filterMap fun path => (sources.text? path).map (path, ·))

def compileRequest? (sources : SourceSet) (settings : Settings) (units : NameSet) :
    Option CompileRequest :=
  let paths := sources.pathsOf units
  if paths.isEmpty then none else some ⟨sources.textsOf paths, settings⟩

/-- The name it was compiled under, and the fingerprint of that unit's source. -/
def Artifact.adopted (a : Artifact) (unit : String) (sources : SourceSet) (minified : Bool) :
    Artifact :=
  { a with name := unit, fingerprint := (sources.fingerprint? unit minified).getD a.fingerprint }

/-- Stores artifacts one by one; an error stops it, and what has been stored stays. -/
def Store.install (sources : SourceSet) (minified : Bool) (s : Store) (t : FileTree) :
    List (String × Artifact) → Except StoreError Unit × Store × FileTree
  | [] => (.ok (), s, t)
  | (unit, a) :: rest =>
    match s.add (a.adopted unit sources minified) t with
    | (.error e, s, t) => (.error e, s, t)
    | (.ok (), s, t) => s.install sources minified t rest

structure Rebuilt where
  result : Except ProjectError BuildSummary
  store : Store
  tree : FileTree
  state : ProjectState
  request? : Option CompileRequest := none

def rebuild (sources : SourceSet) (store : Store) (compiler : Compiler) (settings : Settings)
    (t : FileTree) : Rebuilt :=
  let stale := staleUnits sources store settings
  let closure := store.close stale
  let kept := (store.evict closure).2
  match compileRequest? sources settings closure with
  | none =>
    { result := .ok { stale, closure }, store := kept, tree := t, state := .detectingChanges }
  | some request =>
    match compiler request with
    | .error e =>
      { result := .error (.compilation e), store := kept, tree := t, state := .compiling
        request? := some request }
    | .ok artifacts =>
      match kept.install sources settings.minifySource t artifacts.entries with
      | (.error e, store, t) =>
        { result := .error (.store e), store, tree := t, state := .installingArtifacts
          request? := some request }
      | (.ok (), store, t) =>
        let summary : BuildSummary :=
          { stale, closure, compiledPaths := request.sources.names, installed := artifacts.names }
        { result := .ok summary, store, tree := t, state := .installingArtifacts
          request? := some request }

end ContractBuild
