import ContractBuild.Project.Name
import ContractBuild.Project.Rebuild
import ContractBuild.Project.Registry
import ContractBuild.Text.Quoted

/-! Projects: a directory with sources and, in a directory of its own, the artifacts built from
them. A project is loaded, which builds what has to be built and offers handles for what can be
deployed, until it is closed. -/

namespace ContractBuild

structure Project where
  name : String
  root : Path
  sources : SourceSet
  store : Store
  handles : NameMap Handle
  state : ProjectState
  deriving DecidableEq, Repr

structure BuildPlan where
  stale : NameMap Staleness
  closure : NameSet
  deriving DecidableEq, Repr

structure Loaded where
  result : Except ProjectError BuildSummary
  project : Project
  registry : Registry
  tree : FileTree
  request? : Option CompileRequest := none

namespace Project

def directories : List String := [SourceSet.directory, "build", Store.projectDirectory]

def storeIn (root : Path) : Store := .persistent (root.joinText Store.projectDirectory)

def isActive (p : Project) : Bool := p.state == .active

def brief (p : Project) : String :=
  "Project \x7b name: " ++ Text.quoted p.name ++ ", root: " ++ Text.quoted p.root.text ++
    ", state: " ++ p.state.word ++ ", handles: " ++ toString p.handles.size ++ " \x7d"

def canonicalRoot (root : Path) (t : FileTree) : Except ProjectError Path :=
  (t.canonical root).mapError (.directory root)

def makeDirectories (root : Path) (t : FileTree) : List String → Except ProjectError Unit × FileTree
  | [] => (.ok (), t)
  | directory :: rest =>
    let path := root.joinText directory
    match t.makeDirectories path with
    | (.error e, t) => (.error (.directory path e), t)
    | (.ok (), t) => makeDirectories root t rest

def ofStore (root : Path) (name : Option String) (store : Store) (t : FileTree) :
    Except ProjectError Project :=
  match SourceSet.scan root t with
  | .error e => .error (.source e)
  | .ok sources =>
    let name := name.getD (nameOfDirectory (root.segments.getLastD ""))
    .ok { name, root, sources, store, handles := {}, state := .idle }

/-- Makes the directories that the project lacks, and deletes invalid artifacts. -/
def openAt (root : Path) (name : Option String) (t : FileTree) :
    Except ProjectError Project × FileTree :=
  match canonicalRoot root t with
  | .error e => (.error e, t)
  | .ok root =>
    match makeDirectories root t directories with
    | (.error e, t) => (.error e, t)
    | (.ok (), t) =>
      let (_, store, t) := (storeIn root).load root t
      (ofStore root name store t, t)

def inspectAt (root : Path) (name : Option String) (t : FileTree) : Except ProjectError Project :=
  match canonicalRoot root t with
  | .error e => .error e
  | .ok root => ofStore root name ((storeIn root).inspect root t).2 t

def build (p : Project) (compiler : FileTree → Compiler) (settings : Settings) (t : FileTree) :
    Except ProjectError BuildSummary × Project × FileTree × Option CompileRequest :=
  match SourceSet.scan p.root t with
  | .error e => (.error (.source e), { p with state := .scanningSources }, t, none)
  | .ok sources =>
    let (report, store, t) := (storeIn p.root).load p.root t
    let r := rebuild sources store (compiler t) settings t
    let p := { p with sources, store := r.store, state := r.state }
    match r.result with
    | .error e => (.error e, p, r.tree, r.request?)
    | .ok summary =>
      let p := { p with handles := r.store.handles }
      let summary := { summary with discarded := report.discarded, handles := p.handles.size }
      (.ok summary, p, r.tree, r.request?)

/-- A project that is active, or that has the name of an active one, is left alone. -/
def load (p : Project) (registry : Registry) (compiler : FileTree → Compiler) (settings : Settings)
    (t : FileTree) : Loaded :=
  if p.isActive then
    { result := .error (.alreadyLoaded p.name), project := p, registry, tree := t }
  else
    match registry.register p.name with
    | .error e => { result := .error e, project := p, registry, tree := t }
    | .ok registered =>
      match p.build compiler settings t with
      | (.error e, p, tree, request?) =>
        { result := .error e, project := { p with state := .failed }, registry, tree, request? }
      | (.ok summary, p, tree, request?) =>
        { result := .ok summary, project := { p with state := .active }, registry := registered
          tree, request? }

def plan (p : Project) (settings : Settings) (t : FileTree) : Except ProjectError BuildPlan :=
  match SourceSet.scan p.root t with
  | .error e => .error (.source e)
  | .ok sources =>
    let stale := staleReasons sources p.store settings
    .ok ⟨stale, p.store.close stale.nameSet⟩

def close (p : Project) (registry : Registry) : Except ProjectError (Project × Registry) :=
  if p.isActive then .ok ({ p with handles := {}, state := .idle }, registry.unregister p.name)
  else .error (.notLoaded p.name)

def removeOrphans (p : Project) (t : FileTree) : Except ProjectError NameSet × Project × FileTree :=
  match SourceSet.scan p.root t with
  | .error e => (.error (.source e), p, t)
  | .ok sources =>
    let (_, store, t) := (storeIn p.root).load p.root t
    match store.collect sources.units.nameSet t with
    | (.error e, _, t) => (.error (.store e), p, t)
    | (.ok removed, store, t) =>
      let handles := p.handles.filter fun unit _ => !removed.contains unit
      (.ok removed, { p with sources, store, handles }, t)

def isMarked (t : FileTree) (l : Location) : Bool :=
  match t.node? (l ++ [Config.fileName]) with
  | some (.file _) => true
  | _ => false

def rootAbove? (path : Path) (t : FileTree) : Option Path :=
  match t.find path with
  | .error _ => none
  | .ok (l, _) =>
    let upwards := (List.range (l.length + 1)).reverse.map l.take
    (upwards.find? (isMarked t)).map .absolute

end Project
end ContractBuild
