import ContractBuild.CommandLine.Arguments
import ContractBuild.Compiler.Command
import ContractBuild.Project

/-! The commands: building a project, telling what a build would do, and deleting what has been
built. A command reports in lines, and ends early if something fails. -/

namespace ContractBuild.CommandLine

def versionText : String := "kiln 0.1.0"

inductive Failure where
  | noSuchDirectory (path : String)
  | notInProject (directory : Path)
  | noCompiler
  | project (error : ProjectError)
  deriving DecidableEq, Repr

def Failure.message : Failure → String
  | .noSuchDirectory path => "project directory " ++ path ++ " does not exist"
  | .notInProject directory =>
    "could not find " ++ Config.fileName ++ " in " ++ directory.text ++ " or any parent directory"
  | .noCompiler => "--compiler must not be empty"
  | .project error => error.message

structure Run where
  lines : List String := []
  failure? : Option Failure := none
  tree : FileTree

def Run.status (r : Run) : Nat := if r.failure?.isSome then 1 else 0

/-- The project that is named, or else the nearest one from the working directory on and up. -/
def projectRoot (project : Option String) (t : FileTree) : Except Failure Path :=
  match project with
  | some directory =>
    let path := Path.ofText directory
    if t.isDirectory path then .ok path else .error (.noSuchDirectory directory)
  | none =>
    let start := Path.absolute t.workingDirectory
    match Project.rootAbove? start t with
    | some root => .ok root
    | none => .error (.notInProject start)

def rootAndConfig (project : Option String) (t : FileTree) : Except Failure (Path × Config) := do
  let root ← projectRoot project t
  let config ← (Config.load root t).mapError fun p => .project (.config p)
  return (root, config)

def line (text : String) : String := "   " ++ text

def summaryLines (verbose : Bool) (s : BuildSummary) : List String :=
  s.discarded.map (fun path => line ("Discarded " ++ path.text)) ++
    (if s.isUpToDate then [line "Up to date"]
      else s.installed.map (fun unit => line ("Compiled " ++ unit)) ++
        if verbose then s.compiledPaths.map fun path => line ("  from " ++ path) else []) ++
    [line ("Finished " ++ toString s.installed.length ++ " unit(s) recompiled, " ++
      toString s.handles ++ " deployable")]

def planLines (name : String) (plan : BuildPlan) : List String :=
  if plan.closure.isEmpty then [line (name ++ " is up to date")]
  else
    plan.stale.entries.map (fun e => line (e.1 ++ ": " ++ e.2.message)) ++
      (plan.closure.names.filter (!plan.stale.contains ·)).map
        (fun unit => line (unit ++ ": depends on a changed unit")) ++
      [line (toString plan.closure.size ++ " unit(s) would be recompiled")]

def removalLines (removed : NameSet) : List String :=
  removed.names.map (fun unit => line ("Removed " ++ unit)) ++
    [line ("Cleaned " ++ toString removed.size ++ " artifact(s)")]

def buildWith (root : Path) (name : Option String) (settings : Settings) (verbose : Bool)
    (compiler : String) (programs : Programs) (t : FileTree) : Run :=
  match Command.ofText? compiler with
  | none => { failure? := some .noCompiler, tree := t }
  | some command =>
    match Project.openAt root name t with
    | (.error e, t) => { failure? := some (.project e), tree := t }
    | (.ok p, t) =>
      let heading := line ("Building " ++ p.name ++ " (" ++ p.root.text ++ ")")
      let l := p.load {} (command.compiler programs) settings t
      match l.result with
      | .error e => { lines := [heading], failure? := some (.project e), tree := l.tree }
      | .ok s => { lines := heading :: summaryLines verbose s, tree := l.tree }

def build (project : Option String) (verbose : Bool) (compiler : String) (overrides : Overrides)
    (programs : Programs) (t : FileTree) : Run :=
  match rootAndConfig project t with
  | .error f => { failure? := some f, tree := t }
  | .ok (root, config) =>
    buildWith root config.name (overrides.apply config.settings) verbose compiler programs t

theorem build_eq_buildWith {project : Option String} {verbose : Bool} {compiler : String}
    {overrides : Overrides} {programs : Programs} {t : FileTree} {root : Path} {config : Config}
    (h : rootAndConfig project t = .ok (root, config)) :
    build project verbose compiler overrides programs t =
      buildWith root config.name (overrides.apply config.settings) verbose compiler programs t := by
  rw [build, h]

def statusWith (root : Path) (name : Option String) (settings : Settings) (t : FileTree) : Run :=
  let planned := do
    let p ← Project.inspectAt root name t
    return planLines p.name (← p.plan settings t)
  match planned with
  | .error e => { failure? := some (.project e), tree := t }
  | .ok lines => { lines, tree := t }

def status (project : Option String) (overrides : Overrides) (t : FileTree) : Run :=
  match rootAndConfig project t with
  | .error f => { failure? := some f, tree := t }
  | .ok (root, config) => statusWith root config.name (overrides.apply config.settings) t

theorem status_eq_statusWith {project : Option String} {overrides : Overrides} {t : FileTree}
    {root : Path} {config : Config} (h : rootAndConfig project t = .ok (root, config)) :
    status project overrides t =
      statusWith root config.name (overrides.apply config.settings) t := by
  rw [status, h]

def cleanAll (project : Option String) (t : FileTree) : Run :=
  match projectRoot project t with
  | .error f => { failure? := some f, tree := t }
  | .ok root =>
    match (Project.storeIn root).collect {} t with
    | (.error e, _, t) => { failure? := some (.project (.store e)), tree := t }
    | (.ok removed, _, t) => { lines := removalLines removed, tree := t }

def cleanOrphans (project : Option String) (t : FileTree) : Run :=
  match rootAndConfig project t with
  | .error f => { failure? := some f, tree := t }
  | .ok (root, config) =>
    match Project.openAt root config.name t with
    | (.error e, t) => { failure? := some (.project e), tree := t }
    | (.ok p, t) =>
      match p.removeOrphans t with
      | (.error e, _, t) => { failure? := some (.project e), tree := t }
      | (.ok removed, _, t) => { lines := removalLines removed, tree := t }

def Invocation.act (i : Invocation) (programs : Programs) (t : FileTree) : Run :=
  match i.action with
  | .build compiler overrides => CommandLine.build i.project i.verbose compiler overrides programs t
  | .status overrides => CommandLine.status i.project overrides t
  | .clean true => cleanOrphans i.project t
  | .clean false => cleanAll i.project t

def Invocation.run (i : Invocation) (programs : Programs) (t : FileTree) : Run :=
  let r := i.act programs t
  if i.quiet then { r with lines := [] } else r

end ContractBuild.CommandLine
