import ContractBuild.Project.Rebuild

/-! Building a single text outside of any project. Nothing is kept on disk and nothing is
registered. -/

namespace ContractBuild

structure Standalone where
  store : Store
  handles : NameMap Handle
  summary : BuildSummary
  deriving DecidableEq, Repr

namespace Standalone

def path : String := "<stdin>"

def sources (text : String) : SourceSet := .ofFiles (({} : NameMap String).insert path text)

def build (text : String) (compiler : Compiler) (settings : Settings) :
    Except ProjectError Standalone × Option CompileRequest :=
  let r := rebuild (sources text) .inMemory compiler settings default
  match r.result with
  | .error e => (.error e, r.request?)
  | .ok summary =>
    let handles := r.store.handles
    (.ok ⟨r.store, handles, { summary with handles := handles.size }⟩, r.request?)

end Standalone
end ContractBuild
