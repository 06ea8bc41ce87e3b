import ContractBuild.Compiler
import ContractBuild.Config
import ContractBuild.Source.Scan
import ContractBuild.Store

/-! All that can go wrong with a project. -/

namespace ContractBuild

inductive ProjectError where
  | alreadyLoaded (name : String)
  | notLoaded (name : String)
  | source (error : SourceError)
  | store (error : StoreError)
  | config (problem : Config.Problem)
  | compilation (error : CompileError)
  | directory (path : Path) (cause : FileError)
  deriving DecidableEq, Repr

def ProjectError.message : ProjectError → String
  | .alreadyLoaded name => "project '" ++ name ++ "' is already loaded"
  | .notLoaded name => "project '" ++ name ++ "' is not loaded"
  | .source error => error.message
  | .store error => error.message
  | .config problem => problem.message
  | .compilation error => error.message
  | .directory path cause => "project I/O error at " ++ path.text ++ ": " ++ cause.message

end ContractBuild
