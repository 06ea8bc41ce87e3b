import ContractBuild.FileTree
import ContractBuild.Source.SourceSet

/-! The sources of a project in a file tree: the files below its source directory that have the
extension of sources, unless a name on the way from the project's root marks them as internal. -/

namespace ContractBuild

inductive SourceError where
  | unknown (name : String)
  | unreadable (path : Path) (cause : FileError)
  deriving DecidableEq, Repr

def SourceError.message : SourceError → String
  | .unknown name => "unknown source or unit '" ++ name ++ "'"
  | .unreadable path cause => "failed to read source " ++ path.text ++ ": " ++ cause.message

namespace SourceSet

def directory : String := "contracts"

def fileExtension : String := "sol"

def isInternal (name : String) : Bool := name.toList.head? == some '_'

def keyOf (below : List String) : String := "/".intercalate (directory :: below)

/-- What is no directory is a source if it has the extension of sources. -/
def walk (order : Location → List String) (root : Path) (t : FileTree) (l : Location) :
    (depth : Nat) → List String → List (List String)
  | 0, _ => []
  | depth + 1, below =>
    ((order (l ++ below)).map (below ++ [·])).flatMap fun inner =>
      if inner.any isInternal then []
      else if t.isDirectory (root.joinText (keyOf inner)) then walk order root t l depth inner
      else if inner.getLast?.bind Path.extensionOf? = some fileExtension then [inner]
      else []

def readSource (root : Path) (t : FileTree) (path : String) : Except SourceError String :=
  (t.text (root.joinText path)).mapError (.unreadable (root.joinText path))

def readAll (read : String → Except SourceError String) (files : NameMap String) :
    List String → Except SourceError (NameMap String)
  | [] => .ok files
  | path :: rest =>
    match read path with
    | .error e => .error e
    | .ok text => readAll read (files.insert path text) rest

def scanAs (order : Location → List String) (root : Path) (t : FileTree) :
    Except SourceError SourceSet :=
  match t.find (root.joinText directory) with
  | .ok (l, .directory) =>
    ofFiles <$> readAll (readSource root t) {} ((walk order root t l t.depth []).map keyOf)
  | _ => .ok default

def scan (root : Path) (t : FileTree) : Except SourceError SourceSet := scanAs t.children root t

end SourceSet
end ContractBuild
