import ContractBuild.FileTree
import ContractBuild.Json.Parser
import ContractBuild.Json.Printer
import ContractBuild.NameMap

/-! File trees as JSON texts: the contents of all files by their absolute paths, with a slash at the
end of the path of an empty directory, and the working directory. -/

namespace ContractBuild.FileTree

def snapshotEntry? (t : FileTree) (e : Location × Node) : Option (String × Json) :=
  let path := (Path.absolute e.1).text
  match e.2 with
  | .file content => some (path, .string (Text.decodeLossy content))
  | .directory => if t.children e.1 = [] then some (path ++ "/", .string "") else none

def toJson (t : FileTree) : Json :=
  .object [("files", .object (NameMap.ofList (t.nodes.filterMap t.snapshotEntry?)).entries),
    ("workingDirectory", .string (Path.absolute t.workingDirectory).text)]

/-- An entry that does not fit the ones before it is passed over. -/
def addEntry (t : FileTree) (path content : String) : FileTree :=
  if path.toList.getLast? = some '/' then (t.makeDirectories (.ofText path)).2
  else (t.writeInto (.ofText path) (Text.bytes content)).2

def ofJson? : Json → Option FileTree
  | .object members => do
    let .object files ← members.lookup "files" | none
    let .string directory ← members.lookup "workingDirectory" | none
    let entries ← files.mapM fun (path, content) => match content with
      | .string text => some (path, text)
      | _ => none
    let t := entries.foldl (fun t e => addEntry t e.1 e.2) (⟨[], []⟩ : FileTree)
    let start ← (t.locate (.ofText directory)).toOption
    return { t with workingDirectory := start }
  | _ => none

end ContractBuild.FileTree
