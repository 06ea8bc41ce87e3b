import ContractBuild.CommandLine
import ContractBuild.CommandLine.Help
import ContractBuild.Compiler.Programs
import ContractBuild.FileTree.Snapshot

/-! The program. A command works on a file tree that comes in as one line on standard input, and
prints the tree that it leaves on standard output; what it reports goes to standard error. -/

namespace ContractBuild.CommandLine

def report (r : Run) : IO UInt32 := do
  r.lines.forM fun line => IO.eprintln line
  if let some failure := r.failure? then IO.eprintln ("error: " ++ failure.message)
  IO.println r.tree.toJson.compact
  return UInt32.ofNat r.status

end ContractBuild.CommandLine

open ContractBuild

def main (arguments : List String) : IO UInt32 := do
  match CommandLine.Invocation.ofArguments arguments with
  | .error .version =>
    IO.println CommandLine.versionText
    return 0
  | .error (.help topic) =>
    IO.print topic.text
    return 0
  | .error .usage =>
    IO.eprint CommandLine.Topic.program.text
    return 2
  | .ok invocation =>
    let line ← (← IO.getStdin).getLine
    match (Json.parse? line).bind FileTree.ofJson? with
    | some t => CommandLine.report (invocation.run Programs.known t)
    | none =>
      IO.eprintln "error: standard input holds no file tree"
      return 1
