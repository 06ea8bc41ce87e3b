import ContractBuild.Compiler.Script

/-! The programs that can be named as compilers without leaving this library: `cat`, which prints an
answer made before, `sh`, which runs a script, `true` and `false`. -/

namespace ContractBuild.Programs

/-- A name without slashes is looked up in the directories of the known programs. -/
def unknown (t : FileTree) (program : String) : StartError :=
  if program.toList.contains '/' then
    match t.find (.ofText program) with
    | .ok _ => .file .permissionDenied
    | .error e => .file e
  else if program.utf8ByteSize > FileTree.maxNameLength then .file .nameTooLong
  else if program = "." ∨ program = ".." then .file .permissionDenied
  else .file .notFound

def shell (t : FileTree) (arguments : List String) (input : List UInt8) : ProgramOutput :=
  match arguments with
  | [] => Script.run "sh" (Text.decodeLossy input) t []
  | ["-c"] => { status := 2, errors := Text.bytes "sh: 0: -c requires an argument\n" }
  | "-c" :: text :: names => Script.run (names.headD "sh") text t input
  | file :: _ =>
    match t.content (.ofText file) with
    | .ok content => Script.run file (Text.decodeLossy content) t input
    | .error .isDirectory => {}
    | .error _ =>
      { status := 2, errors := Text.bytes ("sh: 0: cannot open " ++ file ++ ": No such file\n") }

def known : Programs := fun t c input =>
  if (c.program :: c.arguments).any FileTree.hasNul then .error .nulInCommand
  else
    match c.program with
    | "cat" => .ok (Script.concatenated t input c.arguments)
    | "sh" => .ok (shell t c.arguments input)
    | "true" => .ok {}
    | "false" => .ok { status := 1 }
    | program => .error (unknown t program)

end ContractBuild.Programs
