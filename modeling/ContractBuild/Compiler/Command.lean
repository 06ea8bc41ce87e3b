import ContractBuild.Compiler
import ContractBuild.Text.Blank

/-! External programs as compilers: a program gets the request as its input and prints the answer; a
status other than zero makes what it printed as errors the diagnostics. -/

namespace ContractBuild

structure Command where
  program : String
  arguments : List String := []
  deriving DecidableEq, Repr

def Command.ofText? (text : String) : Option Command :=
  match Text.words text with
  | [] => none
  | program :: arguments => some ⟨program, arguments⟩

structure ProgramOutput where
  status : Nat := 0
  output : List UInt8 := []
  errors : List UInt8 := []
  deriving DecidableEq, Repr

/-- The programs that there are: what each of them makes of an input, in some file tree. -/
abbrev Programs := FileTree → Command → List UInt8 → Except StartError ProgramOutput

def ProgramOutput.answer (o : ProgramOutput) : Except CompileError (NameMap Artifact) :=
  if o.status = 0 then (Compiler.readOutput o.output).mapError .output
  else .error (.rejected (Text.trim (Text.decodeLossy o.errors)))

def Command.compiler (programs : Programs) (c : Command) (t : FileTree) : Compiler := fun request =>
  match programs t c (Text.bytes request.text) with
  | .error e => .error (.notStarted c.program e)
  | .ok o => o.answer

end ContractBuild
