import ContractBuild.Compiler.Command

/-! Shell scripts of the simplest kind, as they stand for compilers: simple commands one after
another, with quotes and redirections. A script writes no file: what it sends to one is lost. -/

namespace ContractBuild.Script

inductive Token where
  | word (text : String)
  /-- The number of the stream, and whether it goes where another one goes. -/
  | redirect (stream : Nat) (toStream : Bool)
  | input
  | newline
  | semicolon
  | ifDone
  | ifFailed
  deriving DecidableEq, Repr

inductive Quoting where
  | none
  | single
  | double
  | comment
  deriving DecidableEq, Repr

/-- A word so far, the last character first. -/
abbrev OpenWord := Option (List Char)

def OpenWord.push (c : Char) (w : OpenWord) : OpenWord := some (c :: w.getD [])

def OpenWord.close (w : OpenWord) (done : List Token) : List Token :=
  match w with
  | some cs => .word (String.ofList cs.reverse) :: done
  | none => done

/-- A word of one digit in front of it is the number of its stream. -/
def redirection (toStream : Bool) (w : OpenWord) (done : List Token) : List Token :=
  match w with
  | some [c] =>
    if c.isDigit then .redirect (c.toNat - '0'.toNat) toStream :: done
    else .redirect 1 toStream :: w.close done
  | _ => .redirect 1 toStream :: w.close done

def isSpecial (c : Char) : Bool := c == '"' || c == '\\' || c == '$' || c == Char.ofNat 96

/-- Reads onto the tokens `done`, the last one first; none if a quote is left open. -/
def tokensOnto (done : List Token) (w : OpenWord) : Quoting → List Char → Option (List Token)
  | .none, [] | .comment, [] => some (w.close done).reverse
  | .single, [] | .double, [] => none
  | .single, c :: rest =>
    if c = '\'' then tokensOnto done w .none rest else tokensOnto done (w.push c) .single rest
  | .double, '\\' :: c :: rest =>
    if isSpecial c then tokensOnto done (w.push c) .double rest
    else tokensOnto done ((w.push '\\').push c) .double rest
  | .double, c :: rest =>
    if c = '"' then tokensOnto done w .none rest else tokensOnto done (w.push c) .double rest
  | .comment, c :: rest =>
    if c = '\n' then tokensOnto (.newline :: done) w .none rest else tokensOnto done w .comment rest
  | .none, '\\' :: '\n' :: rest => tokensOnto done w .none rest
  | .none, '\\' :: c :: rest => tokensOnto done (w.push c) .none rest
  | .none, '&' :: '&' :: rest => tokensOnto (.ifDone :: w.close done) none .none rest
  | .none, '|' :: '|' :: rest => tokensOnto (.ifFailed :: w.close done) none .none rest
  | .none, '>' :: '&' :: rest => tokensOnto (redirection true w done) none .none rest
  | .none, '>' :: '>' :: rest => tokensOnto (redirection false w done) none .none rest
  | .none, c :: rest =>
    if c = ' ' || c = '\t' then tokensOnto (w.close done) none .none rest
    else if c = '\n' then tokensOnto (.newline :: w.close done) none .none rest
    else if c = ';' then tokensOnto (.semicolon :: w.close done) none .none rest
    else if c = '>' then tokensOnto (redirection false w done) none .none rest
    else if c = '<' then tokensOnto (.input :: w.close done) none .none rest
    else if c = '\'' then tokensOnto done (w.getD []) .single rest
    else if c = '"' then tokensOnto done (w.getD []) .double rest
    else if c = '#' && w.isNone then tokensOnto done none .comment rest
    else tokensOnto done (w.push c) .none rest

def tokens? (text : String) : Option (List Token) := tokensOnto [] none .none text.toList

inductive Sink where
  | output
  | errors
  | lost
  deriving DecidableEq, Repr

inductive Condition where
  | always
  | ifDone
  | ifFailed
  deriving DecidableEq, Repr

structure Step where
  condition : Condition := .always
  line : Nat := 1
  words : List String := []
  output : Sink := .output
  errors : Sink := .errors
  noInput : Bool := false
  deriving DecidableEq, Repr

def Step.isIdle (s : Step) : Bool := s.words.isEmpty

def Step.sink (s : Step) (stream : String) : Sink :=
  if stream = "1" then s.output else if stream = "2" then s.errors else .lost

def Step.redirect (s : Step) (stream : Nat) (sink : Sink) : Step :=
  if stream = 1 then { s with output := sink }
  else if stream = 2 then { s with errors := sink }
  else s

def steps (current : Step) : List Token → List Step
  | [] => [current]
  | .word text :: rest => steps { current with words := current.words ++ [text] } rest
  | .redirect stream true :: .word target :: rest =>
    steps (current.redirect stream (current.sink target)) rest
  | .redirect stream false :: .word _ :: rest => steps (current.redirect stream .lost) rest
  | .input :: .word _ :: rest => steps { current with noInput := true } rest
  | .redirect .. :: rest | .input :: rest => steps current rest
  | .newline :: rest =>
    if current.isIdle then steps { current with line := current.line + 1 } rest
    else current :: steps { line := current.line + 1 } rest
  | .semicolon :: rest => current :: steps { line := current.line } rest
  | .ifDone :: rest => current :: steps { condition := .ifDone, line := current.line } rest
  | .ifFailed :: rest => current :: steps { condition := .ifFailed, line := current.line } rest

structure Running where
  input : List UInt8
  left : ProgramOutput := {}

def Running.put (r : Running) (sink : Sink) (text : List UInt8) : Running :=
  match sink with
  | .output => { r with left := { r.left with output := r.left.output ++ text } }
  | .errors => { r with left := { r.left with errors := r.left.errors ++ text } }
  | .lost => r

def Running.ended (r : Running) (status : Nat) : Running :=
  { r with left := { r.left with status } }

def escape? : Char → Option Char
  | 'n' => some '\n'
  | 't' => some '\t'
  | 'r' => some '\r'
  | '\\' => some '\\'
  | _ => none

def unescaped : List Char → List Char
  | '\\' :: c :: rest =>
    match escape? c with
    | some e => e :: unescaped rest
    | none => '\\' :: c :: unescaped rest
  | c :: rest => c :: unescaped rest
  | [] => []

def echoed (words : List String) : String :=
  let (words, ending) := if words.head? = some "-n" then (words.tail, "") else (words, "\n")
  String.ofList (unescaped (" ".intercalate words).toList) ++ ending

def formatted (words : List String) : List Char → List Char
  | '%' :: 's' :: rest => (words.headD "").toList ++ formatted words.tail rest
  | '%' :: '%' :: rest => '%' :: formatted words rest
  | '\\' :: c :: rest =>
    match escape? c with
    | some e => e :: formatted words rest
    | none => '\\' :: c :: formatted words rest
  | c :: rest => c :: formatted words rest
  | [] => []

def concatenated (t : FileTree) (input : List UInt8) (files : List String) : ProgramOutput :=
  (if files = [] then ["-"] else files).foldl (fun o file =>
    if file = "-" then { o with output := o.output ++ input }
    else
      match t.content (.ofText file) with
      | .ok content => { o with output := o.output ++ content }
      | .error e =>
        let line := "cat: " ++ file ++ ": " ++ e.reason ++ "\n"
        { o with status := 1, errors := o.errors ++ Text.bytes line }) {}

def status? (text : String) : Option Nat :=
  let cs := text.toList
  if cs.isEmpty || !cs.all Char.isDigit then none
  else some (cs.foldl (fun n c => 10 * n + (c.toNat - '0'.toNat)) 0)

def runCommand (name : String) (t : FileTree) (s : Step) (r : Running) : Running × Bool :=
  let complaint (text : String) : List UInt8 :=
    Text.bytes (name ++ ": " ++ toString s.line ++ ": " ++ text ++ "\n")
  match s.words with
  | [] | [":"] | "true" :: _ => (r.ended 0, false)
  | "false" :: _ => (r.ended 1, false)
  | ["exit"] => (r, true)
  | "exit" :: status :: _ =>
    match status? status with
    | some n => (r.ended (n % 256), true)
    | none => ((r.put s.errors (complaint ("exit: Illegal number: " ++ status))).ended 2, true)
  | "echo" :: words => ((r.put s.output (Text.bytes (echoed words))).ended 0, false)
  | "printf" :: format :: words =>
    let text := String.ofList (formatted words format.toList)
    ((r.put s.output (Text.bytes text)).ended 0, false)
  | "cat" :: files =>
    let o := concatenated t (if s.noInput then [] else r.input) files
    let r := if files = [] ∨ "-" ∈ files then { r with input := [] } else r
    (((r.put s.output o.output).put s.errors o.errors).ended o.status, false)
  | command :: _ => ((r.put s.errors (complaint (command ++ ": not found"))).ended 127, false)

def applies (c : Condition) (status : Nat) : Bool :=
  match c with
  | .always => true
  | .ifDone => status == 0
  | .ifFailed => status != 0

def runSteps (name : String) (t : FileTree) (r : Running) : List Step → Running
  | [] => r
  | s :: rest =>
    if applies s.condition r.left.status && !s.isIdle then
      match runCommand name t s r with
      | (r, true) => r
      | (r, false) => runSteps name t r rest
    else runSteps name t r rest

def run (name text : String) (t : FileTree) (input : List UInt8) : ProgramOutput :=
  match tokens? text with
  | some tokens => (runSteps name t { input } (steps {} tokens)).left
  | none =>
    { status := 2, errors := Text.bytes (name ++ ": Syntax error: Unterminated quoted string\n") }

end ContractBuild.Script
