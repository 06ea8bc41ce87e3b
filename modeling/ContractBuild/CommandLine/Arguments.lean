import ContractBuild.Count
import ContractBuild.Settings

/-! Reading the arguments of the command line. Switches and options may stand before the verb, if
they go with every verb, and after it; between the two places the one after the verb wins. -/

namespace ContractBuild.CommandLine

inductive Verb where
  | build
  | status
  | clean
  deriving DecidableEq, Repr

def Verb.label : Verb → String
  | .build => "build"
  | .status => "status"
  | .clean => "clean"

def Verb.ofLabel? (label : String) : Option Verb :=
  [Verb.build, .status, .clean].find? (·.label == label)

inductive Switch where
  | quiet
  | verbose
  | optimize
  | noOptimize
  | minify
  | orphans
  deriving DecidableEq, Repr

def Switch.label : Switch → String
  | .quiet => "quiet"
  | .verbose => "verbose"
  | .optimize => "optimize"
  | .noOptimize => "no-optimize"
  | .minify => "minify"
  | .orphans => "orphans"

/-- The switches that may stand before the verb (none) or after a verb. -/
def Switch.allowed : Option Verb → List Switch
  | none => [.quiet, .verbose]
  | some .build | some .status => [.quiet, .verbose, .optimize, .noOptimize, .minify]
  | some .clean => [.quiet, .verbose, .orphans]

def Switch.letter? : Switch → Option Char
  | .quiet => some 'q'
  | .verbose => some 'v'
  | _ => none

def Switch.ofLetter? (letter : Char) : Option Switch :=
  [Switch.quiet, .verbose].find? (·.letter? == some letter)

def Switch.conflicts : List (Switch × Switch) := [(.quiet, .verbose), (.optimize, .noOptimize)]

inductive Key where
  | project
  | compiler
  | runs
  | evmVersion
  | compilerVersion
  deriving DecidableEq, Repr

def Key.label : Key → String
  | .project => "project"
  | .compiler => "compiler"
  | .runs => "runs"
  | .evmVersion => "evm-version"
  | .compilerVersion => "compiler-version"

def Key.allowed : Option Verb → List Key
  | none | some .clean => [.project]
  | some .build => [.project, .compiler, .runs, .evmVersion, .compilerVersion]
  | some .status => [.project, .runs, .evmVersion, .compilerVersion]

/-- A whole number of 32 bits, with or without a sign. -/
def count? (text : String) : Option UInt32 :=
  let (negative, digits) := match text.toList with
    | '-' :: rest => (true, rest)
    | '+' :: rest => (false, rest)
    | cs => (false, cs)
  if digits.isEmpty || !digits.all Char.isDigit then none
  else
    let n : Int := digits.foldl (fun n c => 10 * n + (c.toNat - '0'.toNat)) 0
    Count.ofInt? (if negative then -n else n)

def Key.accepts (k : Key) (value : String) : Bool :=
  match k with
  | .runs => (count? value).isSome
  | _ => true

structure Given where
  switches : List Switch := []
  values : List (Key × String) := []
  deriving DecidableEq, Repr

namespace Given

def has (g : Given) (s : Switch) : Bool := g.switches.contains s

def value? (g : Given) (k : Key) : Option String := g.values.lookup k

def switch? (g : Given) (s : Switch) : Option Given :=
  if g.has s then none else some { g with switches := s :: g.switches }

def put? (g : Given) (k : Key) (value : String) : Option Given :=
  if (g.value? k).isSome || !k.accepts value then none
  else some { g with values := (k, value) :: g.values }

def isConsistent (g : Given) : Bool :=
  Switch.conflicts.all fun (a, b) => !(g.has a && g.has b)

end Given

inductive Topic where
  | program
  | verb (verb : Verb)
  | help
  deriving DecidableEq, Repr

def Topic.ofVerb : Option Verb → Topic
  | none => .program
  | some v => .verb v

def Topic.ofWords? : List String → Option Topic
  | [] => some .program
  | [word] => if word = "help" then some .help else (Verb.ofLabel? word).map .verb
  | _ => none

inductive Stop where
  | usage
  | help (topic : Topic)
  | version
  deriving DecidableEq, Repr

inductive Word where
  | long (name : String) (value : Option String)
  | short (letters : List Char)
  | dashes
  | plain (text : String)
  deriving DecidableEq, Repr

def Word.ofText (text : String) : Word :=
  match text.toList with
  | ['-', '-'] => .dashes
  | '-' :: '-' :: rest =>
    let value := match rest.dropWhile (· != '=') with
      | [] => none
      | _ :: value => some (String.ofList value)
    .long (String.ofList (rest.takeWhile (· != '='))) value
  | '-' :: c :: rest => .short (c :: rest)
  | _ => .plain text

def orUsage {α : Type} (o : Option α) : Except Stop α :=
  match o with
  | some x => .ok x
  | none => .error .usage

def readLetters (verb : Option Verb) (g : Given) : List Char → Except Stop Given
  | [] => .ok g
  | c :: rest =>
    if c = 'h' then .error (.help (.ofVerb verb))
    else if c = 'V' && verb.isNone then .error .version
    else do
      let g ← orUsage ((Switch.ofLetter? c).bind g.switch?)
      readLetters verb g rest

def readLong (verb : Option Verb) (g : Given) (name : String) (value : Option String) :
    Except Stop (Given × Option Key) :=
  if name = "help" then .error (if value.isNone then .help (.ofVerb verb) else .usage)
  else if name = "version" && verb.isNone then .error (if value.isNone then .version else .usage)
  else
    let switch? := (Switch.allowed verb).find? (·.label == name)
    let key? := (Key.allowed verb).find? (·.label == name)
    match switch?, key? with
    | some s, _ => do
      if value.isSome then throw .usage
      return (← orUsage (g.switch? s), none)
    | none, some k =>
      match value with
      | some value => return (← orUsage (g.put? k value), none)
      | none => .ok (g, some k)
    | none, none => .error .usage

/-- An option without an attached value takes the next word, which must be plain. -/
def readPlace (verb : Option Verb) (g : Given) :
    (waiting : Option Key) → List String → Except Stop (Given × List String)
  | none, [] => .ok (g, [])
  | some _, [] => .error .usage
  | some k, word :: rest =>
    match Word.ofText word with
    | .plain value =>
      match g.put? k value with
      | some g => readPlace verb g none rest
      | none => .error .usage
    | _ => .error .usage
  | none, word :: rest =>
    match Word.ofText word with
    | .plain _ => .ok (g, word :: rest)
    | .dashes => if rest.isEmpty then .ok (g, []) else .error .usage
    | .short letters =>
      match readLetters verb g letters with
      | .ok g => readPlace verb g none rest
      | .error stop => .error stop
    | .long name value =>
      match readLong verb g name value with
      | .ok (g, waiting) => readPlace verb g waiting rest
      | .error stop => .error stop

structure Overrides where
  optimize : Option Bool := none
  runs : Option UInt32 := none
  evmVersion : Option String := none
  version : Option String := none
  minify : Bool := false
  deriving DecidableEq, Repr

def Overrides.apply (o : Overrides) (s : Settings) : Settings where
  version := o.version <|> s.version
  optimize := o.optimize <|> s.optimize
  runs := o.runs <|> s.runs
  evmVersion := o.evmVersion <|> s.evmVersion
  minifySource := o.minify || s.minifySource

def Given.overrides (g : Given) : Overrides where
  optimize :=
    if g.has .optimize then some true else if g.has .noOptimize then some false else none
  runs := (g.value? .runs).bind count?
  evmVersion := g.value? .evmVersion
  version := g.value? .compilerVersion
  minify := g.has .minify

inductive Action where
  | build (compiler : String) (overrides : Overrides)
  | status (overrides : Overrides)
  | clean (orphansOnly : Bool)
  deriving DecidableEq, Repr

structure Invocation where
  quiet : Bool := false
  verbose : Bool := false
  project : Option String := none
  action : Action
  deriving DecidableEq, Repr

def defaultCompiler : String := "kiln-solc"

def Given.action (g : Given) : Verb → Action
  | .build => .build ((g.value? .compiler).getD defaultCompiler) g.overrides
  | .status => .status g.overrides
  | .clean => .clean (g.has .orphans)

def Invocation.ofGiven (outer inner : Given) (verb : Verb) : Invocation where
  quiet := inner.has .quiet || outer.has .quiet
  verbose := inner.has .verbose || outer.has .verbose
  project := inner.value? .project <|> outer.value? .project
  action := inner.action verb

def Invocation.ofArguments (arguments : List String) : Except Stop Invocation := do
  match ← readPlace none {} none arguments with
  | (outer, word :: rest) =>
    match Verb.ofLabel? word with
    | some verb =>
      let (inner, extra) ← readPlace (some verb) {} none rest
      if extra.isEmpty && inner.isConsistent && outer.isConsistent then
        return .ofGiven outer inner verb
      else throw .usage
    | none =>
      match if word = "help" then Topic.ofWords? rest else none with
      | some topic => throw (.help topic)
      | none => throw .usage
  | (_, []) => throw .usage

end ContractBuild.CommandLine
