import ContractBuild.NameSet
import ContractBuild.Path
import ContractBuild.Text.Utf8

/-! A tree of directories and files, as one process sees it. Nodes are kept in a list, by the names
on the way from the top. What is below a directory follows right behind it, and of its children the
last one to come is the first one; this is the order in which directories are listed and walked. -/

namespace ContractBuild

/-- The names on the way from the top of the tree. -/
abbrev Location := List String

inductive Node where
  | directory
  | file (content : List UInt8)
  deriving DecidableEq, Repr

inductive FileError where
  | notFound
  | permissionDenied
  | exists
  | notDirectory
  | isDirectory
  | invalidArgument
  | nameTooLong
  | nulInName
  | notUtf8
  deriving DecidableEq, Repr

def FileError.reason : FileError → String
  | .notFound => "No such file or directory"
  | .permissionDenied => "Permission denied"
  | .exists => "File exists"
  | .notDirectory => "Not a directory"
  | .isDirectory => "Is a directory"
  | .invalidArgument => "Invalid argument"
  | .nameTooLong => "File name too long"
  | .nulInName => "file name contained an unexpected NUL byte"
  | .notUtf8 => "stream did not contain valid UTF-8"

/-- The number that the system has for an error; the last two are found without asking it. -/
def FileError.number? : FileError → Option Nat
  | .notFound => some 2
  | .permissionDenied => some 13
  | .exists => some 17
  | .notDirectory => some 20
  | .isDirectory => some 21
  | .invalidArgument => some 22
  | .nameTooLong => some 36
  | .nulInName | .notUtf8 => none

def FileError.message (e : FileError) : String :=
  match e.number? with
  | some n => e.reason ++ " (os error " ++ toString n ++ ")"
  | none => e.reason

structure FileTree where
  nodes : List (Location × Node)
  workingDirectory : Location
  deriving DecidableEq, Repr, Inhabited

namespace FileTree

def node? (t : FileTree) (l : Location) : Option Node :=
  if l = [] then some .directory else t.nodes.lookup l

def setNode (l : Location) (node : Node) : List (Location × Node) → List (Location × Node)
  | [] => []
  | (k, n) :: rest => if k = l then (l, node) :: rest else (k, n) :: setNode l node rest

def insertNode (l : Location) (node : Node) : List (Location × Node) → List (Location × Node)
  | [] => [(l, node)]
  | (k, n) :: rest =>
    if k = l.dropLast then (k, n) :: (l, node) :: rest else (k, n) :: insertNode l node rest

def insert (t : FileTree) (l : Location) (node : Node) : FileTree :=
  let nodes := if l.dropLast = [] then (l, node) :: t.nodes else insertNode l node t.nodes
  { t with nodes }

def remove (t : FileTree) (gone : Location → Bool) : FileTree :=
  { t with nodes := t.nodes.filter fun e => !gone e.1 }

def maxNameLength : Nat := 255

def maxPathLength : Nat := 4095

/-- Every step but the last one ends in a directory that is there. -/
def walk (t : FileTree) (l : Location) : List String → Except FileError Location
  | [] => .ok l
  | segment :: rest =>
    match t.node? l with
    | none => .error .notFound
    | some (.file _) => .error .notDirectory
    | some .directory =>
      if !Path.isStep segment then walk t l rest
      else if segment = ".." then walk t l.dropLast rest
      else if segment.utf8ByteSize > maxNameLength then .error .nameTooLong
      else walk t (l ++ [segment]) rest

def hasNul (segment : String) : Bool := segment.toList.contains (Char.ofNat 0)

def locate (t : FileTree) (p : Path) : Except FileError Location :=
  if p.segments.any hasNul then .error .nulInName
  else if p.text = "" then .error .notFound
  else if p.byteLength > maxPathLength then .error .nameTooLong
  else t.walk (if p.isAbsolute then [] else t.workingDirectory) p.segments

def find (t : FileTree) (p : Path) : Except FileError (Location × Node) :=
  match t.locate p with
  | .error e => .error e
  | .ok l =>
    match t.node? l with
    | none => .error .notFound
    | some node => .ok (l, node)

def pathExists (t : FileTree) (p : Path) : Bool := (t.find p).toOption.isSome

def isDirectory (t : FileTree) (p : Path) : Bool :=
  match t.find p with
  | .ok (_, .directory) => true
  | _ => false

def isFile (t : FileTree) (p : Path) : Bool :=
  match t.find p with
  | .ok (_, .file _) => true
  | _ => false

def canonical (t : FileTree) (p : Path) : Except FileError Path :=
  match t.find p with
  | .error e => .error e
  | .ok (l, _) => .ok (.absolute l)

def content (t : FileTree) (p : Path) : Except FileError (List UInt8) :=
  match t.find p with
  | .error e => .error e
  | .ok (_, .directory) => .error .isDirectory
  | .ok (_, .file content) => .ok content

def text (t : FileTree) (p : Path) : Except FileError String :=
  match t.content p with
  | .error e => .error e
  | .ok content =>
    match Text.ofBytes? content with
    | some s => .ok s
    | none => .error .notUtf8

def childName? (l : Location) (e : Location × Node) : Option String :=
  match e.1.getLast? with
  | some name => if e.1.dropLast = l then some name else none
  | none => none

def children (t : FileTree) (l : Location) : List String := t.nodes.filterMap (childName? l)

def depth (t : FileTree) : Nat := (t.nodes.map (·.1.length)).foldr max 0

def list (t : FileTree) (p : Path) : List String :=
  match t.find p with
  | .ok (l, .directory) => t.children l
  | _ => []

def makeDirectory (t : FileTree) (p : Path) : Except FileError FileTree :=
  match t.locate p.trimSlashes with
  | .error e => .error e
  | .ok l =>
    match t.node? l with
    | some _ => .error .exists
    | none => .ok (t.insert l .directory)

def ancestors : (steps : Nat) → Path → List Path
  | 0, p => [p]
  | steps + 1, p =>
    match p.parent? with
    | none => [p]
    | some q => p :: ancestors steps q

/-- What has been made stays when a later step fails. -/
def makeAll (t : FileTree) : List Path → Except FileError Unit × FileTree
  | [] => (.error .notFound, t)
  | p :: parents =>
    match t.makeDirectory p with
    | .ok t => (.ok (), t)
    | .error .notFound =>
      match parents with
      | [] => (.error .notFound, t)
      | _ =>
        match t.makeAll parents with
        | (.error e, t) => (.error e, t)
        | (.ok (), t) =>
          match t.makeDirectory p with
          | .ok t => (.ok (), t)
          | .error e => (if t.isDirectory p then .ok () else .error e, t)
    | .error e => (if t.isDirectory p then .ok () else .error e, t)

def makeDirectories (t : FileTree) (p : Path) : Except FileError Unit × FileTree :=
  t.makeAll (ancestors p.segments.length p)

def removeFile (t : FileTree) (p : Path) : Except FileError FileTree :=
  match t.find p with
  | .error e => .error e
  | .ok (_, .directory) => .error .isDirectory
  | .ok (l, .file _) => .ok (t.remove (· == l))

def writeFile (t : FileTree) (p : Path) (content : List UInt8) : Except FileError FileTree :=
  match t.locate p with
  | .error e => .error e
  | .ok l =>
    match t.node? l with
    | some .directory => .error .isDirectory
    | some (.file _) => .ok { t with nodes := setNode l (.file content) t.nodes }
    | none => .ok (t.insert l (.file content))

/-- A place that no file can have is an invalid one to move a file to. -/
def replaceFile (t : FileTree) (p : Path) (content : List UInt8) : Except FileError FileTree :=
  match t.locate p with
  | .error .nulInName => .error .invalidArgument
  | .error e => .error e
  | .ok l =>
    match t.node? l with
    | some .directory => .error .isDirectory
    | _ => .ok ((t.remove (· == l)).insert l (.file content))

def afterParents (t : FileTree) (p : Path) (step : FileTree → Except FileError FileTree) :
    Except FileError Unit × FileTree :=
  match t.makeDirectories (p.parent?.getD ⟨["."]⟩) with
  | (.error e, t) => (.error e, t)
  | (.ok (), t) =>
    match step t with
    | .error e => (.error e, t)
    | .ok t => (.ok (), t)

def writeInto (t : FileTree) (p : Path) (content : List UInt8) : Except FileError Unit × FileTree :=
  t.afterParents p (·.writeFile p content)

def replaceInto (t : FileTree) (p : Path) (content : List UInt8) :
    Except FileError Unit × FileTree :=
  t.afterParents p (·.replaceFile p content)

def removeAll (t : FileTree) (p : Path) : Bool × FileTree :=
  match t.find p with
  | .error _ => (false, t)
  | .ok (l, _) => (true, t.remove fun k => l.isPrefixOf k)

def listing (t : FileTree) (l : Location) : List String :=
  let line (e : Location × Node) : Option String :=
    if l.isPrefixOf e.1 ∧ e.1 ≠ l then
      let path := "/".intercalate (e.1.drop l.length)
      match e.2 with
      | .file _ => some path
      | .directory => if t.children e.1 = [] then some (path ++ "/") else none
    else none
  let lines := t.nodes.filterMap line
  if lines = [] then ["/"] else (NameSet.ofList lines).names

end FileTree
end ContractBuild
