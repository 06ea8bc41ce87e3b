import ContractBuild.Text.Blank

/-! File paths as texts: segments with slashes between them. The first segment of an absolute path
is empty; other empty segments, and those that are a single dot, name no step. -/

namespace ContractBuild

structure Path where
  segments : List String
  deriving DecidableEq, Repr, Inhabited

namespace Path

def ofText (text : String) : Path := ⟨Text.splitOn '/' text⟩

def text (p : Path) : String := "/".intercalate p.segments

def absolute (names : List String) : Path :=
  match names with
  | [] => ⟨["", ""]⟩
  | _ => ⟨"" :: names⟩

def isAbsolute (p : Path) : Bool := p.segments.head? == some "" && p.segments.length > 1

def join (p q : Path) : Path :=
  if q.isAbsolute then q
  else if p.segments.getLast? == some "" then ⟨p.segments.dropLast ++ q.segments⟩
  else ⟨p.segments ++ q.segments⟩

def joinText (p : Path) (text : String) : Path := p.join (ofText text)

def isStep (segment : String) : Bool := segment != "" && segment != "."

def trimSlashes (p : Path) : Path :=
  match p.segments.reverse.dropWhile (· == "") with
  | [] => if p.isAbsolute then ⟨["", ""]⟩ else p
  | kept => ⟨kept.reverse⟩

def dropIdle (reversed : List String) : List String := reversed.dropWhile (!isStep ·)

def parent? (p : Path) : Option Path :=
  match dropIdle p.segments.reverse with
  | [] => none
  | _ :: rest =>
    match dropIdle rest with
    | [] => some (if p.isAbsolute then ⟨["", ""]⟩ else ⟨[""]⟩)
    | kept => some ⟨kept.reverse⟩

def byteLength (p : Path) : Nat := p.text.utf8ByteSize

/-- The last dot of a file name parts its extension from its stem, unless it stands in front. -/
def splitName (name : String) : String × Option String :=
  match (Text.pieces (· == '.') name.toList).reverse with
  | extension :: rest =>
    let stem := ".".intercalate (rest.reverse.map String.ofList)
    if stem.isEmpty then (name, none) else (stem, some (String.ofList extension))
  | [] => (name, none)

def stemOf (name : String) : String := (splitName name).1

def extensionOf? (name : String) : Option String := (splitName name).2

end Path
end ContractBuild
