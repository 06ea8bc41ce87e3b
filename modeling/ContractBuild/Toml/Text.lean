/-! Keys, strings and comments of TOML documents. -/

namespace ContractBuild.Toml

def isSpace (c : Char) : Bool := c == ' ' || c == '\t'

def skipSpaces (s : List Char) : List Char := s.dropWhile isSpace

def isPlain (c : Char) : Bool := c == '\t' || (32 ≤ c.toNat && c.toNat != 127)

def lineEnd? : List Char → Option (List Char)
  | '\n' :: rest => some rest
  | '\r' :: '\n' :: rest => some rest
  | _ => none

def skipComment : List Char → List Char
  | '#' :: rest => rest.dropWhile isPlain
  | s => s

def endOfLine? (s : List Char) : Option (List Char) :=
  match skipComment (skipSpaces s) with
  | [] => some []
  | s => lineEnd? s

def hexDigit? (c : Char) : Option Nat :=
  if '0' ≤ c ∧ c ≤ '9' then some (c.toNat - 48)
  else if 'a' ≤ c ∧ c ≤ 'f' then some (c.toNat - 87)
  else if 'A' ≤ c ∧ c ≤ 'F' then some (c.toNat - 55)
  else none

def scalar? (code : Nat) : Option Char :=
  if code < 0xD800 ∨ (0xDFFF < code ∧ code < 0x110000) then some (Char.ofNat code) else none

def simpleEscape? : Char → Option Char
  | 'b' => some (Char.ofNat 8)
  | 'f' => some (Char.ofNat 12)
  | 'n' => some '\n'
  | 'r' => some '\r'
  | 't' => some '\t'
  | '\\' => some '\\'
  | '"' => some '"'
  | _ => none

inductive Place where
  | plain
  | quotes (count : Nat)
  | escape
  | code (missing value : Nat)
  /-- Behind a backslash at the end of a line, before or behind the line end. -/
  | gap (crossed : Bool)
  | carriage (inGap : Bool)

structure Quoting where
  quote : Char
  escapes : Bool
  severalLines : Bool

def basic : Quoting := ⟨'"', true, false⟩
def literal : Quoting := ⟨'\'', false, false⟩
def longBasic : Quoting := ⟨'"', true, true⟩
def longLiteral : Quoting := ⟨'\'', false, true⟩

def Quoting.fromPlain? (q : Quoting) (done : List Char) (c : Char) : Option (Place × List Char) :=
  if c = '\\' ∧ q.escapes then some (.escape, done)
  else if c = '\n' ∧ q.severalLines then some (.plain, '\n' :: done)
  else if c = '\r' ∧ q.severalLines then some (.carriage false, done)
  else if isPlain c then some (.plain, c :: done)
  else none

def Quoting.fromEscape? (q : Quoting) (done : List Char) (c : Char) : Option (Place × List Char) :=
  if c = 'u' then some (.code 4 0, done)
  else if c = 'U' then some (.code 8 0, done)
  else if q.severalLines ∧ isSpace c then some (.gap false, done)
  else if q.severalLines ∧ c = '\n' then some (.gap true, done)
  else if q.severalLines ∧ c = '\r' then some (.carriage true, done)
  else (simpleEscape? c).map fun e => (.plain, e :: done)

def Quoting.step? (q : Quoting) (place : Place) (done : List Char) (c : Char) :
    Option (Place × List Char) :=
  match place with
  | .plain => if c = q.quote then some (.quotes 1, done) else q.fromPlain? done c
  | .quotes n => q.fromPlain? (List.replicate n q.quote ++ done) c
  | .escape => q.fromEscape? done c
  | .code missing value =>
    match hexDigit? c with
    | none => none
    | some d =>
      if missing ≤ 1 then (scalar? (value * 16 + d)).map fun e => (.plain, e :: done)
      else some (.code (missing - 1) (value * 16 + d), done)
  | .gap crossed =>
    if isSpace c then some (.gap crossed, done)
    else if c = '\n' then some (.gap true, done)
    else if c = '\r' then some (.carriage true, done)
    else if !crossed then none
    else if c = q.quote then some (.quotes 1, done)
    else q.fromPlain? done c
  | .carriage inGap =>
    if c ≠ '\n' then none
    else if inGap then some (.gap true, done)
    else some (.plain, '\n' :: done)

/-- Of three to five quotes the last three close it. -/
def Quoting.close? (q : Quoting) (count : Nat) (done rest : List Char) :
    Option (String × List Char) :=
  if 3 ≤ count ∧ count ≤ 5 then
    some (String.ofList (List.replicate (count - 3) q.quote ++ done).reverse, rest)
  else none

def Quoting.body? (q : Quoting) (place : Place) (done : List Char) :
    List Char → Option (String × List Char)
  | [] =>
    match place with
    | .quotes n => q.close? n done []
    | _ => none
  | c :: rest =>
    let next (_ : Unit) : Option (String × List Char) :=
      match q.step? place done c with
      | none => none
      | some (place, done) => q.body? place done rest
    match place with
    | .quotes n =>
      if c = q.quote then q.body? (.quotes (n + 1)) done rest
      else if 3 ≤ n then q.close? n done (c :: rest)
      else next ()
    | .plain =>
      if c = q.quote ∧ !q.severalLines then some (String.ofList done.reverse, rest) else next ()
    | _ => next ()

def longBody? (q : Quoting) (s : List Char) : Option (String × List Char) :=
  q.body? .plain [] ((lineEnd? s).getD s)

def string? : List Char → Option (String × List Char)
  | '"' :: '"' :: '"' :: rest => longBody? longBasic rest
  | '\'' :: '\'' :: '\'' :: rest => longBody? longLiteral rest
  | '"' :: rest => basic.body? .plain [] rest
  | '\'' :: rest => literal.body? .plain [] rest
  | _ => none

def isBareKeyChar (c : Char) : Bool :=
  ('0' ≤ c && c ≤ '9') || ('a' ≤ c && c ≤ 'z') || ('A' ≤ c && c ≤ 'Z') || c == '_' || c == '-'

def simpleKey? : List Char → Option (String × List Char)
  | '"' :: rest => basic.body? .plain [] rest
  | '\'' :: rest => literal.body? .plain [] rest
  | s =>
    let key := s.takeWhile isBareKeyChar
    if key.isEmpty then none else some (String.ofList key, s.dropWhile isBareKeyChar)

def keyParts? : (parts : Nat) → List Char → Option (List String × List Char)
  | 0, _ => none
  | parts + 1, s =>
    match simpleKey? (skipSpaces s) with
    | none => none
    | some (k, rest) =>
      match skipSpaces rest with
      | '.' :: rest => (keyParts? parts rest).map fun r => (k :: r.1, r.2)
      | rest => some ([k], rest)

/-- Keys have fewer than eighty parts. -/
def key? (s : List Char) : Option (List String × List Char) := keyParts? 79 s

end ContractBuild.Toml
