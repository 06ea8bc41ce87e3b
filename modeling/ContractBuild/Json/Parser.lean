import ContractBuild.Json.Number
import ContractBuild.NameMap
import ContractBuild.Text.Utf8

/-! Reading JSON texts. One value fills the text, blanks apart, and at most 127 arrays and objects
are open at a time. Of members with equal keys the last one stays. -/

namespace ContractBuild.Json

def isBlank (c : Char) : Bool := c == ' ' || c == '\n' || c == '\t' || c == '\r'

def skipBlanks (s : List Char) : List Char := s.dropWhile isBlank

def hexValue? (c : Char) : Option Nat :=
  if '0' ≤ c ∧ c ≤ '9' then some (c.toNat - 48)
  else if 'a' ≤ c ∧ c ≤ 'f' then some (c.toNat - 87)
  else if 'A' ≤ c ∧ c ≤ 'F' then some (c.toNat - 55)
  else none

def codeUnit? (a b c d : Char) : Option Nat := do
  return ((← hexValue? a) * 16 + (← hexValue? b)) * 256 + (← hexValue? c) * 16 + (← hexValue? d)

def simpleEscape? : Char → Option Char
  | '"' => some '"'
  | '\\' => some '\\'
  | '/' => some '/'
  | 'b' => some (Char.ofNat 8)
  | 'f' => some (Char.ofNat 12)
  | 'n' => some '\n'
  | 'r' => some '\r'
  | 't' => some '\t'
  | _ => none

/-- Halves of a surrogate pair stand side by side. -/
def stringBody? (done : List Char) : List Char → Option (List Char × List Char)
  | [] => none
  | '"' :: rest => some (done, rest)
  | '\\' :: 'u' :: a :: b :: c :: d :: rest =>
    match codeUnit? a b c d with
    | none => none
    | some n =>
      if n < 0xD800 ∨ 0xDFFF < n then stringBody? (Char.ofNat n :: done) rest
      else if 0xDC00 ≤ n then none
      else
        match rest with
        | '\\' :: 'u' :: e :: f :: g :: h :: rest' =>
          match codeUnit? e f g h with
          | none => none
          | some m =>
            if 0xDC00 ≤ m ∧ m ≤ 0xDFFF then
              stringBody? (Char.ofNat (0x10000 + (n - 0xD800) * 0x400 + (m - 0xDC00)) :: done) rest'
            else none
        | _ => none
  | '\\' :: c :: rest =>
    match simpleEscape? c with
    | some e => stringBody? (e :: done) rest
    | none => none
  | c :: rest => if c.toNat < 32 ∨ c = '\\' then none else stringBody? (c :: done) rest

def string? (s : List Char) : Option (String × List Char) :=
  (stringBody? [] s).map fun r => (String.ofList r.1.reverse, r.2)

def afterWord? : List Char → List Char → Option (List Char)
  | [], rest => some rest
  | _ :: _, [] => none
  | w :: word, c :: rest => if w = c then afterWord? word rest else none

def sortedMembers (found : List (String × Json)) : List (String × Json) :=
  (NameMap.ofList found.reverse).entries

mutual

/-- Every step takes a character, or opens a value behind a bracket or a comma. -/
def value? : (steps depth : Nat) → List Char → Option (Json × List Char)
  | 0, _, _ => none
  | steps + 1, depth, s =>
    match skipBlanks s with
    | 'n' :: rest => (afterWord? "ull".toList rest).map (.null, ·)
    | 't' :: rest => (afterWord? "rue".toList rest).map (.bool true, ·)
    | 'f' :: rest => (afterWord? "alse".toList rest).map (.bool false, ·)
    | '"' :: rest => (string? rest).map fun r => (.string r.1, r.2)
    | '-' :: rest => number? true rest
    | '[' :: rest =>
      match depth with
      | 0 => none
      | depth + 1 =>
        match skipBlanks rest with
        | ']' :: rest => some (.array [], rest)
        | rest => items? steps depth [] rest
    | '\x7b' :: rest =>
      match depth with
      | 0 => none
      | depth + 1 =>
        match skipBlanks rest with
        | '\x7d' :: rest => some (.object [], rest)
        | rest => members? steps depth [] rest
    | s => number? false s

def items? : (steps depth : Nat) → List Json → List Char → Option (Json × List Char)
  | 0, _, _, _ => none
  | steps + 1, depth, done, s =>
    match value? steps depth s with
    | none => none
    | some (v, rest) =>
      match skipBlanks rest with
      | ',' :: rest => items? steps depth (v :: done) rest
      | ']' :: rest => some (.array (v :: done).reverse, rest)
      | _ => none

def members? : (steps depth : Nat) → List (String × Json) → List Char → Option (Json × List Char)
  | 0, _, _, _ => none
  | steps + 1, depth, done, s =>
    match skipBlanks s with
    | '"' :: rest =>
      match string? rest with
      | none => none
      | some (key, rest) =>
        match skipBlanks rest with
        | ':' :: rest =>
          match value? steps depth rest with
          | none => none
          | some (v, rest) =>
            match skipBlanks rest with
            | ',' :: rest => members? steps depth ((key, v) :: done) rest
            | '\x7d' :: rest => some (.object (sortedMembers ((key, v) :: done)), rest)
            | _ => none
        | _ => none
    | _ => none

end

def maxDepth : Nat := 127

def parseWithin? (depth : Nat) (text : String) : Option Json :=
  let s := text.toList
  match value? (2 * s.length + 2) depth s with
  | some (v, rest) => if (skipBlanks rest).isEmpty then some v else none
  | none => none

def parse? (text : String) : Option Json := parseWithin? maxDepth text

def ofBytes? (content : List UInt8) : Option Json := (Text.ofBytes? content).bind parse?

end ContractBuild.Json
