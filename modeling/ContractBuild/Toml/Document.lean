import ContractBuild.Toml.Scalar

/-! Reading TOML 1.0 documents. Arrays and inline tables nest fewer than eighty deep. -/

namespace ContractBuild.Toml

def skipFiller : (steps : Nat) → List Char → List Char
  | 0, s => s
  | steps + 1, s =>
    match skipSpaces s with
    | '#' :: rest =>
      match lineEnd? (rest.dropWhile isPlain) with
      | some rest => skipFiller steps rest
      | none => '#' :: rest
    | s =>
      match lineEnd? s with
      | some rest => skipFiller steps rest
      | none => s

def addKey? (key : List String) (value : Value) (entries : Entries) : Option Entries :=
  match key.getLast? with
  | none => none
  | some last => addValue? value last key.dropLast false false entries

mutual

/-- Every step takes a character, or opens a value behind one. -/
def value? : (steps depth : Nat) → List Char → Option (Value × List Char)
  | 0, _, _ => none
  | steps + 1, depth, s =>
    match s with
    | '[' :: rest =>
      match depth with
      | 0 => none
      | depth + 1 => items? steps depth [] rest
    | '\x7b' :: rest =>
      match depth with
      | 0 => none
      | depth + 1 =>
        match skipSpaces rest with
        | '\x7d' :: rest => some (.table [], rest)
        | rest => members? steps depth [] rest
    | '"' :: _ => (string? s).map fun r => (.text r.1, r.2)
    | '\'' :: _ => (string? s).map fun r => (.text r.1, r.2)
    | _ => scalarValue? s

def items? : (steps depth : Nat) → List Value → List Char → Option (Value × List Char)
  | 0, _, _, _ => none
  | steps + 1, depth, done, s =>
    match skipFiller s.length s with
    | ']' :: rest => some (.array done.reverse, rest)
    | s =>
      match value? steps depth s with
      | none => none
      | some (v, rest) =>
        match skipFiller rest.length rest with
        | ',' :: rest => items? steps depth (v :: done) rest
        | ']' :: rest => some (.array (v :: done).reverse, rest)
        | _ => none

def members? : (steps depth : Nat) → Entries → List Char → Option (Value × List Char)
  | 0, _, _, _ => none
  | steps + 1, depth, done, s =>
    match key? s with
    | none => none
    | some (key, rest) =>
      match rest with
      | '=' :: rest =>
        match value? steps depth (skipSpaces rest) with
        | none => none
        | some (v, rest) =>
          match addKey? key v done with
          | none => none
          | some done =>
            match skipSpaces rest with
            | ',' :: rest => members? steps depth done rest
            | '\x7d' :: rest => some (.table (entriesValue done), rest)
            | _ => none
      | _ => none

end

def maxDepth : Nat := 79

structure State where
  root : Entries
  header : List String

def State.addKey? (state : State) (key : List String) (value : Value) : Option State :=
  (alongHeader? (Toml.addKey? key value) state.header state.root).map fun root =>
    { state with root }

def State.open? (state : State) (header : List String)
    (define : String → Entries → Option Entries) : Option State :=
  match header.getLast? with
  | none => none
  | some last =>
    (alongHeader? (define last) header.dropLast state.root).map fun root => ⟨root, header⟩

def tableHeader? (state : State) (s : List Char) : Option (State × List Char) := do
  let (key, rest) ← key? s
  let rest ← endOfLine? (← behind? ']' rest)
  return (← state.open? key defineTable?, rest)

def elementHeader? (state : State) (s : List Char) : Option (State × List Char) := do
  let (key, rest) ← key? s
  let rest ← endOfLine? (← behind? ']' (← behind? ']' rest))
  return (← state.open? key addElement?, rest)

def keyLine? (state : State) (s : List Char) : Option (State × List Char) := do
  let (key, rest) ← key? s
  let rest ← behind? '=' rest
  let (v, rest) ← value? (2 * rest.length + 2) maxDepth (skipSpaces rest)
  let rest ← endOfLine? rest
  return (← state.addKey? key v, rest)

def line? (state : State) (s : List Char) : Option (State × List Char) :=
  match s with
  | '#' :: _ => (endOfLine? s).map (state, ·)
  | '[' :: '[' :: rest => elementHeader? state rest
  | '[' :: rest => tableHeader? state rest
  | '\n' :: rest => some (state, rest)
  | '\r' :: _ => (lineEnd? s).map (state, ·)
  | _ => keyLine? state s

def lines? : (steps : Nat) → State → List Char → Option State
  | 0, _, _ => none
  | steps + 1, state, s =>
    match skipSpaces s with
    | [] => some state
    | s =>
      match line? state s with
      | none => none
      | some (state, rest) => lines? steps state rest

def parse? (text : String) : Option (List (String × Value)) :=
  let s := text.toList
  let s := if s.head? = some (Char.ofNat 0xFEFF) then s.tail else s
  (lines? (s.length + 1) ⟨[], []⟩ s).map fun state => entriesValue state.root

end ContractBuild.Toml
