/-! Values of TOML documents. Of floating point numbers and of dates only the presence is kept. -/

namespace ContractBuild.Toml

inductive Value where
  | text (value : String)
  | integer (value : Int)
  | boolean (value : Bool)
  | float
  | dateTime
  | array (items : List Value)
  | table (entries : List (String × Value))
  deriving Repr, Inhabited

/-- A table is `implicit` if only longer keys have named it, and `dotted` if a key with dots has
made it. -/
inductive Node where
  | leaf (value : Value)
  | table (implicit dotted : Bool) (entries : List (String × Node))
  | tables (elements : List (List (String × Node)))
  deriving Repr, Inhabited

abbrev Entries := List (String × Node)

mutual

def Node.value : Node → Value
  | .leaf v => v
  | .table _ _ entries => .table (entriesValue entries)
  | .tables elements => .array (elementsValue elements)

def entriesValue : List (String × Node) → List (String × Value)
  | [] => []
  | (k, n) :: rest => (k, n.value) :: entriesValue rest

def elementsValue : List (List (String × Node)) → List Value
  | [] => []
  | e :: rest => .table (entriesValue e) :: elementsValue rest

end

def replace (entries : Entries) (key : String) (node : Node) : Entries :=
  entries.map fun e => if e.1 == key then (key, node) else e

def updateLast? (change : Entries → Option Entries) :
    List Entries → Option (List Entries)
  | [] => none
  | [e] => (change e).map ([·])
  | e :: rest => (updateLast? change rest).map (e :: ·)

/-- `dotted` tells whether such a key made the table; `along`, whether parts of the key have been
followed. -/
def addValue? (value : Value) (key : String) :
    (path : List String) → (along dotted : Bool) → Entries → Option Entries
  | [], along, dotted, entries =>
    if along && !dotted then none
    else if (entries.lookup key).isSome then none
    else some (entries ++ [(key, .leaf value)])
  | k :: path, _, _, entries =>
    match entries.lookup k with
    | none =>
      (addValue? value key path true true []).map fun new => entries ++ [(k, .table true true new)]
    | some (.leaf _) => none
    | some (.tables elements) =>
      (updateLast? (addValue? value key path true false) elements).map fun new =>
        replace entries k (.tables new)
    | some (.table implicit dotted inner) =>
      if implicit then
        (addValue? value key path true dotted inner).map fun new =>
          replace entries k (.table true dotted new)
      else none

def alongHeader? (change : Entries → Option Entries) : List String → Entries → Option Entries
  | [], entries => change entries
  | k :: path, entries =>
    match entries.lookup k with
    | none => (alongHeader? change path []).map fun new => entries ++ [(k, .table true false new)]
    | some (.leaf _) => none
    | some (.tables elements) =>
      (updateLast? (alongHeader? change path) elements).map fun new =>
        replace entries k (.tables new)
    | some (.table implicit dotted inner) =>
      (alongHeader? change path inner).map fun new =>
        replace entries k (.table implicit dotted new)

def defineTable? (key : String) (entries : Entries) : Option Entries :=
  match entries.lookup key with
  | none => some (entries ++ [(key, .table false false [])])
  | some (.table true false inner) => some (replace entries key (.table false false inner))
  | some _ => none

def addElement? (key : String) (entries : Entries) : Option Entries :=
  match entries.lookup key with
  | none => some (entries ++ [(key, .tables [[]])])
  | some (.tables elements) => some (replace entries key (.tables (elements ++ [[]])))
  | some _ => none

end ContractBuild.Toml
