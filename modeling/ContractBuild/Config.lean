import ContractBuild.Count
import ContractBuild.FileTree
import ContractBuild.Settings
import ContractBuild.Toml.Document

/-! Project configurations, as written in TOML. Unknown keys are passed over; a value of the wrong
type is an error, and so is an empty text where a text is asked for. -/

namespace ContractBuild

structure Config where
  name : Option String := none
  settings : Settings := {}
  deriving DecidableEq, Repr, Inhabited

namespace Config

open Toml (Value)

inductive Problem where
  | unreadable (cause : FileError)
  | malformed
  | emptyValue (key : String)
  deriving DecidableEq, Repr

def Problem.message : Problem → String
  | .unreadable cause => "failed to read configuration: " ++ cause.message
  | .malformed => "failed to parse configuration"
  | .emptyValue key => "validation error: " ++ key ++ " must not be empty"

def text? : Value → Option String
  | .text s => some s
  | _ => none

def boolean? : Value → Option Bool
  | .boolean b => some b
  | _ => none

def count? : Value → Option UInt32
  | .integer n => Count.ofInt? n
  | _ => none

/-- A section is a table, or an array with the fields in a fixed order; a date counts as one without
known keys. -/
def fields? (keys : List String) : Value → Option (List (String × Value))
  | .table entries => some entries
  | .array items => some (keys.zip items)
  | .dateTime => some []
  | _ => none

def field? {α : Type} (fields : List (String × Value)) (key : String) (read : Value → Option α)
    (default : α) : Option α :=
  match fields.lookup key with
  | none => some default
  | some v => read v

def nameOf? (section? : Option Value) : Option (Option String) :=
  match section? with
  | none => some none
  | some v => do
    let fields ← fields? ["name"] v
    field? fields "name" (fun v => (text? v).map some) none

def settingsOf? (section? : Option Value) : Option Settings :=
  match section? with
  | none => some {}
  | some v => do
    let d : Settings := {}
    let fields ← fields? ["version", "optimize", "runs", "evm_version", "minify_source"] v
    let version ← field? fields "version" (fun v => (text? v).map some) d.version
    let optimize ← field? fields "optimize" (fun v => (boolean? v).map some) d.optimize
    let runs ← field? fields "runs" (fun v => (count? v).map some) d.runs
    let evmVersion ← field? fields "evm_version" (fun v => (text? v).map some) d.evmVersion
    let minifySource ← field? fields "minify_source" boolean? d.minifySource
    return ⟨version, optimize, runs, evmVersion, minifySource⟩

def ofTables? (tables : List (String × Value)) : Option Config := do
  let name ← nameOf? (tables.lookup "project")
  let settings ← settingsOf? (tables.lookup "compiler")
  return ⟨name, settings⟩

def emptyKey? (c : Config) : Option String :=
  if c.name = some "" then some "project.name"
  else if c.settings.version = some "" then some "compiler.version"
  else if c.settings.evmVersion = some "" then some "compiler.evm_version"
  else none

def parse (text : String) : Except Problem Config :=
  match (Toml.parse? text).bind ofTables? with
  | none => .error .malformed
  | some c =>
    match c.emptyKey? with
    | some key => .error (.emptyValue key)
    | none => .ok c

def fileName : String := "kiln.toml"

def load (root : Path) (t : FileTree) : Except Problem Config :=
  let path := root.joinText fileName
  if t.isFile path then
    match t.text path with
    | .ok text => parse text
    | .error e => .error (.unreadable e)
  else .ok {}

end Config
end ContractBuild
