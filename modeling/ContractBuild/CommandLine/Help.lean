import ContractBuild.CommandLine.Arguments
import ContractBuild.Config

/-! The help on the command line: what it is about, how it is used, and tables of what can be given.
A table has two columns, unless the left one takes much of the width and a text does not fit beside
it; then every text stands below what it is about. -/

namespace ContractBuild.CommandLine

structure HelpEntry where
  head : String
  text : String
  deriving DecidableEq, Repr

namespace HelpEntry

def option (letter : Option Char) (name text : String) : HelpEntry where
  head :=
    match letter with
    | some c => "-" ++ c.toString ++ ", --" ++ name
    | none => "    --" ++ name
  text

def width : Nat := 100

def spaces (n : Nat) : String := String.ofList (List.replicate n ' ')

def column (entries : List HelpEntry) : Nat := entries.foldl (fun n e => max n e.head.length) 0

/-- A left column of more than two fifths of the width leaves no room for a long text. -/
def isCramped (entries : List HelpEntry) : Bool :=
  let taken := column entries + 4
  5 * taken > 2 * width && entries.any (·.text.length > width - taken)

def table (entries : List HelpEntry) : List String :=
  if isCramped entries then
    entries.flatMap fun e => ["  " ++ e.head, spaces 10 ++ e.text]
  else
    entries.map fun e =>
      "  " ++ e.head ++ spaces (column entries - e.head.length + 2) ++ e.text

end HelpEntry

def Verb.help : Verb → String
  | .build => "Compile every changed unit and its dependents"
  | .status => "Show which units a build would recompile"
  | .clean => "Delete build artifacts"

def Switch.help : Switch → String
  | .quiet => "Suppress all output except errors"
  | .verbose => "Enable verbose output"
  | .optimize => "Enable the optimizer"
  | .noOptimize => "Disable the optimizer"
  | .minify => "Fingerprint sources with comments and formatting stripped"
  | .orphans => "Only delete artifacts of units no longer declared in any source"

def Key.help : Key → String
  | .project =>
    "Project directory. Defaults to the nearest parent containing `" ++ Config.fileName ++ "`"
  | .compiler =>
    "Compiler program and its arguments (e.g., `--compiler \"solc-wrapper --fast\"`) [default: " ++
      defaultCompiler ++ "]"
  | .runs => "Optimizer runs"
  | .evmVersion => "Target EVM version (e.g., \"paris\")"
  | .compilerVersion => "Compiler version recorded in and compared against artifacts"

def Switch.entry (s : Switch) : HelpEntry := .option s.letter? s.label s.help

def Key.placeholder (k : Key) : String :=
  k.label.map fun c => if c = '-' then '_' else c.toUpper

def Key.entry (k : Key) : HelpEntry :=
  .option none (k.label ++ " <" ++ k.placeholder ++ ">") k.help

namespace Topic

def helpOfHelp : String := "Print this message or the help of the given subcommand(s)"

def helpEntry : HelpEntry := .option (some 'h') "help" "Print help"

def versionEntry : HelpEntry := .option (some 'V') "version" "Print version"

def about : Topic → String
  | .program => "Kiln contract build tool"
  | .verb v => v.help
  | .help => helpOfHelp

def usage : Topic → String
  | .program => "kiln [OPTIONS] <COMMAND>"
  | .verb v => "kiln " ++ v.label ++ " [OPTIONS]"
  | .help => "kiln help [COMMAND]..."

def options : Topic → List HelpEntry
  | .program =>
    [Switch.quiet.entry, Switch.verbose.entry, Key.project.entry, helpEntry, versionEntry]
  | .verb .build =>
    [Key.compiler.entry, Switch.quiet.entry, Switch.optimize.entry, Switch.verbose.entry,
      Switch.noOptimize.entry, Key.project.entry, Key.runs.entry, Key.evmVersion.entry,
      Key.compilerVersion.entry, Switch.minify.entry, helpEntry]
  | .verb .status =>
    [Switch.optimize.entry, Switch.quiet.entry, Switch.noOptimize.entry, Switch.verbose.entry,
      Key.project.entry, Key.runs.entry, Key.evmVersion.entry, Key.compilerVersion.entry,
      Switch.minify.entry, helpEntry]
  | .verb .clean =>
    [Switch.orphans.entry, Switch.quiet.entry, Switch.verbose.entry, Key.project.entry, helpEntry]
  | .help => []

def tables (t : Topic) : List (String × List HelpEntry) :=
  match t with
  | .program =>
    [("Commands", [Verb.build, .status, .clean].map (fun v => ⟨v.label, v.help⟩) ++
      [⟨"help", helpOfHelp⟩]), ("Options", t.options)]
  | .verb _ => [("Options", t.options)]
  | .help => [("Arguments", [⟨"[COMMAND]...", "Print help for the subcommand(s)"⟩])]

def text (t : Topic) : String :=
  let sections := t.tables.map fun (title, entries) => (title ++ ":") :: HelpEntry.table entries
  "\n\n".intercalate
    ([t.about, "Usage: " ++ t.usage] ++ sections.map ("\n".intercalate ·)) ++ "\n"

end Topic
end ContractBuild.CommandLine
