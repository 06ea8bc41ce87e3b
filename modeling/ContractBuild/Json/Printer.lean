import ContractBuild.Decimal.Shortest
import ContractBuild.Json

/-! Two spellings of JSON values: one without any blanks, and one with a line for every item or
member, indented by two blanks a level. -/

namespace ContractBuild.Json

/-- Numbers are positional from 0.00001 up to below 10^16. -/
def realLayout : Decimal.Layout := ⟨-4, 16, "+"⟩

def realText (d : Decimal.Double) : String := realLayout.spellDouble d

def escapedChar (c : Char) : String :=
  if c = '"' then "\\\""
  else if c = '\\' then "\\\\"
  else if c = Char.ofNat 8 then "\\b"
  else if c = '\t' then "\\t"
  else if c = '\n' then "\\n"
  else if c = Char.ofNat 12 then "\\f"
  else if c = '\r' then "\\r"
  else if c.toNat < 32 then
    "\\u00" ++ String.ofList [Nat.digitChar (c.toNat / 16), Nat.digitChar (c.toNat % 16)]
  else c.toString

def stringText (s : String) : String := "\"" ++ String.join (s.toList.map escapedChar) ++ "\""

mutual

def compact : Json → String
  | .null => "null"
  | .bool b => if b then "true" else "false"
  | .integer n => toString n
  | .real d => realText d
  | .string s => stringText s
  | .array items => "[" ++ ",".intercalate (compactItems items) ++ "]"
  | .object members => "\x7b" ++ ",".intercalate (compactMembers members) ++ "\x7d"

def compactItems : List Json → List String
  | [] => []
  | x :: xs => compact x :: compactItems xs

def compactMembers : List (String × Json) → List String
  | [] => []
  | (k, x) :: xs => (stringText k ++ ":" ++ compact x) :: compactMembers xs

end

def newline (level : Nat) : String := "\n" ++ String.ofList (List.replicate (2 * level) ' ')

def bracketed (opening closing : String) (level : Nat) (lines : List String) : String :=
  match lines with
  | [] => opening ++ closing
  | _ => opening ++ newline (level + 1) ++ ("," ++ newline (level + 1)).intercalate lines ++
      newline level ++ closing

mutual

def indented (level : Nat) : Json → String
  | .null => "null"
  | .bool b => if b then "true" else "false"
  | .integer n => toString n
  | .real d => realText d
  | .string s => stringText s
  | .array items => bracketed "[" "]" level (indentedItems (level + 1) items)
  | .object members => bracketed "\x7b" "\x7d" level (indentedMembers (level + 1) members)

def indentedItems (level : Nat) : List Json → List String
  | [] => []
  | x :: xs => indented level x :: indentedItems level xs

def indentedMembers (level : Nat) : List (String × Json) → List String
  | [] => []
  | (k, x) :: xs => (stringText k ++ ": " ++ indented level x) :: indentedMembers level xs

end

def pretty (value : Json) : String := indented 0 value

end ContractBuild.Json
