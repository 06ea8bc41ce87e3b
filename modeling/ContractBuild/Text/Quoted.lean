import ContractBuild.Text.Printable

/-! Quoted texts: between double quotes, with escapes for what is not printable. -/

namespace ContractBuild.Text

def hexDigits (n : Nat) : String := String.ofList (Nat.toDigits 16 n)

def codePointEscape (c : Char) : String := "\\u\x7b" ++ hexDigits c.toNat ++ "\x7d"

def quotedChar (c : Char) : String :=
  if c = Char.ofNat 0 then "\\0"
  else if c = '\t' then "\\t"
  else if c = '\r' then "\\r"
  else if c = '\n' then "\\n"
  else if c = '\\' then "\\\\"
  else if c = '"' then "\\\""
  else if extendsGrapheme c || !isPrintable c then codePointEscape c
  else c.toString

def quoted (s : String) : String := "\"" ++ String.join (s.toList.map quotedChar) ++ "\""

end ContractBuild.Text
