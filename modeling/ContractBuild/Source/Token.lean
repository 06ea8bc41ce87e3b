import ContractBuild.Source.Lexical

/-! The tokens of a contract source, with their places. Comments and blanks are left out; a string
literal is one token, so that the words on both its sides stay apart. -/

namespace ContractBuild.Source

inductive Lexeme where
  | word (text : String)
  /-- Any other character, given by its first byte; a literal by a double quote. -/
  | mark (byte : UInt8)
  deriving DecidableEq, Repr

structure Token where
  lexeme : Lexeme
  start : Nat
  stop : Nat
  deriving DecidableEq, Repr

def characterTail (b : UInt8) : Nat :=
  if 0xF0 ≤ b then 3 else if 0xE0 ≤ b then 2 else if 0xC0 ≤ b then 1 else 0

def asciiText (b : List UInt8) : String := String.ofList (b.map fun x => Char.ofNat x.toNat)

/-- Tokens onto those already found, the last one first; the next `skip` bytes are passed over. -/
def tokensOnto (found : List Token) (skip pos : Nat) : List UInt8 → List Token
  | [] => found.reverse
  | b :: rest =>
    match skip with
    | skip + 1 => tokensOnto found skip (pos + 1) rest
    | 0 =>
      match commentTail? b rest with
      | some n => tokensOnto found n (pos + 1) rest
      | none =>
        match literalTail? b rest with
        | some n => tokensOnto (⟨.mark doubleQuote, pos, pos + 1 + n⟩ :: found) n (pos + 1) rest
        | none =>
          if isBlank b then tokensOnto found 0 (pos + 1) rest
          else if isWordByte b then
            let more := rest.takeWhile isWordByte
            let word := asciiText (b :: more)
            let token : Token := ⟨.word word, pos, pos + 1 + more.length⟩
            tokensOnto (token :: found) more.length (pos + 1) rest
          else tokensOnto (⟨.mark b, pos, pos + 1⟩ :: found) (characterTail b) (pos + 1) rest

def tokens (text : List UInt8) : List Token := tokensOnto [] 0 0 text

end ContractBuild.Source
