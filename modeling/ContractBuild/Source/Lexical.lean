/-! Bytes of a contract source: blanks, words, comments and string literals. A literal or comment
that is not closed runs to the end of the text. Lengths are counted behind the first byte, so that
a recursion on the text passes over them one byte at a time. -/

namespace ContractBuild.Source

def slash : UInt8 := 0x2F
def star : UInt8 := 0x2A
def newline : UInt8 := 0x0A
def backslash : UInt8 := 0x5C
def doubleQuote : UInt8 := 0x22
def singleQuote : UInt8 := 0x27
def blank : UInt8 := 0x20

def isBlank (b : UInt8) : Bool := b == 0x20 || b == 0x09 || b == 0x0A || b == 0x0C || b == 0x0D

def isWordByte (b : UInt8) : Bool :=
  (0x30 ≤ b && b ≤ 0x39) || (0x41 ≤ b && b ≤ 0x5A) || (0x61 ≤ b && b ≤ 0x7A) || b == 0x5F ||
    b == 0x24

def isQuote (b : UInt8) : Bool := b == doubleQuote || b == singleQuote

/-- Adds to `n` the bytes up to and with the first `*/`. -/
def blockLength (n : Nat) : List UInt8 → Nat
  | [] => n
  | b :: rest =>
    if b = star ∧ rest.head? = some slash then n + 2 else blockLength (n + 1) rest

/-- The number of bytes behind `b`. The line feed that ends a line comment does not belong to it. -/
def commentTail? (b : UInt8) (rest : List UInt8) : Option Nat :=
  if b = slash then
    match rest with
    | [] => none
    | c :: more =>
      if c = slash then some (rest.takeWhile (· != newline)).length
      else if c = star then some (blockLength 1 more)
      else none
  else none

/-- A backslash takes the byte behind it along. -/
def literalLength (quote : UInt8) (n : Nat) : List UInt8 → Nat
  | [] => n
  | [_] => n + 1
  | b :: c :: rest =>
    if b = backslash then literalLength quote (n + 2) rest
    else if b = quote then n + 1
    else literalLength quote (n + 1) (c :: rest)

def literalTail? (b : UInt8) (rest : List UInt8) : Option Nat :=
  if isQuote b then some (literalLength b 0 rest) else none

end ContractBuild.Source
