import ContractBuild.Digest.Mixing
import ContractBuild.Text.Utf8

/-! Content digests: sixteen bytes that stand for a content, written as 32 hexadecimal digits. -/

namespace ContractBuild

structure Digest where
  bytes : List UInt8
  length_eq : bytes.length = 16
  deriving DecidableEq, Repr

namespace Digest

/-- The `count` low bytes of a number, the least significant one first. -/
def lowBytes : Nat → Nat → List UInt8
  | 0, _ => []
  | count + 1, n => UInt8.ofNat n :: lowBytes count (n / 256)

theorem length_lowBytes (count n : Nat) : (lowBytes count n).length = count := by
  induction count generalizing n with
  | zero => rfl
  | succ count ih => simp [lowBytes, ih]

def ofHalves (h : Mixing.Halves) : Digest :=
  ⟨lowBytes 8 h.low.toNat ++ lowBytes 8 h.high.toNat, by simp [length_lowBytes]⟩

def ofBytes (content : List UInt8) : Digest := ofHalves (Mixing.mix content)

def ofText (content : String) : Digest := ofBytes (Text.bytes content)

def framePart (part : List UInt8) : List UInt8 := lowBytes 8 part.length ++ part

def frame (parts : List (List UInt8)) : List UInt8 := parts.flatMap framePart

def ofParts (parts : List (List UInt8)) : Digest := ofBytes (frame parts)

def hexDigit (n : Nat) : Char := Char.ofNat (if n < 10 then 48 + n else 87 + n)

def hexPair (b : UInt8) : List Char := [hexDigit (b.toNat / 16), hexDigit (b.toNat % 16)]

def hex (d : Digest) : String := String.ofList (d.bytes.flatMap hexPair)

def brief (d : Digest) : String :=
  "ContentHash(" ++
    String.ofList ((d.bytes.take 2).flatMap hexPair) ++ "..)"

def hexValue? (c : Char) : Option Nat :=
  if '0' ≤ c ∧ c ≤ '9' then some (c.toNat - 48)
  else if 'a' ≤ c ∧ c ≤ 'f' then some (c.toNat - 87)
  else if 'A' ≤ c ∧ c ≤ 'F' then some (c.toNat - 55)
  else none

/-- Two digits, or a plus sign and one digit. -/
def octet? (high low : Char) : Option UInt8 := do
  let l ← hexValue? low
  let h ← if high = '+' then some 0 else hexValue? high
  return UInt8.ofNat (16 * h + l)

def octets? : List Char → Option (List UInt8)
  | [] => some []
  | [_] => none
  | h :: l :: rest => do
    let b ← octet? h l
    let more ← octets? rest
    return b :: more

def parse? (text : String) : Option Digest :=
  match octets? text.toList with
  | none => none
  | some b => if h : b.length = 16 then some ⟨b, h⟩ else none

def parseMessage (text : String) : String :=
  "invalid content hash '" ++ text ++ "': expected 32 hex characters"

end Digest
end ContractBuild
