import ContractBuild.Source.Lexical
import ContractBuild.Text.Utf8

/-! Sources without their cosmetics: comments are gone, and blanks too, except that one space keeps
two words apart. String literals are copied as they are. -/

namespace ContractBuild.Source

def endsInWord (out : List UInt8) : Bool := out.head?.any isWordByte

/-- `gap` says that something has been left out; the next `drop` bytes are left out, or `copy` bytes
copied. -/
def minifyOnto (out : List UInt8) (gap : Bool) (drop copy : Nat) : List UInt8 → List UInt8
  | [] => out.reverse
  | b :: rest =>
    match drop, copy with
    | drop + 1, copy => minifyOnto out gap drop copy rest
    | 0, copy + 1 => minifyOnto (b :: out) gap 0 copy rest
    | 0, 0 =>
      match commentTail? b rest with
      | some n => minifyOnto out true n 0 rest
      | none =>
        if isBlank b then minifyOnto out true 0 0 rest
        else
          let out := if gap && endsInWord out && isWordByte b then blank :: out else out
          minifyOnto (b :: out) false 0 ((literalTail? b rest).getD 0) rest

def minifyBytes (text : List UInt8) : List UInt8 := minifyOnto [] false 0 0 text

def minify (text : String) : String := Text.decodeLossy (minifyBytes (Text.bytes text))

end ContractBuild.Source
