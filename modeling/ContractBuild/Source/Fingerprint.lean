import ContractBuild.Digest
import ContractBuild.Source.Declaration
import ContractBuild.Source.Minified

/-! The fingerprint of a unit: a digest of its name and of the file that declares it with the
declarations of all other units cut out. Code at file scope counts; edits of siblings do not. -/

namespace ContractBuild.Source

def slice (text : List UInt8) (start stop : Nat) : List UInt8 :=
  (text.drop start).take (stop - start)

/-- What lies between the given declarations, from `pos` on; nothing is cut twice. -/
def piecesBetween (text : List UInt8) (pos : Nat) : List Declaration → List (List UInt8)
  | [] => [text.drop pos]
  | d :: rest =>
    if pos ≤ d.start then slice text pos d.start :: piecesBetween text (max pos d.stop) rest
    else piecesBetween text (max pos d.stop) rest

/-- What is left of a text for a unit; the whole text if it does not declare the unit. -/
def remainder (text : List UInt8) (unit : String) : List (List UInt8) :=
  let ds := declarations text
  if ds.any (·.name == unit) then piecesBetween text 0 (ds.filter (·.name != unit)) else [text]

def fingerprintParts (text : String) (unit : String) (minified : Bool) : List (List UInt8) :=
  let text := if minified then minify text else text
  Text.bytes unit :: remainder (Text.bytes text) unit

def fingerprintText (text : String) (unit : String) (minified : Bool) : Digest :=
  Digest.ofParts (fingerprintParts text unit minified)

end ContractBuild.Source
