/-! Sets of characters given by ranges of code points, both ends included. -/

namespace ContractBuild.Text

abbrev CharRanges := List (Nat × Nat)

def CharRanges.contains (rs : CharRanges) (c : Char) : Bool :=
  rs.any fun r => r.1 ≤ c.toNat && c.toNat ≤ r.2

end ContractBuild.Text
