/-! Counts: whole numbers that 32 bits without a sign hold. -/

namespace ContractBuild.Count

def bound : Int := 0x100000000

def ofInt? (n : Int) : Option UInt32 :=
  if 0 ≤ n ∧ n < bound then some (UInt32.ofNat n.toNat) else none

end ContractBuild.Count
