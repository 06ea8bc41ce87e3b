import ContractBuild.Decimal.Double

/-! Decimals read as floating point numbers in one rounded step: the number nearest to the
significand is multiplied or divided by the number nearest to the power of ten. -/

namespace ContractBuild.Decimal

def powerOfTen (n : Nat) : Float := Float.ofScientific 1 false n

/-- `f * 10 ^ exponent`, unless that is too large for a finite number. -/
def scaled? : Nat → Float → Int → Option Float
  | 0, f, _ => some f
  | steps + 1, f, exponent =>
    if exponent.natAbs ≤ 308 then
      if 0 ≤ exponent then
        let r := f * powerOfTen exponent.toNat
        if r.isInf then none else some r
      else some (f / powerOfTen exponent.natAbs)
    else if f == 0 then some f
    else if 0 ≤ exponent then none
    else scaled? steps (f / powerOfTen 308) (exponent + 308)

def read? (negative : Bool) (significand : Nat) (exponent : Int) : Option Double :=
  (scaled? 4 (UInt64.ofNat significand).toFloat exponent).map fun f =>
    .ofFloat (if negative then -f else f)

end ContractBuild.Decimal
