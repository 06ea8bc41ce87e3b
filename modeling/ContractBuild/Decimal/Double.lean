/-! Finite binary floating point numbers of 64 bits, as bit patterns: one sign bit, eleven bits of
exponent, 52 bits of significand. -/

namespace ContractBuild.Decimal

structure Double where
  bits : UInt64
  deriving DecidableEq, Repr

namespace Double

def ofFloat (x : Float) : Double := ⟨x.toBits⟩

def toFloat (d : Double) : Float := Float.ofBits d.bits

def isNegative (d : Double) : Bool := d.bits >>> 63 == 1

def exponentField (d : Double) : Nat := (d.bits >>> 52 &&& 0x7FF).toNat

def fraction (d : Double) : Nat := (d.bits &&& 0xFFFFFFFFFFFFF).toNat

/-- The magnitude is `significand * 2 ^ exponent`. -/
def significand (d : Double) : Nat :=
  if d.exponentField = 0 then d.fraction else 0x10000000000000 + d.fraction

def exponent (d : Double) : Int := (max d.exponentField 1 : Nat) - 1075

/-- The next smaller magnitude is half as far away as the next larger one. -/
def narrowBelow (d : Double) : Bool := d.fraction == 0 && d.exponentField > 1

end Double
end ContractBuild.Decimal
