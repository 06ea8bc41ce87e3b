import ContractBuild.Decimal.Double

/-! The shortest decimal that reads back as a given floating point number: the fewest digits for
which some decimal lies among the reals that round to the number, and of such decimals the one
nearest to it. All of it is exact arithmetic on natural numbers. -/

namespace ContractBuild.Decimal

structure Scientific where
  digits : Nat
  exponent : Int
  deriving DecidableEq, Repr

/-- A positive number and the bounds of the reals that round to it, over one denominator. -/
structure Interval where
  value : Nat
  lower : Nat
  upper : Nat
  denominator : Nat
  /-- Whether the bounds themselves round to the number. -/
  closed : Bool

def Interval.ofDouble (d : Double) : Interval :=
  let q := d.exponent - 2
  let unit := Nat.pow 2 q.toNat
  let m := 4 * d.significand
  { value := m * unit
    lower := (m - if d.narrowBelow then 1 else 2) * unit
    upper := (m + 2) * unit
    denominator := Nat.pow 2 (-q).toNat
    closed := d.significand % 2 == 0 }

def digitCount (n : Nat) : Nat := (Nat.toDigits 10 n).length

/-- The exponent `e` for which the value is at least `10 ^ (e - 1)` and less than `10 ^ e`. -/
def Interval.magnitude (i : Interval) : Int :=
  let whole := i.value / i.denominator
  if whole > 0 then digitCount whole
  else 1 - (digitCount ((i.denominator + i.value - 1) / i.value - 1) : Int)

def Interval.nearest? (i : Interval) (exponent : Int) : Option Nat :=
  let scale := Nat.pow 10 (-exponent).toNat
  let step := i.denominator * Nat.pow 10 exponent.toNat
  let value := i.value * scale
  let below := value / step
  let inside (n : Nat) : Bool :=
    let p := n * step
    if i.closed then i.lower * scale ≤ p && p ≤ i.upper * scale
    else i.lower * scale < p && p < i.upper * scale
  let remainder := value % step
  let belowIsNearer := 2 * remainder < step || (2 * remainder == step && below % 2 == 0)
  match inside below, inside (below + 1) with
  | true, true => some (if belowIsNearer then below else below + 1)
  | true, false => some below
  | false, true => some (below + 1)
  | false, false => none

def stripZeros : Nat → Scientific → Scientific
  | 0, s => s
  | fuel + 1, s =>
    if s.digits % 10 = 0 ∧ s.digits ≠ 0 then stripZeros fuel ⟨s.digits / 10, s.exponent + 1⟩ else s

def Interval.search (i : Interval) : Nat → Int → Scientific
  | 0, exponent =>
    let step := i.denominator * Nat.pow 10 exponent.toNat
    ⟨i.value * Nat.pow 10 (-exponent).toNat / step, exponent⟩
  | count + 1, exponent =>
    match i.nearest? exponent with
    | some n => stripZeros 20 ⟨n, exponent⟩
    | none => i.search count (exponent - 1)

def shortest (d : Double) : Scientific :=
  if d.significand = 0 then ⟨0, 0⟩
  else
    let i := Interval.ofDouble d
    i.search 17 (i.magnitude - 1)

structure Layout where
  /-- Places before the point that are written out; a negative number counts zeros behind it. -/
  leastPoint : Int
  greatestPoint : Int
  positiveSign : String

def zeros (n : Nat) : String := String.ofList (List.replicate n '0')

def Layout.spell (l : Layout) (s : Scientific) : String :=
  let ds := Nat.toDigits 10 s.digits
  let count := ds.length
  let point : Int := s.exponent + count
  if s.digits = 0 then "0.0"
  else if s.exponent ≥ 0 ∧ point ≤ l.greatestPoint then
    String.ofList ds ++ zeros s.exponent.toNat ++ ".0"
  else if 0 < point ∧ point ≤ l.greatestPoint then
    String.ofList (ds.take point.toNat) ++ "." ++ String.ofList (ds.drop point.toNat)
  else if l.leastPoint ≤ point ∧ point ≤ 0 then
    "0." ++ zeros (-point).toNat ++ String.ofList ds
  else
    let power := point - 1
    let head := if count = 1 then String.ofList ds
      else String.ofList (ds.take 1) ++ "." ++ String.ofList (ds.drop 1)
    head ++ "e" ++ (if power < 0 then "-" else l.positiveSign) ++ toString power.natAbs

def Layout.spellDouble (l : Layout) (d : Double) : String :=
  (if d.isNegative then "-" else "") ++ l.spell (shortest d)

end ContractBuild.Decimal
