import ContractBuild.Decimal.Reading
import ContractBuild.Json

/-! Number tokens. A token without point and exponent is an integer if 64 bits hold it, signed or
unsigned, and it is not a negative zero. Every other token is a floating point number, of whose
digits those count that 64 bits hold; further ones in front of the point raise the exponent, and
further ones behind it are passed over. -/

namespace ContractBuild.Json

def digit? (c : Char) : Option Nat :=
  if '0' ≤ c ∧ c ≤ '9' then some (c.toNat - 48) else none

def isDigit (c : Char) : Bool := (digit? c).isSome

def wordBound : Nat := 0x10000000000000000

/-- Appends digits to a significand as long as 64 bits hold it; also counts them. -/
def appendDigits (significand count : Nat) : List Char → Nat × Nat × List Char
  | [] => (significand, count, [])
  | c :: rest =>
    match digit? c with
    | none => (significand, count, c :: rest)
    | some d =>
      let next := significand * 10 + d
      if next < wordBound then appendDigits next (count + 1) rest
      else (significand, count, c :: rest)

def readReal? (negative : Bool) (significand : Nat) (exponent : Int) (rest : List Char) :
    Option (Json × List Char) :=
  (Decimal.read? negative significand exponent).map fun d => (.real d, rest)

def decimalRun (s : List Char) : Nat × List Char :=
  ((s.takeWhile isDigit).foldl (fun n c => n * 10 + (c.toNat - 48)) 0, s.dropWhile isDigit)

/-- An exponent beyond 31 bits makes the number too large or zero. -/
def exponentDigits? (negative : Bool) (significand : Nat) (exponent : Int) (down : Bool)
    (s : List Char) : Option (Json × List Char) :=
  if (s.takeWhile isDigit).isEmpty then none
  else if (decimalRun s).1 < 0x80000000 then
    readReal? negative significand
      (if down then exponent - (decimalRun s).1 else exponent + (decimalRun s).1) (decimalRun s).2
  else if significand ≠ 0 ∧ !down then none
  else readReal? negative 0 0 (decimalRun s).2

def exponentPart? (negative : Bool) (significand : Nat) (exponent : Int) :
    List Char → Option (Json × List Char)
  | '+' :: rest => exponentDigits? negative significand exponent false rest
  | '-' :: rest => exponentDigits? negative significand exponent true rest
  | rest => exponentDigits? negative significand exponent false rest

def exponentOrEnd? (negative : Bool) (significand : Nat) (exponent : Int) :
    List Char → Option (Json × List Char)
  | 'e' :: rest => exponentPart? negative significand exponent rest
  | 'E' :: rest => exponentPart? negative significand exponent rest
  | rest => readReal? negative significand exponent rest

def fractionPart? (negative : Bool) (significand : Nat) (exponent : Int) (s : List Char) :
    Option (Json × List Char) :=
  if (s.takeWhile isDigit).isEmpty then none
  else
    let (significand, count, rest) := appendDigits significand 0 s
    exponentOrEnd? negative significand (exponent - count) (rest.dropWhile isDigit)

def wholeNumber (negative : Bool) (n : Nat) : Json :=
  if !negative then .integer n
  else if n = 0 ∨ n > 0x8000000000000000 then
    .real (.ofFloat (-(UInt64.ofNat n).toFloat))
  else .integer (-(n : Int))

def afterLong? (negative : Bool) (significand count : Nat) : List Char → Option (Json × List Char)
  | '.' :: more => fractionPart? negative significand count more
  | more => exponentOrEnd? negative significand count more

def afterWhole? (negative : Bool) (significand : Nat) (rest : List Char) :
    Option (Json × List Char) :=
  match rest with
  | '.' :: more => fractionPart? negative significand 0 more
  | 'e' :: more => exponentPart? negative significand 0 more
  | 'E' :: more => exponentPart? negative significand 0 more
  | c :: _ =>
    if isDigit c then
      afterLong? negative significand (rest.takeWhile isDigit).length (rest.dropWhile isDigit)
    else some (wholeNumber negative significand, rest)
  | [] => some (wholeNumber negative significand, [])

def number? (negative : Bool) : List Char → Option (Json × List Char)
  | [] => none
  | c :: rest =>
    match digit? c with
    | none => none
    | some 0 =>
      match rest with
      | d :: _ => if isDigit d then none else afterWhole? negative 0 rest
      | [] => afterWhole? negative 0 rest
    | some d =>
      let (significand, _, rest) := appendDigits d 1 rest
      afterWhole? negative significand rest

end ContractBuild.Json
