import ContractBuild.Toml.Text
import ContractBuild.Toml.Value

/-! Numbers, dates and truth values of TOML documents. -/

namespace ContractBuild.Toml

def isDigit (c : Char) : Bool := '0' ≤ c && c ≤ '9'

def digitsOnto? (accept : Char → Bool) (done : List Char) (afterDigit : Bool) :
    List Char → Option (List Char × List Char)
  | [] => if afterDigit then some (done.reverse, []) else none
  | c :: rest =>
    if accept c then digitsOnto? accept (c :: done) true rest
    else if !afterDigit then none
    else if c = '_' then digitsOnto? accept done false rest
    else some (done.reverse, c :: rest)

def digits? (accept : Char → Bool) (s : List Char) : Option (List Char × List Char) :=
  digitsOnto? accept [] false s

def numeral (base : Nat) (digits : List Char) : Nat :=
  digits.foldl (fun n c => n * base + (hexDigit? c).getD 0) 0

def takeSign : List Char → Bool × List Char
  | '+' :: rest => (false, rest)
  | '-' :: rest => (true, rest)
  | s => (false, s)

def wholePart? : List Char → Option (List Char × List Char)
  | '0' :: rest => some (['0'], rest)
  | s => digits? isDigit s

def exponentPart? (s : List Char) : Option (Int × List Char) :=
  let (negative, s) := takeSign s
  (digits? isDigit s).map fun r =>
    let n : Int := numeral 10 r.1
    (if negative then -n else n, r.2)

/-- Whether `digits * 10 ^ exponent` rounds to infinity. -/
def overflows (digits : Nat) (exponent : Int) : Bool :=
  let magnitude : Int := exponent + (Nat.toDigits 10 digits).length
  let bound := (Nat.pow 2 54 - 1) * Nat.pow 2 970
  if digits = 0 ∨ magnitude < 300 then false
  else if magnitude > 310 then true
  else bound * Nat.pow 10 (-exponent).toNat ≤ digits * Nat.pow 10 exponent.toNat

/-- Only a positive number may not be too large. -/
def float (negative : Bool) (digits : List Char) (exponent : Int) (rest : List Char) :
    Option (Value × List Char) :=
  if !negative && overflows (numeral 10 digits) exponent then none else some (.float, rest)

def withExponent? (negative : Bool) (digits : List Char) (places : Nat) (rest : List Char) :
    Option (Value × List Char) :=
  match rest with
  | 'e' :: more | 'E' :: more =>
    match exponentPart? more with
    | some (e, rest) => float negative digits (e - places) rest
    | none => none
  | _ => float negative digits (-places) rest

def integer (value : Int) (rest : List Char) : Option (Value × List Char) :=
  if -0x8000000000000000 ≤ value ∧ value < 0x8000000000000000 then some (.integer value, rest)
  else none

def decimal? (negative : Bool) (s : List Char) : Option (Value × List Char) :=
  match wholePart? s with
  | none => none
  | some (whole, rest) =>
    match rest with
    | '.' :: more =>
      match digits? isDigit more with
      | none => none
      | some (fraction, rest) => withExponent? negative (whole ++ fraction) fraction.length rest
    | 'e' :: _ | 'E' :: _ => withExponent? negative whole 0 rest
    | _ =>
      let n : Int := numeral 10 whole
      integer (if negative then -n else n) rest

def isHexDigit (c : Char) : Bool := (hexDigit? c).isSome

def based? (base : Nat) (accept : Char → Bool) (s : List Char) : Option (Value × List Char) :=
  match digits? accept s with
  | some (ds, rest) => integer (numeral base ds) rest
  | none => none

def number? (s : List Char) : Option (Value × List Char) :=
  match s with
  | '0' :: 'x' :: rest => based? 16 isHexDigit rest
  | '0' :: 'o' :: rest => based? 8 (fun c => '0' ≤ c && c ≤ '7') rest
  | '0' :: 'b' :: rest => based? 2 (fun c => c == '0' || c == '1') rest
  | _ =>
    let (negative, unsigned) := takeSign s
    match unsigned with
    | 'i' :: 'n' :: 'f' :: rest => some (.float, rest)
    | 'n' :: 'a' :: 'n' :: rest => some (.float, rest)
    | _ => decimal? negative unsigned

def fixed? (count : Nat) (s : List Char) : Option (Nat × List Char) :=
  let ds := s.take count
  if ds.length = count ∧ ds.all isDigit then some (numeral 10 ds, s.drop count) else none

def behind? (c : Char) : List Char → Option (List Char)
  | [] => none
  | d :: rest => if c = d then some rest else none

def daysInMonth (year month : Nat) : Nat :=
  if month = 2 then
    if year % 4 = 0 ∧ (year % 100 ≠ 0 ∨ year % 400 = 0) then 29 else 28
  else if month = 4 ∨ month = 6 ∨ month = 9 ∨ month = 11 then 30
  else 31

def date? (s : List Char) : Option (List Char) := do
  let (year, s) ← fixed? 4 s
  let (month, s) ← fixed? 2 (← behind? '-' s)
  let (day, s) ← fixed? 2 (← behind? '-' s)
  if 1 ≤ month ∧ month ≤ 12 ∧ 1 ≤ day ∧ day ≤ daysInMonth year month then some s else none

def hoursAndMinutes? (s : List Char) : Option (List Char) := do
  let (hour, s) ← fixed? 2 s
  let (minute, s) ← fixed? 2 (← behind? ':' s)
  if hour ≤ 23 ∧ minute ≤ 59 then some s else none

def fractionOfSecond : List Char → List Char
  | '.' :: c :: rest => if isDigit c then rest.dropWhile isDigit else '.' :: c :: rest
  | s => s

/-- A leap second is allowed at the end of every minute. -/
def time? (s : List Char) : Option (List Char) := do
  let s ← hoursAndMinutes? s
  let (second, s) ← fixed? 2 (← behind? ':' s)
  if second ≤ 60 then some (fractionOfSecond s) else none

def zone : List Char → List Char
  | 'Z' :: rest => rest
  | 'z' :: rest => rest
  | '+' :: rest => (hoursAndMinutes? rest).getD ('+' :: rest)
  | '-' :: rest => (hoursAndMinutes? rest).getD ('-' :: rest)
  | s => s

def dateTime? (s : List Char) : Option (List Char) :=
  match date? s with
  | some rest =>
    match rest with
    | c :: more =>
      if c = 'T' ∨ c = 't' ∨ c = ' ' then some (((time? more).map zone).getD rest) else some rest
    | [] => some []
  | none => time? s

def scalarValue? (s : List Char) : Option (Value × List Char) :=
  match s with
  | 't' :: 'r' :: 'u' :: 'e' :: rest => some (.boolean true, rest)
  | 'f' :: 'a' :: 'l' :: 's' :: 'e' :: rest => some (.boolean false, rest)
  | _ =>
    match dateTime? s with
    | some rest => some (.dateTime, rest)
    | none => number? s

end ContractBuild.Toml
