/-! XXH3 with 128 bits of output, seed zero and the default secret. Inputs of up to 16 bytes, of up
to 128, of up to 240, and longer ones are mixed in four different ways. All arithmetic is modulo
2^64 (or 2^32 where a value is halved). -/

namespace ContractBuild.Digest.Mixing

structure Halves where
  low : UInt64
  high : UInt64
  deriving DecidableEq, Repr

def prime32₁ : UInt64 := 0x9E3779B1
def prime32₂ : UInt64 := 0x85EBCA77
def prime32₃ : UInt64 := 0xC2B2AE3D
def prime64₁ : UInt64 := 0x9E3779B185EBCA87
def prime64₂ : UInt64 := 0xC2B2AE3D27D4EB4F
def prime64₃ : UInt64 := 0x165667B19E3779F9
def prime64₄ : UInt64 := 0x85EBCA77C2B2AE63
def prime64₅ : UInt64 := 0x27D4EB2F165667C5
def primeMix₁ : UInt64 := 0x165667919E3779F9
def primeMix₂ : UInt64 := 0x9FB21C651E98DF25

def secret : List UInt8 :=
  [0xb8, 0xfe, 0x6c, 0x39, 0x23, 0xa4, 0x4b, 0xbe, 0x7c, 0x01, 0x81, 0x2c, 0xf7, 0x21, 0xad, 0x1c,
   0xde, 0xd4, 0x6d, 0xe9, 0x83, 0x90, 0x97, 0xdb, 0x72, 0x40, 0xa4, 0xa4, 0xb7, 0xb3, 0x67, 0x1f,
   0xcb, 0x79, 0xe6, 0x4e, 0xcc, 0xc0, 0xe5, 0x78, 0x82, 0x5a, 0xd0, 0x7d, 0xcc, 0xff, 0x72, 0x21,
   0xb8, 0x08, 0x46, 0x74, 0xf7, 0x43, 0x24, 0x8e, 0xe0, 0x35, 0x90, 0xe6, 0x81, 0x3a, 0x26, 0x4c,
   0x3c, 0x28, 0x52, 0xbb, 0x91, 0xc3, 0x00, 0xcb, 0x88, 0xd0, 0x65, 0x8b, 0x1b, 0x53, 0x2e, 0xa3,
   0x71, 0x64, 0x48, 0x97, 0xa2, 0x0d, 0xf9, 0x4e, 0x38, 0x19, 0xef, 0x46, 0xa9, 0xde, 0xac, 0xd8,
   0xa8, 0xfa, 0x76, 0x3f, 0xe3, 0x9c, 0x34, 0x3f, 0xf9, 0xdc, 0xbb, 0xc7, 0xc7, 0x0b, 0x4f, 0x1d,
   0x8a, 0x51, 0xe0, 0x4b, 0xcd, 0xb4, 0x59, 0x31, 0xc8, 0x9f, 0x7e, 0xc9, 0xd9, 0x78, 0x73, 0x64,
   0xea, 0xc5, 0xac, 0x83, 0x34, 0xd3, 0xeb, 0xc3, 0xc5, 0x81, 0xa0, 0xff, 0xfa, 0x13, 0x63, 0xeb,
   0x17, 0x0d, 0xdd, 0x51, 0xb7, 0xf0, 0xda, 0x49, 0xd3, 0x16, 0x55, 0x26, 0x29, 0xd4, 0x68, 0x9e,
   0x2b, 0x16, 0xbe, 0x58, 0x7d, 0x47, 0xa1, 0xfc, 0x8f, 0xf8, 0xb8, 0xd1, 0x7a, 0xd0, 0x31, 0xce,
   0x45, 0xcb, 0x3a, 0x8f, 0x95, 0x16, 0x04, 0x28, 0xaf, 0xd7, 0xfb, 0xca, 0xbb, 0x4b, 0x40, 0x7e]

def littleEndian (b : List UInt8) : Nat := b.foldr (fun x n => x.toNat + 256 * n) 0

def read32 (b : List UInt8) (offset : Nat) : UInt64 :=
  UInt64.ofNat (littleEndian ((b.drop offset).take 4))

def read64 (b : List UInt8) (offset : Nat) : UInt64 :=
  UInt64.ofNat (littleEndian ((b.drop offset).take 8))

def octetsOnto {α : Type} (done : List (List α)) : List α → List (List α)
  | a :: b :: c :: d :: e :: f :: g :: h :: rest =>
    octetsOnto ([a, b, c, d, e, f, g, h] :: done) rest
  | _ => done.reverse

/-- An incomplete last group is left out. -/
def octets {α : Type} (l : List α) : List (List α) := octetsOnto [] l

def words (b : List UInt8) : List UInt64 :=
  (octets b).map fun o => UInt64.ofNat (littleEndian o)

def lower32 (x : UInt64) : UInt64 := x &&& 0xFFFFFFFF

def swap32 (x : UInt64) : UInt64 :=
  let byte (shift : UInt64) : UInt64 := (x >>> shift) &&& 0xFF
  byte 0 <<< 24 ||| byte 8 <<< 16 ||| byte 16 <<< 8 ||| byte 24

def swap64 (x : UInt64) : UInt64 := swap32 (lower32 x) <<< 32 ||| swap32 (x >>> 32)

def rotate32 (x : UInt64) (n : UInt64) : UInt64 := lower32 (x <<< n) ||| x >>> (32 - n)

def product (x y : UInt64) : Halves :=
  let p := x.toNat * y.toNat
  ⟨UInt64.ofNat p, UInt64.ofNat (p >>> 64)⟩

def foldedProduct (x y : UInt64) : UInt64 :=
  let p := product x y
  p.low ^^^ p.high

def avalanche (x : UInt64) : UInt64 :=
  let x := (x ^^^ x >>> 37) * primeMix₁
  x ^^^ x >>> 32

def strongAvalanche (x : UInt64) : UInt64 :=
  let x := (x ^^^ x >>> 33) * prime64₂
  let x := (x ^^^ x >>> 29) * prime64₃
  x ^^^ x >>> 32

def ofEmpty : Halves :=
  ⟨strongAvalanche (read64 secret 64 ^^^ read64 secret 72),
   strongAvalanche (read64 secret 80 ^^^ read64 secret 88)⟩

def ofTiny (b : List UInt8) : Halves :=
  let n := b.length
  let first := UInt64.ofNat (b.getD 0 0).toNat
  let middle := UInt64.ofNat (b.getD (n / 2) 0).toNat
  let last := UInt64.ofNat (b.getD (n - 1) 0).toNat
  let combined := first <<< 16 ||| middle <<< 24 ||| last ||| UInt64.ofNat n <<< 8
  let turned := rotate32 (swap32 combined) 13
  ⟨strongAvalanche (combined ^^^ (read32 secret 0 ^^^ read32 secret 4)),
   strongAvalanche (turned ^^^ (read32 secret 8 ^^^ read32 secret 12))⟩

def ofSmall (b : List UInt8) : Halves :=
  let n := b.length
  let both := read32 b 0 + read32 b (n - 4) <<< 32
  let keyed := both ^^^ (read64 secret 16 ^^^ read64 secret 24)
  let p := product keyed (prime64₁ + UInt64.ofNat n <<< 2)
  let high := p.high + p.low <<< 1
  let low := p.low ^^^ high >>> 3
  let low := (low ^^^ low >>> 35) * primeMix₂
  ⟨low ^^^ low >>> 28, avalanche high⟩

def ofShort (b : List UInt8) : Halves :=
  let n := b.length
  let first := read64 b 0
  let last := read64 b (n - 8)
  let p := product (first ^^^ last ^^^ (read64 secret 32 ^^^ read64 secret 40)) prime64₁
  let low := p.low + UInt64.ofNat (n - 1) <<< 54
  let last := last ^^^ (read64 secret 48 ^^^ read64 secret 56)
  let high := p.high + (last + lower32 last * (prime32₂ - 1))
  let low := low ^^^ swap64 high
  let q := product low prime64₂
  ⟨avalanche q.low, avalanche (q.high + high * prime64₂)⟩

def mix16 (b : List UInt8) (offset key : Nat) : UInt64 :=
  foldedProduct (read64 b offset ^^^ read64 secret key)
    (read64 b (offset + 8) ^^^ read64 secret (key + 8))

def mix32 (b : List UInt8) (acc : Halves) (left right key : Nat) : Halves :=
  ⟨(acc.low + mix16 b left key) ^^^ (read64 b right + read64 b (right + 8)),
   (acc.high + mix16 b right (key + 16)) ^^^ (read64 b left + read64 b (left + 8))⟩

def finishMedium (length : Nat) (acc : Halves) : Halves :=
  ⟨avalanche (acc.low + acc.high),
   0 - avalanche (acc.low * prime64₁ + acc.high * prime64₄ + UInt64.ofNat length * prime64₂)⟩

def ofMedium (b : List UInt8) : Halves :=
  let n := b.length
  let steps := (n - 1) / 32 + 1
  finishMedium n <| (List.range steps).foldr
    (fun i acc => mix32 b acc (16 * i) (n - 16 * (i + 1)) (32 * i)) ⟨UInt64.ofNat n * prime64₁, 0⟩

def ofLarge (b : List UInt8) : Halves :=
  let n := b.length
  let head := (List.range 4).foldl (fun acc i => mix32 b acc (32 * i) (32 * i + 16) (32 * i))
    ⟨UInt64.ofNat n * prime64₁, 0⟩
  let head : Halves := ⟨avalanche head.low, avalanche head.high⟩
  let body := (List.range (n / 32 - 4)).foldl
    (fun acc i => mix32 b acc (128 + 32 * i) (128 + 32 * i + 16) (3 + 32 * i)) head
  finishMedium n (mix32 b body (n - 16) (n - 32) 103)

def swapPairs : List UInt64 → List UInt64
  | x :: y :: rest => y :: x :: swapPairs rest
  | l => l

def accumulate (lanes stripe key : List UInt64) : List UInt64 :=
  let keyed := List.zipWith (· ^^^ ·) stripe key
  List.zipWith (· + ·) (List.zipWith (· + ·) lanes (swapPairs stripe))
    (keyed.map fun x => lower32 x * (x >>> 32))

def scramble (lanes key : List UInt64) : List UInt64 :=
  List.zipWith (fun (lane k : UInt64) => (lane ^^^ lane >>> 47 ^^^ k) * prime32₁) lanes key

def initialLanes : List UInt64 :=
  [prime32₃, prime64₁, prime64₂, prime64₃, prime64₄, prime32₂, prime64₅, prime32₁]

def secretWords : List UInt64 := words secret

/-- The lanes are scrambled after each sixteenth stripe. -/
def absorb (state : List UInt64 × Nat) (stripe : List UInt64) : List UInt64 × Nat :=
  let lanes := accumulate state.1 stripe (secretWords.drop state.2)
  if state.2 = 15 then (scramble lanes (secretWords.drop 16), 0) else (lanes, state.2 + 1)

def mergePairs : List UInt64 → List UInt64 → UInt64
  | x :: y :: lanes, k :: l :: key => foldedProduct (x ^^^ k) (y ^^^ l) + mergePairs lanes key
  | _, _ => 0

def mergeLanes (lanes : List UInt64) (offset : Nat) (start : UInt64) : UInt64 :=
  avalanche (start + mergePairs lanes (words (secret.drop offset)))

def ofLong (b : List UInt8) : Halves :=
  let n := b.length
  let stripes := (octets (words b)).take ((n - 1) / 64)
  let lanes := (stripes.foldl absorb (initialLanes, 0)).1
  let lanes := accumulate lanes (words (b.drop (n - 64))) (words (secret.drop 121))
  let size := UInt64.ofNat n
  ⟨mergeLanes lanes 11 (size * prime64₁), mergeLanes lanes 117 (~~~(size * prime64₂))⟩

def mix (b : List UInt8) : Halves :=
  let n := b.length
  if n = 0 then ofEmpty
  else if n ≤ 3 then ofTiny b
  else if n ≤ 8 then ofSmall b
  else if n ≤ 16 then ofShort b
  else if n ≤ 128 then ofMedium b
  else if n ≤ 240 then ofLarge b
  else ofLong b

end ContractBuild.Digest.Mixing
