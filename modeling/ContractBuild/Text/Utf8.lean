/-! Texts as UTF-8 bytes. Decoding is strict, or puts U+FFFD in place of every longest run of bytes
that begins a character and cannot be completed. -/

namespace ContractBuild.Text

def bytes (s : String) : List UInt8 := s.toByteArray.data.toList

def ofBytes? (b : List UInt8) : Option String := String.fromUTF8? ⟨b.toArray⟩

theorem ofBytes?_bytes (s : String) : ofBytes? (bytes s) = some s := by
  simp only [ofBytes?, bytes, String.fromUTF8?, Array.toArray_toList]
  exact dif_pos s.isValidUTF8

/-- How many bytes are missing, between which bounds the next one lies, and the bits so far. -/
structure Partial where
  missing : Nat
  low : UInt8
  high : UInt8
  code : Nat

inductive Lead where
  | char (c : Char)
  | begins (p : Partial)
  | invalid

def Lead.of (b : UInt8) : Lead :=
  let n := b.toNat
  if n < 0x80 then .char (Char.ofNat n)
  else if n < 0xC2 then .invalid
  else if n < 0xE0 then .begins ⟨1, 0x80, 0xBF, n - 0xC0⟩
  else if n = 0xE0 then .begins ⟨2, 0xA0, 0xBF, 0⟩
  else if n = 0xED then .begins ⟨2, 0x80, 0x9F, 0xD⟩
  else if n < 0xF0 then .begins ⟨2, 0x80, 0xBF, n - 0xE0⟩
  else if n = 0xF0 then .begins ⟨3, 0x90, 0xBF, 0⟩
  else if n < 0xF4 then .begins ⟨3, 0x80, 0xBF, n - 0xF0⟩
  else if n = 0xF4 then .begins ⟨3, 0x80, 0x8F, 4⟩
  else .invalid

def replacement : Char := Char.ofNat 0xFFFD

def decodeLossyOnto (done : List Char) : Option Partial → List UInt8 → List Char
  | none, [] => done.reverse
  | some _, [] => (replacement :: done).reverse
  | none, b :: rest =>
    match Lead.of b with
    | .char c => decodeLossyOnto (c :: done) none rest
    | .begins p => decodeLossyOnto done (some p) rest
    | .invalid => decodeLossyOnto (replacement :: done) none rest
  | some p, b :: rest =>
    if p.low ≤ b ∧ b ≤ p.high then
      let code := p.code * 64 + (b.toNat - 0x80)
      if p.missing ≤ 1 then decodeLossyOnto (Char.ofNat code :: done) none rest
      else decodeLossyOnto done (some ⟨p.missing - 1, 0x80, 0xBF, code⟩) rest
    else
      match Lead.of b with
      | .char c => decodeLossyOnto (c :: replacement :: done) none rest
      | .begins q => decodeLossyOnto (replacement :: done) (some q) rest
      | .invalid => decodeLossyOnto (replacement :: replacement :: done) none rest

def decodeLossy (b : List UInt8) : String :=
  match ofBytes? b with
  | some s => s
  | none => String.ofList (decodeLossyOnto [] none b)

end ContractBuild.Text
