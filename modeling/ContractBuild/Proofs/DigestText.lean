import ContractBuild.Proofs.ArtifactText

/-! Digests as texts. A pair of characters is read as a byte if it is two hexadecimal digits, or a plus
sign and a digit; the sign counts as a zero. Main statement: which texts are read, which digest a text
stands for, and which texts stand for the same digest. -/

namespace ContractBuild.Digest

def IsHexDigit (c : Char) : Prop := c ∈ "0123456789abcdefABCDEF".toList

instance : DecidablePred IsHexDigit := fun _ => inferInstanceAs (Decidable (_ ∈ _))

def IsHexText (text : String) : Prop :=
  text.toList.length = 32 ∧ ∀ c ∈ text.toList, IsHexDigit c

/-- Digits, with plus signs in some of the even places. -/
def SignedPairs (cs : List Char) : Prop :=
  ∀ i c, cs[i]? = some c → IsHexDigit c ∨ c = '+' ∧ i % 2 = 0

def IsSignedText (text : String) : Prop := text.toList.length = 32 ∧ SignedPairs text.toList

def plainDigit (c : Char) : Char := if c = '+' then '0' else c.toLower

/-- The text in lower case, with zeros for its plus signs. -/
def unsigned (text : String) : String := text.map plainDigit

section Digits

variable {c h l : Char} {n : Nat} {b : UInt8}

theorem isHexDigit_of_hexValue? (hc : hexValue? c = some n) : IsHexDigit c := by
  have hbounds : 48 ≤ c.toNat ∧ c.toNat ≤ 57 ∨ 97 ≤ c.toNat ∧ c.toNat ≤ 102 ∨
      65 ≤ c.toNat ∧ c.toNat ≤ 70 := by
    rw [hexValue?] at hc
    split at hc
    · rename_i hdigit
      exact Or.inl hdigit
    · split at hc
      · rename_i hlower
        exact Or.inr (Or.inl hlower)
      · split at hc
        · rename_i hupper
          exact Or.inr (Or.inr hupper)
        · cases hc
  have hall : ∀ m, m < 128 → (48 ≤ m ∧ m ≤ 57 ∨ 97 ≤ m ∧ m ≤ 102 ∨ 65 ≤ m ∧ m ≤ 70) →
      IsHexDigit (Char.ofNat m) := by decide
  have hc' := hall c.toNat (by omega) hbounds
  rwa [Char.ofNat_toNat] at hc'

theorem hexValue?_of_isHexDigit (hc : IsHexDigit c) :
    ∃ n < 16, hexValue? c = some n ∧ hexDigit n = plainDigit c := by
  have hall : ("0123456789abcdefABCDEF".toList.all fun c =>
      (hexValue? c).any fun n => n < 16 && hexDigit n == plainDigit c) = true := by decide
  obtain ⟨n, hvalue, hn⟩ := (Option.any_eq_true _ _).1 (List.all_eq_true.1 hall c hc)
  rw [Bool.and_eq_true, decide_eq_true_eq, beq_iff_eq] at hn
  exact ⟨n, hn.1, hvalue, hn.2⟩

theorem hexPair_ofNat {m n : Nat} (hm : m < 16) (hn : n < 16) :
    hexPair (UInt8.ofNat (16 * m + n)) = [hexDigit m, hexDigit n] := by
  have hbyte : (UInt8.ofNat (16 * m + n)).toNat = 16 * m + n := UInt8.toNat_ofNat_of_lt' (by
    show _ < 256
    omega)
  rw [hexPair, hbyte, show (16 * m + n) / 16 = m by omega, show (16 * m + n) % 16 = n by omega]

theorem hexPair_inj {b' : UInt8} (h : hexPair b = hexPair b') : b = b' := by
  have hread := octet?_hexPair b
  obtain ⟨hhigh, hlow⟩ := List.cons.inj h
  rw [hhigh, (List.cons.inj hlow).1, octet?_hexPair] at hread
  exact (Option.some.inj hread).symm

def firstValue? (h : Char) : Option Nat := if h = '+' then some 0 else hexValue? h

theorem octet?_eq_bind (h l : Char) : octet? h l =
    (hexValue? l).bind fun n => (firstValue? h).map fun m => UInt8.ofNat (16 * m + n) := by
  rw [octet?, firstValue?]
  cases hexValue? l with
  | none => rfl
  | some n =>
    split
    · rfl
    · cases hexValue? h <;> rfl

theorem digits_of_octet? (hb : octet? h l = some b) : (IsHexDigit h ∨ h = '+') ∧ IsHexDigit l := by
  rw [octet?_eq_bind] at hb
  obtain ⟨n, hn, hb⟩ := Option.bind_eq_some_iff.1 hb
  obtain ⟨m, hm, -⟩ := Option.map_eq_some_iff.1 hb
  refine ⟨?_, isHexDigit_of_hexValue? hn⟩
  rw [firstValue?] at hm
  split at hm
  · rename_i hplus
    exact Or.inr hplus
  · exact Or.inl (isHexDigit_of_hexValue? hm)

theorem exists_octet? (hh : IsHexDigit h ∨ h = '+') (hl : IsHexDigit l) :
    ∃ b, octet? h l = some b ∧ hexPair b = [plainDigit h, plainDigit l] := by
  obtain ⟨m, hm, hhigh, hwritten⟩ : ∃ m < 16, firstValue? h = some m ∧ hexDigit m = plainDigit h := by
    by_cases hplus : h = '+'
    · exact ⟨0, by decide, if_pos hplus, by rw [hplus]; decide⟩
    · obtain ⟨m, hm, hvalue, hdigit⟩ := hexValue?_of_isHexDigit (hh.resolve_right hplus)
      exact ⟨m, hm, (if_neg hplus).trans hvalue, hdigit⟩
  obtain ⟨n, hn, hlow, hwritten'⟩ := hexValue?_of_isHexDigit hl
  refine ⟨UInt8.ofNat (16 * m + n), ?_, ?_⟩
  · rw [octet?_eq_bind, hlow, hhigh]
    rfl
  · rw [hexPair_ofNat hm hn, hwritten, hwritten']

theorem octet?_eq_some_iff : octet? h l = some b ↔
    (IsHexDigit h ∨ h = '+') ∧ IsHexDigit l ∧ hexPair b = [plainDigit h, plainDigit l] := by
  constructor
  · intro hb
    obtain ⟨hh, hl⟩ := digits_of_octet? hb
    obtain ⟨b', hb', hpair⟩ := exists_octet? hh hl
    cases hb.symm.trans hb'
    exact ⟨hh, hl, hpair⟩
  · rintro ⟨hh, hl, hpair⟩
    obtain ⟨b', hb', hpair'⟩ := exists_octet? hh hl
    rw [hexPair_inj (hpair.trans hpair'.symm), hb']

end Digits

section Pairs

variable {cs : List Char} {bs : List UInt8}

theorem signedPairs_cons_cons {h l : Char} {rest : List Char} :
    SignedPairs (h :: l :: rest) ↔ (IsHexDigit h ∨ h = '+') ∧ IsHexDigit l ∧ SignedPairs rest := by
  constructor
  · intro hpairs
    have hhigh := hpairs 0 h rfl
    have hlow := hpairs 1 l rfl
    refine ⟨hhigh.imp_right And.left, hlow.resolve_right fun hodd => absurd hodd.2 (by decide), ?_⟩
    intro i c hc
    have hpair := hpairs (i + 2) c hc
    rwa [Nat.add_mod_right] at hpair
  · rintro ⟨hhigh, hlow, hrest⟩ i c hc
    match i with
    | 0 =>
      cases hc
      exact hhigh.imp_right fun hplus => ⟨hplus, rfl⟩
    | 1 =>
      cases hc
      exact Or.inl hlow
    | i + 2 =>
      rw [Nat.add_mod_right]
      exact hrest i c hc

theorem length_flatMap_hexPair (bs : List UInt8) : (bs.flatMap hexPair).length = 2 * bs.length := by
  induction bs with
  | nil => rfl
  | cons b rest ih =>
    rw [List.flatMap_cons, List.length_append, ih, List.length_cons]
    show 2 + 2 * rest.length = _
    omega

theorem octets?_eq_some_iff :
    octets? cs = some bs ↔ SignedPairs cs ∧ bs.flatMap hexPair = cs.map plainDigit := by
  induction cs using octets?.induct generalizing bs with
  | case1 =>
    rw [octets?, Option.some.injEq, List.map_nil]
    constructor
    · rintro rfl
      exact ⟨fun i c hc => (by cases hc), rfl⟩
    · rintro ⟨-, hnil⟩
      have hlength := congrArg List.length hnil
      rw [length_flatMap_hexPair, List.length_nil] at hlength
      exact (List.length_eq_zero_iff.1 (by omega)).symm
  | case2 c =>
    rw [octets?]
    constructor
    · intro hread
      cases hread
    · rintro ⟨-, hone⟩
      have hlength := congrArg List.length hone
      rw [length_flatMap_hexPair, List.length_map, List.length_singleton] at hlength
      omega
  | case3 h l rest ih =>
    rw [octets?, signedPairs_cons_cons]
    constructor
    · intro hread
      obtain ⟨b, hb, hread⟩ := Option.bind_eq_some_iff.1 hread
      obtain ⟨more, hmore, hbs⟩ := Option.bind_eq_some_iff.1 hread
      cases hbs
      obtain ⟨hhigh, hlow, hpair⟩ := octet?_eq_some_iff.1 hb
      obtain ⟨hrest, hwritten⟩ := ih.1 hmore
      refine ⟨⟨hhigh, hlow, hrest⟩, ?_⟩
      rw [List.flatMap_cons, hpair, hwritten]
      rfl
    · rintro ⟨⟨hhigh, hlow, hrest⟩, hwritten⟩
      cases bs with
      | nil => cases hwritten
      | cons b more =>
        obtain ⟨b', hb', hpair⟩ := exists_octet? hhigh hlow
        -- Every byte is written as two digits, so the two sides agree pair by pair.
        have hsplit : hexPair b ++ more.flatMap hexPair = hexPair b' ++ rest.map plainDigit := by
          rw [hpair]
          exact hwritten
        obtain ⟨hfirst, hmore⟩ := List.append_inj hsplit rfl
        rw [hexPair_inj hfirst, hb', ih.2 ⟨hrest, hmore⟩]
        rfl

theorem exists_octets? (hpairs : SignedPairs cs) (heven : cs.length % 2 = 0) :
    ∃ bs, octets? cs = some bs := by
  induction cs using octets?.induct with
  | case1 => exact ⟨[], rfl⟩
  | case2 c => cases heven
  | case3 h l rest ih =>
    obtain ⟨hhigh, hlow, hrest⟩ := signedPairs_cons_cons.1 hpairs
    obtain ⟨b, hb, -⟩ := exists_octet? hhigh hlow
    obtain ⟨bs, hbs⟩ := ih hrest (by
      rw [List.length_cons, List.length_cons] at heven
      omega)
    exact ⟨b :: bs, by rw [octets?, hb, hbs]; rfl⟩

end Pairs

section Texts

variable {text other : String} {d : Digest}

theorem parse?_eq_octets? : parse? text = some d ↔ octets? text.toList = some d.bytes := by
  rw [parse?]
  cases octets? text.toList with
  | none =>
    constructor
    · intro h
      cases h
    · intro h
      cases h
  | some bs =>
    dsimp only
    split
    · rw [Option.some.injEq, Option.some.injEq]
      exact ⟨fun h => h ▸ rfl, fun h => by cases d; cases h; rfl⟩
    · rename_i hlength
      constructor
      · intro h
        cases h
      · intro h
        exact absurd (by rw [Option.some.inj h, d.length_eq]) hlength

theorem parse?_eq_some_iff : parse? text = some d ↔ IsSignedText text ∧ d.hex = unsigned text := by
  have hwritten : d.hex = unsigned text ↔ d.bytes.flatMap hexPair = text.toList.map plainDigit := by
    rw [← String.toList_inj, hex, String.toList_ofList, unsigned, String.toList_map]
  rw [parse?_eq_octets?, octets?_eq_some_iff, hwritten, IsSignedText]
  constructor
  · rintro ⟨hpairs, h⟩
    have hlength := congrArg List.length h
    rw [length_flatMap_hexPair, d.length_eq, List.length_map] at hlength
    exact ⟨⟨hlength.symm, hpairs⟩, h⟩
  · rintro ⟨⟨-, hpairs⟩, h⟩
    exact ⟨hpairs, h⟩

theorem isSome_parse?_iff : (parse? text).isSome = true ↔ IsSignedText text := by
  rw [Option.isSome_iff_exists]
  constructor
  · rintro ⟨d, hd⟩
    exact (parse?_eq_some_iff.1 hd).1
  · rintro ⟨hlength, hpairs⟩
    obtain ⟨bs, hbs⟩ := exists_octets? hpairs (by rw [hlength])
    obtain ⟨-, hwritten⟩ := octets?_eq_some_iff.1 hbs
    have hcount := congrArg List.length hwritten
    rw [length_flatMap_hexPair, List.length_map, hlength] at hcount
    exact ⟨⟨bs, by omega⟩, parse?_eq_octets?.2 hbs⟩

theorem isSignedText_iff_of_no_sign (h : '+' ∉ text.toList) : IsSignedText text ↔ IsHexText text := by
  rw [IsSignedText, IsHexText]
  refine and_congr_right fun _ => ⟨fun hpairs c hc => ?_, fun hdigits i c hc => ?_⟩
  · obtain ⟨i, hi⟩ := List.getElem?_of_mem hc
    refine (hpairs i c hi).resolve_right fun hplus => h (hplus.1 ▸ hc)
  · exact Or.inl (hdigits c (List.mem_of_getElem? hc))

theorem unsigned_of_no_sign (h : '+' ∉ text.toList) : unsigned text = text.toLower := by
  have hlower : text.toLower = text.map Char.toLower := rfl
  rw [← String.toList_inj, unsigned, hlower, String.toList_map, String.toList_map]
  refine List.map_congr_left fun c hc => if_neg ?_
  rintro rfl
  exact h hc

end Texts

/-- A plus sign may stand for the zero in front of a digit; else thirty-two digits are read. -/
theorem read_iff_signed_pairs (text : String) :
    ((parse? text).isSome = true ↔ IsSignedText text) ∧
    (∀ d, parse? text = some d → d.hex = unsigned text) ∧
    (∀ d, parse? d.hex = some d) ∧
    (∀ d other, parse? text = some d →
      (parse? other = some d ↔ IsSignedText other ∧ unsigned other = unsigned text)) ∧
    ('+' ∉ text.toList → ((parse? text).isSome = true ↔ IsHexText text) ∧
      ∀ d, parse? text = some d → d.hex = text.toLower) := by
  refine ⟨isSome_parse?_iff, fun d hd => (parse?_eq_some_iff.1 hd).2, parse?_hex,
    fun d other hd => ?_, fun hplain => ⟨?_, fun d hd => ?_⟩⟩
  · rw [parse?_eq_some_iff, (parse?_eq_some_iff.1 hd).2, eq_comm]
  · rw [isSome_parse?_iff, isSignedText_iff_of_no_sign hplain]
  · rw [← unsigned_of_no_sign hplain]
    exact (parse?_eq_some_iff.1 hd).2

theorem signed_text_is_read :
    (parse? "+f+f+f+f+f+f+f+f+f+f+f+f+f+f+f+f").isSome = true ∧
    ¬ IsHexText "+f+f+f+f+f+f+f+f+f+f+f+f+f+f+f+f" ∧
    parse? "+f+f+f+f+f+f+f+f+f+f+f+f+f+f+f+f" = parse? "0f0f0f0f0f0f0f0f0f0f0f0f0f0f0f0f" :=
  ⟨by decide +kernel, fun h => absurd (h.2 '+' (by decide)) (by decide), by decide +kernel⟩

end ContractBuild.Digest
