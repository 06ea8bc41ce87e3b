import ContractBuild.Proofs.Siblings
import Mathlib.Algebra.Group.Nat.Defs

/-! What a digest is taken of can be read back: the parts from their frame, and from the parts of a
fingerprint the unit and what its siblings leave of the text. So two fingerprints agree on the same
contents only, or they are a collision of the digest. -/

namespace ContractBuild

namespace Digest

theorem lowBytes_inj {count m n : Nat} (hm : m < 256 ^ count) (hn : n < 256 ^ count)
    (h : lowBytes count m = lowBytes count n) : m = n := by
  induction count generalizing m n with
  | zero =>
    rw [Nat.pow_zero, Nat.lt_one_iff] at hm hn
    rw [hm, hn]
  | succ count ih =>
    rw [Nat.pow_succ] at hm hn
    obtain ⟨hlow, hhigh⟩ := List.cons.inj h
    have hlow : m % 256 = n % 256 := by
      have hlow := congrArg UInt8.toNat hlow
      rwa [UInt8.toNat_ofNat', UInt8.toNat_ofNat'] at hlow
    have hhigh : m / 256 = n / 256 :=
      ih (Nat.div_lt_of_lt_mul (by omega)) (Nat.div_lt_of_lt_mul (by omega)) hhigh
    rw [← Nat.div_add_mod m 256, ← Nat.div_add_mod n 256, hlow, hhigh]

theorem frame_inj {ps qs : List (List UInt8)} (hps : ∀ p ∈ ps, p.length < 2 ^ 64)
    (hqs : ∀ q ∈ qs, q.length < 2 ^ 64) (h : frame ps = frame qs) : ps = qs := by
  have hcons : ∀ (p : List UInt8) ps, frame (p :: ps) =
      lowBytes 8 p.length ++ (p ++ frame ps) := fun p ps => List.append_assoc ..
  have hne : ∀ (p : List UInt8) ps, frame (p :: ps) ≠ [] := by
    intro p ps hnil
    rw [hcons] at hnil
    exact absurd (congrArg List.length (List.append_eq_nil_iff.1 hnil).1)
      (by rw [length_lowBytes]; decide)
  induction ps generalizing qs with
  | nil =>
    cases qs with
    | nil => rfl
    | cons q qs => exact absurd h.symm (hne q qs)
  | cons p ps ih =>
    cases qs with
    | nil => exact absurd h (hne p ps)
    | cons q qs =>
      obtain ⟨hp, hps'⟩ := List.forall_mem_cons.1 hps
      obtain ⟨hq, hqs'⟩ := List.forall_mem_cons.1 hqs
      rw [hcons, hcons] at h
      obtain ⟨hlength, hrest⟩ := List.append_inj h (by rw [length_lowBytes, length_lowBytes])
      obtain ⟨hpq, hframes⟩ := List.append_inj hrest (lowBytes_inj hp hq hlength)
      rw [hpq, ih hps' hqs' hframes]

def Collision (x y : List UInt8) : Prop := x ≠ y ∧ ofBytes x = ofBytes y

end Digest

namespace Source

open Text

theorem remainder_of_not_declared {text : List UInt8} {unit : String}
    (h : unit ∉ (declarations text).map (·.name)) : remainder text unit = [text] := by
  have hany : ¬ (declarations text).any (·.name == unit) = true := by
    intro hany
    obtain ⟨d, hd, hname⟩ := List.any_eq_true.1 hany
    exact h (List.mem_map.2 ⟨d, hd, beq_iff_eq.1 hname⟩)
  exact if_neg hany

theorem remainder_ne_singleton {text other unit : String}
    (h : unit ∈ (declarations (bytes text)).map (·.name))
    (hother : unit ∉ (declarations (bytes other)).map (·.name)) :
    remainder (bytes text) unit ≠ [bytes other] := by
  intro heq
  obtain ⟨pieces, hpieces⟩ := exists_siblingsLeave text unit
  have hlength : pieces.length = 1 := by
    rw [← List.length_map bytes, ← hpieces.remainder_eq h, heq, List.length_singleton]
  -- one piece means that nothing is cut out, so that the piece is all of the text
  have hnone := List.eq_nil_of_length_eq_zero
    (Nat.succ.inj ((Leaves.length_eq hpieces).symm.trans hlength))
  rw [remainder_of_declared h, hnone, piecesBetween, List.drop_zero, List.singleton_inj] at heq
  rw [heq] at h
  exact hother h

theorem remainder_eq_iff {text text' unit : String} :
    remainder (bytes text) unit = remainder (bytes text') unit ↔
      (unit ∈ (declarations (bytes text)).map (·.name) ↔
        unit ∈ (declarations (bytes text')).map (·.name)) ∧
      (∃ pieces, SiblingsLeave text unit pieces ∧ SiblingsLeave text' unit pieces) ∧
      (unit ∉ (declarations (bytes text)).map (·.name) → text = text') := by
  obtain ⟨pieces, h⟩ := exists_siblingsLeave text unit
  obtain ⟨pieces', h'⟩ := exists_siblingsLeave text' unit
  by_cases hd : unit ∈ (declarations (bytes text)).map (·.name) <;>
    by_cases hd' : unit ∈ (declarations (bytes text')).map (·.name)
  · rw [h.remainder_eq hd, h'.remainder_eq hd']
    constructor
    · intro heq
      obtain rfl := List.map_injective_iff.2 (fun _ _ => bytes_inj) heq
      exact ⟨iff_of_true hd hd', ⟨pieces, h, h'⟩, absurd hd⟩
    · rintro ⟨-, ⟨same, hsame, hsame'⟩, -⟩
      rw [h.unique hsame, h'.unique hsame']
  · rw [remainder_of_not_declared hd']
    exact ⟨fun heq => absurd heq (remainder_ne_singleton hd hd'), fun hc => absurd (hc.1.1 hd) hd'⟩
  · rw [remainder_of_not_declared hd]
    exact ⟨fun heq => absurd heq.symm (remainder_ne_singleton hd' hd),
      fun hc => absurd (hc.1.2 hd') hd⟩
  · rw [remainder_of_not_declared hd, remainder_of_not_declared hd', List.singleton_inj]
    refine ⟨fun heq => ?_, fun hc => by rw [hc.2.2 hd]⟩
    obtain rfl := bytes_inj heq
    exact ⟨Iff.rfl, ⟨pieces, h, h⟩, fun _ => rfl⟩

/-- Of a text that does not declare the unit all of it counts. -/
structure SameContent (text unit : String) (minified : Bool) (text' unit' : String)
    (minified' : Bool) : Prop where
  unit_eq : unit = unit'
  declares_iff : unit ∈ (declarations (bytes (normalized text minified))).map (·.name) ↔
    unit' ∈ (declarations (bytes (normalized text' minified'))).map (·.name)
  outside : ∃ pieces, SiblingsLeave (normalized text minified) unit pieces ∧
    SiblingsLeave (normalized text' minified') unit' pieces
  whole : unit ∉ (declarations (bytes (normalized text minified))).map (·.name) →
    normalized text minified = normalized text' minified'

theorem sameContent_iff {text unit text' unit' : String} {minified minified' : Bool} :
    SameContent text unit minified text' unit' minified' ↔
      fingerprintParts text unit minified = fingerprintParts text' unit' minified' := by
  constructor
  · rintro ⟨rfl, hdeclares, houtside, hwhole⟩
    exact congrArg (bytes unit :: ·) (remainder_eq_iff.2 ⟨hdeclares, houtside, hwhole⟩)
  · intro hparts
    obtain ⟨hunit, hremainder⟩ := List.cons.inj hparts
    obtain rfl := bytes_inj hunit
    obtain ⟨hdeclares, houtside, hwhole⟩ := remainder_eq_iff.1 hremainder
    exact ⟨rfl, hdeclares, houtside, hwhole⟩

/-- Fingerprints of different contents agree by a collision only. -/
theorem fingerprintText_unambiguous {text unit text' unit' : String} {minified minified' : Bool}
    (h : ∀ p ∈ fingerprintParts text unit minified, p.length < 2 ^ 64)
    (h' : ∀ p ∈ fingerprintParts text' unit' minified', p.length < 2 ^ 64) :
    (Digest.frame (fingerprintParts text unit minified) =
        Digest.frame (fingerprintParts text' unit' minified') ↔
      SameContent text unit minified text' unit' minified') ∧
    (fingerprintText text unit minified = fingerprintText text' unit' minified' →
      ¬ SameContent text unit minified text' unit' minified' →
        Digest.Collision (Digest.frame (fingerprintParts text unit minified))
          (Digest.frame (fingerprintParts text' unit' minified'))) := by
  have hcontent : Digest.frame (fingerprintParts text unit minified) =
      Digest.frame (fingerprintParts text' unit' minified') →
      SameContent text unit minified text' unit' minified' :=
    fun hframe => sameContent_iff.2 (Digest.frame_inj h h' hframe)
  exact ⟨⟨hcontent, fun hsame => congrArg Digest.frame (sameContent_iff.1 hsame)⟩,
    fun hdigest hne => ⟨mt hcontent hne, hdigest⟩⟩

namespace SampleContent

def text : String := "contract A\x7b\x7dcontract B\x7buint x;\x7d"

def spaced : String := "contract A \x7b \x7d // B\n contract B \x7b\x7d"

end SampleContent

theorem fingerprintText_unambiguous_minified :
    (∀ p ∈ fingerprintParts SampleContent.text "A" false, p.length < 2 ^ 64) ∧
    (∀ p ∈ fingerprintParts SampleContent.spaced "A" true, p.length < 2 ^ 64) ∧
    SameContent SampleContent.text "A" false SampleContent.spaced "A" true := by
  have h : ∀ p ∈ fingerprintParts SampleContent.text "A" false, p.length < 2 ^ 64 := by
    decide +kernel
  have h' : ∀ p ∈ fingerprintParts SampleContent.spaced "A" true, p.length < 2 ^ 64 := by
    decide +kernel
  exact ⟨h, h', (fingerprintText_unambiguous h h').1.1 (by decide +kernel)⟩

end Source
end ContractBuild
