import ContractBuild.Json.Printer
import ContractBuild.Proofs.JsonNumbers

/-! The texts that numbers are printed as. They begin with a digit or with a minus sign, all of their
characters are those of numbers, and the digits of a whole number are read back. -/

namespace ContractBuild.Json

section Whole

theorem digit?_of_isDigit {c : Char} (h : c.isDigit = true) : digit? c = some (c.toNat - 48) := by
  rw [Char.isDigit, Bool.and_eq_true, decide_eq_true_iff, decide_eq_true_iff] at h
  exact if_pos h

theorem digit?_digitChar {d : Nat} (h : d < 10) : digit? d.digitChar = some d := by
  have hall : ∀ d, d < 10 → digit? d.digitChar = some d := by decide
  exact hall d h

theorem appendDigits_eq {ds : List Char} (hds : ∀ c ∈ ds, c.isDigit = true) {significand : Nat}
    (hfits : Nat.ofDigitChars 10 ds significand < wordBound) (count : Nat) :
    appendDigits significand count ds =
      (Nat.ofDigitChars 10 ds significand, count + ds.length, []) := by
  induction ds generalizing significand count with
  | nil => rw [appendDigits, Nat.ofDigitChars_nil, List.length_nil, Nat.add_zero]
  | cons c ds ih =>
    have hc := digit?_of_isDigit (hds c List.mem_cons_self)
    rw [Nat.ofDigitChars_cons] at hfits ⊢
    have hnext : significand * 10 + (c.toNat - 48) = 10 * significand + (c.toNat - '0'.toNat) := by
      rw [Nat.mul_comm]
      rfl
    have hle : significand * 10 + (c.toNat - 48) < wordBound := by
      refine Nat.lt_of_le_of_lt ?_ hfits
      rw [Nat.ofDigitChars_eq_ofDigitChars_zero, hnext]
      exact Nat.le_add_right_of_le (Nat.le_mul_of_pos_left _ (Nat.pow_pos (by decide)))
    rw [appendDigits, hc]
    dsimp only
    rw [if_pos hle, hnext, ih (fun x hx => hds x (List.mem_cons_of_mem c hx)) hfits,
      List.length_cons, Nat.add_assoc, Nat.add_comm 1]

theorem toDigits_head {n : Nat} (hn : 0 < n) :
    ∃ c cs d, Nat.toDigits 10 n = c :: cs ∧ digit? c = some (d + 1) := by
  induction n using Nat.strongRecOn with
  | ind n ih =>
    by_cases hsmall : n < 10
    · refine ⟨n.digitChar, [], n - 1, Nat.toDigits_of_lt_base hsmall, ?_⟩
      rw [digit?_digitChar hsmall, Nat.sub_add_cancel hn]
    · have hlarge : 10 ≤ n := Nat.le_of_not_lt hsmall
      obtain ⟨c, cs, d, hdigits, hc⟩ := ih (n / 10) (Nat.div_lt_self hn (by decide))
        (Nat.div_pos hlarge (by decide))
      refine ⟨c, cs ++ [(n % 10).digitChar], d, ?_, hc⟩
      rw [Nat.toDigits_of_base_le (by decide) hlarge, hdigits, List.cons_append]

theorem number?_toDigits (negative : Bool) {n : Nat} (hn : n < wordBound) :
    number? negative (Nat.toDigits 10 n) = some (wholeNumber negative n, []) := by
  rcases Nat.eq_zero_or_pos n with rfl | hpos
  · have hzero : digit? '0' = some 0 := rfl
    rw [Nat.toDigits_zero, number?_zero negative hzero]
    · rfl
    · intro d more h
      cases h
  · obtain ⟨c, cs, d, hdigits, hc⟩ := toDigits_head hpos
    have hall : ∀ x ∈ c :: cs, x.isDigit = true := by
      intro x hx
      rw [← hdigits] at hx
      exact Nat.isDigit_of_mem_toDigits (by decide) (by decide) hx
    have hvalue : Nat.ofDigitChars 10 cs (d + 1) = n := by
      have h := Nat.ofDigitChars_ten_toDigits (n := n)
      rw [hdigits, Nat.ofDigitChars_cons] at h
      have hd := digit?_of_isDigit (hall c List.mem_cons_self)
      rw [hc, Option.some.injEq] at hd
      rw [hd, ← h]
      simp
    rw [hdigits, number?_positive negative hc,
      appendDigits_eq (fun x hx => hall x (List.mem_cons_of_mem c hx)) (by rwa [hvalue]), hvalue]
    rfl

end Whole

section Texts

structure Unsigned (s : List Char) : Prop where
  chars : ∀ c ∈ s, isNumberChar c = true
  head : ∃ c more, s = c :: more ∧ isDigit c = true

def NumberText (s : List Char) : Prop := Unsigned s ∨ ∃ more, s = '-' :: more ∧ Unsigned more

theorem isNumberChar_of_isDigit {c : Char} (h : isDigit c = true) : isNumberChar c = true := by
  simp [isNumberChar, h]

theorem isDigit_of_mem_toDigits {n : Nat} {c : Char} (h : c ∈ Nat.toDigits 10 n) :
    isDigit c = true := by
  rw [isDigit, digit?_of_isDigit (Nat.isDigit_of_mem_toDigits (by decide) (by decide) h)]
  rfl

theorem Unsigned.of_digits {s : List Char} (hs : s ≠ []) (h : ∀ c ∈ s, isDigit c = true) :
    Unsigned s := by
  obtain ⟨c, more, rfl⟩ := List.exists_cons_of_ne_nil hs
  exact ⟨fun x hx => isNumberChar_of_isDigit (h x hx), c, more, rfl, h c List.mem_cons_self⟩

theorem Unsigned.toDigits (n : Nat) : Unsigned (Nat.toDigits 10 n) :=
  .of_digits Nat.toDigits_ne_nil fun _ => isDigit_of_mem_toDigits

theorem Unsigned.append {s more : List Char} (hs : Unsigned s)
    (h : ∀ c ∈ more, isNumberChar c = true) : Unsigned (s ++ more) := by
  obtain ⟨c, rest, rfl, hc⟩ := hs.head
  refine ⟨fun x hx => ?_, c, rest ++ more, rfl, hc⟩
  rcases List.mem_append.1 hx with hx | hx
  · exact hs.chars x hx
  · exact h x hx

theorem isNumberChar_of_mem_zeros {n : Nat} {c : Char} (h : c ∈ (Decimal.zeros n).toList) :
    isNumberChar c = true := by
  rw [Decimal.zeros, String.toList_ofList] at h
  rw [List.eq_of_mem_replicate h]
  rfl

theorem isNumberChar_of_mem_toString {n : Nat} {c : Char} (h : c ∈ (toString n).toList) :
    isNumberChar c = true := by
  rw [Nat.toString_eq_ofList_toDigits, String.toList_ofList] at h
  exact isNumberChar_of_isDigit (isDigit_of_mem_toDigits h)

theorem Unsigned.pointed (n : Nat) {k : Nat} (hk : 0 < k) :
    Unsigned (String.ofList ((Nat.toDigits 10 n).take k) ++ "." ++
      String.ofList ((Nat.toDigits 10 n).drop k)).toList := by
  have hfront : Unsigned ((Nat.toDigits 10 n).take k) := by
    refine .of_digits ?_ fun c hc => isDigit_of_mem_toDigits (List.mem_of_mem_take hc)
    rw [ne_eq, List.take_eq_nil_iff, not_or]
    exact ⟨Nat.pos_iff_ne_zero.1 hk, Nat.toDigits_ne_nil⟩
  have hback : ∀ c ∈ (Nat.toDigits 10 n).drop k, isNumberChar c = true := fun c hc =>
    isNumberChar_of_isDigit (isDigit_of_mem_toDigits (List.mem_of_mem_drop hc))
  simp only [String.toList_append, String.toList_ofList, List.append_assoc]
  exact hfront.append (List.forall_mem_append.2 ⟨List.all_eq_true.1 rfl, hback⟩)

theorem Unsigned.powered {text : String} (h : Unsigned text.toList) (power : Int) :
    Unsigned (text ++ "e" ++ (if power < 0 then "-" else realLayout.positiveSign) ++
      toString power.natAbs).toList := by
  have hsign : ∀ c ∈ (if power < 0 then "-" else realLayout.positiveSign).toList,
      isNumberChar c = true := by
    split
    · exact List.all_eq_true.1 rfl
    · exact List.all_eq_true.1 rfl
  rw [String.toList_append, String.toList_append, String.toList_append]
  refine ((h.append (List.all_eq_true.1 rfl)).append hsign).append ?_
  exact fun c => isNumberChar_of_mem_toString

theorem unsigned_spell (s : Decimal.Scientific) : Unsigned (realLayout.spell s).toList := by
  have hzero : Unsigned "0.".toList := ⟨List.all_eq_true.1 rfl, '0', ['.'], rfl, rfl⟩
  have hdigits : Unsigned (String.ofList (Nat.toDigits 10 s.digits)).toList := by
    rw [String.toList_ofList]
    exact .toDigits _
  rw [Decimal.Layout.spell]
  dsimp only
  split
  · exact ⟨List.all_eq_true.1 rfl, '0', ['.', '0'], rfl, rfl⟩
  · split
    · -- A whole number.
      rw [String.toList_append, String.toList_append]
      exact (hdigits.append fun c => isNumberChar_of_mem_zeros).append (List.all_eq_true.1 rfl)
    · split
      · exact .pointed _ (by omega)
      · split
        · -- A fraction.
          rw [String.toList_append, String.toList_append]
          exact (hzero.append fun c => isNumberChar_of_mem_zeros).append hdigits.chars
        · refine .powered ?_ _
          split
          · exact hdigits
          · exact .pointed _ Nat.one_pos

theorem numberText_real (d : Decimal.Double) : NumberText (realText d).toList := by
  rw [realText, Decimal.Layout.spellDouble, String.toList_append]
  split
  · exact Or.inr ⟨_, rfl, unsigned_spell _⟩
  · exact Or.inl (unsigned_spell _)

theorem toList_toString_ofNat (n : Nat) : (toString (n : Int)).toList = Nat.toDigits 10 n := by
  show (toString n).toList = _
  rw [Nat.toString_eq_ofList_toDigits, String.toList_ofList]

theorem numberText_integer (n : Int) : NumberText (toString n).toList := by
  cases n with
  | ofNat n =>
    have h := toList_toString_ofNat n
    rw [Int.ofNat_eq_natCast, h]
    exact Or.inl (.toDigits n)
  | negSucc n =>
    refine Or.inr ⟨(toString (n + 1)).toList, ?_, ?_⟩
    · show ("-" ++ toString (n + 1)).toList = _
      rw [String.toList_append]
      rfl
    · rw [Nat.toString_eq_ofList_toDigits, String.toList_ofList]
      exact .toDigits _

end Texts

end ContractBuild.Json
