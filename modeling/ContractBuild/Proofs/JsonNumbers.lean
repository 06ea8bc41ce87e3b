import ContractBuild.Json.Number

/-! Number tokens inside of longer texts. Reading a number stops at the first character that no number
has; what follows does not matter, and what is left is an end of the text. -/

namespace ContractBuild.Json

def isNumberChar (c : Char) : Bool :=
  isDigit c || c == '.' || c == 'e' || c == 'E' || c == '+' || c == '-'

def EndsNumber (rest : List Char) : Prop := ∀ c more, rest = c :: more → isNumberChar c = false

theorem endsNumber_cons {c : Char} {rest : List Char} (h : isNumberChar c = false) :
    EndsNumber (c :: rest) := by
  intro d more he
  cases he
  exact h

def extend (rest : List Char) : Option (Json × List Char) → Option (Json × List Char) :=
  Option.map fun r => (r.1, r.2 ++ rest)

section Local

variable {rest : List Char}

theorem not_isDigit_of_endsNumber (h : EndsNumber rest) {c : Char} {more : List Char}
    (he : rest = c :: more) : isDigit c = false := by
  have hc := h c more he
  rw [isNumberChar] at hc
  simp only [Bool.or_eq_false_iff] at hc
  exact hc.1.1.1.1.1

theorem takeWhile_append (h : EndsNumber rest) (s : List Char) :
    (s ++ rest).takeWhile isDigit = s.takeWhile isDigit := by
  induction s with
  | nil =>
    cases rest with
    | nil => rfl
    | cons c more =>
      rw [List.nil_append, List.takeWhile_cons, not_isDigit_of_endsNumber h rfl]
      rfl
  | cons c s ih => rw [List.cons_append, List.takeWhile_cons, List.takeWhile_cons, ih]

theorem dropWhile_append (h : EndsNumber rest) (s : List Char) :
    (s ++ rest).dropWhile isDigit = s.dropWhile isDigit ++ rest := by
  induction s with
  | nil =>
    cases rest with
    | nil => rfl
    | cons c more =>
      rw [List.nil_append, List.dropWhile_cons, not_isDigit_of_endsNumber h rfl]
      rfl
  | cons c s ih =>
    rw [List.cons_append, List.dropWhile_cons, List.dropWhile_cons, ih]
    split <;> rfl

theorem decimalRun_append (h : EndsNumber rest) (s : List Char) :
    decimalRun (s ++ rest) = ((decimalRun s).1, (decimalRun s).2 ++ rest) := by
  rw [decimalRun, decimalRun, takeWhile_append h, dropWhile_append h]

theorem appendDigits_append (h : EndsNumber rest) (significand count : Nat) (s : List Char) :
    appendDigits significand count (s ++ rest) =
      ((appendDigits significand count s).1, (appendDigits significand count s).2.1,
        (appendDigits significand count s).2.2 ++ rest) := by
  induction s generalizing significand count with
  | nil =>
    cases rest with
    | nil => rfl
    | cons c more =>
      have hc := not_isDigit_of_endsNumber h rfl
      rw [isDigit, Option.isSome_eq_false_iff, Option.isNone_iff_eq_none] at hc
      show appendDigits significand count (c :: more) = (significand, count, c :: more)
      rw [appendDigits, hc]
  | cons c s ih =>
    rw [List.cons_append, appendDigits, appendDigits]
    cases digit? c with
    | none => rfl
    | some d =>
      dsimp only
      split
      · exact ih _ _
      · rfl

theorem ne_cons_append (h : EndsNumber rest) {c : Char} (hc : isNumberChar c = true) {s : List Char}
    (hs : ∀ more, s ≠ c :: more) (more : List Char) : s ++ rest ≠ c :: more := by
  intro he
  cases s with
  | nil =>
    rw [h c more he] at hc
    cases hc
  | cons d s =>
    cases he
    exact hs s rfl

variable (negative : Bool) (significand : Nat) (exponent : Int)

theorem readReal?_append (s : List Char) :
    readReal? negative significand exponent (s ++ rest) =
      extend rest (readReal? negative significand exponent s) := by
  rw [readReal?, readReal?, extend, Option.map_map]
  rfl

theorem exponentPart?_plus (s : List Char) : exponentPart? negative significand exponent ('+' :: s) =
    exponentDigits? negative significand exponent false s := rfl

theorem exponentPart?_minus (s : List Char) :
    exponentPart? negative significand exponent ('-' :: s) =
      exponentDigits? negative significand exponent true s := rfl

theorem exponentPart?_unsigned {s : List Char} (hplus : ∀ more, s ≠ '+' :: more)
    (hminus : ∀ more, s ≠ '-' :: more) : exponentPart? negative significand exponent s =
      exponentDigits? negative significand exponent false s := by
  unfold exponentPart?
  split
  · exact absurd rfl (hplus _)
  · exact absurd rfl (hminus _)
  · rfl

theorem exponentDigits?_append (h : EndsNumber rest) (down : Bool) (s : List Char) :
    exponentDigits? negative significand exponent down (s ++ rest) =
      extend rest (exponentDigits? negative significand exponent down s) := by
  rw [exponentDigits?, exponentDigits?, takeWhile_append h, decimalRun_append h]
  split
  · rfl
  · split
    · exact readReal?_append ..
    · split
      · rfl
      · exact readReal?_append ..

theorem exponentPart?_append (h : EndsNumber rest) (s : List Char) :
    exponentPart? negative significand exponent (s ++ rest) =
      extend rest (exponentPart? negative significand exponent s) := by
  by_cases hplus : ∃ more, s = '+' :: more
  · obtain ⟨more, rfl⟩ := hplus
    exact exponentDigits?_append _ _ _ h false more
  · by_cases hminus : ∃ more, s = '-' :: more
    · obtain ⟨more, rfl⟩ := hminus
      exact exponentDigits?_append _ _ _ h true more
    · rw [not_exists] at hplus hminus
      rw [exponentPart?_unsigned _ _ _ (ne_cons_append h rfl hplus) (ne_cons_append h rfl hminus),
        exponentPart?_unsigned _ _ _ hplus hminus]
      exact exponentDigits?_append _ _ _ h false s

theorem exponentOrEnd?_other {s : List Char} (he : ∀ more, s ≠ 'e' :: more)
    (hE : ∀ more, s ≠ 'E' :: more) : exponentOrEnd? negative significand exponent s =
      readReal? negative significand exponent s := by
  unfold exponentOrEnd?
  split
  · exact absurd rfl (he _)
  · exact absurd rfl (hE _)
  · rfl

theorem exponentOrEnd?_append (h : EndsNumber rest) (s : List Char) :
    exponentOrEnd? negative significand exponent (s ++ rest) =
      extend rest (exponentOrEnd? negative significand exponent s) := by
  by_cases he : ∃ more, s = 'e' :: more
  · obtain ⟨more, rfl⟩ := he
    exact exponentPart?_append _ _ _ h more
  · by_cases hE : ∃ more, s = 'E' :: more
    · obtain ⟨more, rfl⟩ := hE
      exact exponentPart?_append _ _ _ h more
    · rw [not_exists] at he hE
      rw [exponentOrEnd?_other _ _ _ (ne_cons_append h rfl he) (ne_cons_append h rfl hE),
        exponentOrEnd?_other _ _ _ he hE, readReal?_append]

theorem fractionPart?_append (h : EndsNumber rest) (s : List Char) :
    fractionPart? negative significand exponent (s ++ rest) =
      extend rest (fractionPart? negative significand exponent s) := by
  rw [fractionPart?, fractionPart?, takeWhile_append h, appendDigits_append h]
  split
  · rfl
  · dsimp only
    rw [dropWhile_append h]
    exact exponentOrEnd?_append _ _ _ h _

theorem afterLong?_append (h : EndsNumber rest) (count : Nat) (s : List Char) :
    afterLong? negative significand count (s ++ rest) =
      extend rest (afterLong? negative significand count s) := by
  by_cases hpoint : ∃ more, s = '.' :: more
  · obtain ⟨more, rfl⟩ := hpoint
    exact fractionPart?_append _ _ _ h more
  · rw [not_exists] at hpoint
    have hother : ∀ s : List Char, (∀ more, s ≠ '.' :: more) →
        afterLong? negative significand count s = exponentOrEnd? negative significand count s := by
      intro s hs
      unfold afterLong?
      split
      · exact absurd rfl (hs _)
      · rfl
    rw [hother _ (ne_cons_append h rfl hpoint), hother _ hpoint]
    exact exponentOrEnd?_append _ _ _ h s

theorem afterWhole?_digit {c : Char} (hc : isDigit c = true) (s : List Char) :
    afterWhole? negative significand (c :: s) =
      afterLong? negative significand ((c :: s).takeWhile isDigit).length
        ((c :: s).dropWhile isDigit) := by
  unfold afterWhole?
  split
  · rename_i he
    cases he
    exact absurd hc (by decide)
  · rename_i he
    cases he
    exact absurd hc (by decide)
  · rename_i he
    cases he
    exact absurd hc (by decide)
  · rename_i he
    cases he
    exact if_pos hc
  · rename_i he
    cases he

theorem afterWhole?_other {c : Char} (hc : isDigit c = false) (hpoint : c ≠ '.') (he : c ≠ 'e')
    (hE : c ≠ 'E') (s : List Char) :
    afterWhole? negative significand (c :: s) = some (wholeNumber negative significand, c :: s) := by
  unfold afterWhole?
  split
  · rename_i heq
    exact absurd (List.cons.inj heq).1 hpoint
  · rename_i heq
    exact absurd (List.cons.inj heq).1 he
  · rename_i heq
    exact absurd (List.cons.inj heq).1 hE
  · rename_i heq
    cases heq
    rw [hc, if_neg Bool.false_ne_true]
  · rename_i heq
    cases heq

theorem afterWhole?_end (h : EndsNumber rest) :
    afterWhole? negative significand rest = some (wholeNumber negative significand, rest) := by
  cases rest with
  | nil => rfl
  | cons c more =>
    have hc := h c more rfl
    simp only [isNumberChar, Bool.or_eq_false_iff, beq_eq_false_iff_ne] at hc
    obtain ⟨⟨⟨⟨⟨hdigit, hpoint⟩, he⟩, hE⟩, -⟩, -⟩ := hc
    exact afterWhole?_other negative significand hdigit hpoint he hE more

theorem afterWhole?_append (h : EndsNumber rest) (s : List Char) :
    afterWhole? negative significand (s ++ rest) =
      extend rest (afterWhole? negative significand s) := by
  cases s with
  | nil =>
    rw [List.nil_append, afterWhole?_end _ _ h]
    rfl
  | cons c s =>
    by_cases hdigit : isDigit c = true
    · rw [List.cons_append, afterWhole?_digit _ _ hdigit, afterWhole?_digit _ _ hdigit,
        ← List.cons_append, takeWhile_append h, dropWhile_append h]
      exact afterLong?_append _ _ h _ _
    · by_cases hpoint : c = '.'
      · subst hpoint
        exact fractionPart?_append _ _ _ h s
      · by_cases he : c = 'e'
        · subst he
          exact exponentPart?_append _ _ _ h s
        · by_cases hE : c = 'E'
          · subst hE
            exact exponentPart?_append _ _ _ h s
          · rw [Bool.not_eq_true] at hdigit
            rw [List.cons_append, afterWhole?_other _ _ hdigit hpoint he hE,
              afterWhole?_other _ _ hdigit hpoint he hE]
            rfl

theorem number?_zero {c : Char} (hc : digit? c = some 0) {s : List Char}
    (hs : ∀ d more, s = d :: more → isDigit d = false) :
    number? negative (c :: s) = afterWhole? negative 0 s := by
  unfold number?
  dsimp only
  rw [hc]
  cases s with
  | nil => rfl
  | cons d more =>
    show (if isDigit d = true then none else afterWhole? negative 0 (d :: more)) = _
    rw [hs d more rfl, if_neg Bool.false_ne_true]

theorem number?_leadingZero {c d : Char} (hc : digit? c = some 0) (hd : isDigit d = true)
    (s : List Char) : number? negative (c :: d :: s) = none := by
  unfold number?
  dsimp only
  rw [hc]
  exact if_pos hd

theorem number?_positive {c : Char} {d : Nat} (hc : digit? c = some (d + 1)) (s : List Char) :
    number? negative (c :: s) = afterWhole? negative (appendDigits (d + 1) 1 s).1
      (appendDigits (d + 1) 1 s).2.2 := by
  unfold number?
  dsimp only
  rw [hc]
  rfl

theorem number?_append (h : EndsNumber rest) {s : List Char} (hs : s ≠ []) :
    number? negative (s ++ rest) = extend rest (number? negative s) := by
  cases s with
  | nil => exact absurd rfl hs
  | cons c s =>
    rw [List.cons_append]
    cases hc : digit? c with
    | none =>
      unfold number?
      dsimp only
      rw [hc]
      rfl
    | some d =>
      cases d with
      | succ d =>
        rw [number?_positive _ hc, number?_positive _ hc, appendDigits_append h]
        exact afterWhole?_append _ _ h _
      | zero =>
        -- A zero in front is the whole part: no digit may follow, neither in the text nor behind it.
        by_cases hdigit : ∃ d more, s = d :: more ∧ isDigit d = true
        · obtain ⟨d, more, rfl, hd⟩ := hdigit
          rw [List.cons_append, number?_leadingZero _ hc hd, number?_leadingZero _ hc hd]
          rfl
        · have hfirst : ∀ d more, s = d :: more → isDigit d = false := by
            intro d more he
            exact Bool.eq_false_iff.2 fun hd => hdigit ⟨d, more, he, hd⟩
          rw [number?_zero _ hc hfirst, number?_zero _ hc, afterWhole?_append _ _ h]
          intro d more he
          cases s with
          | nil => exact not_isDigit_of_endsNumber h he
          | cons x s =>
            cases he
            exact hfirst _ _ rfl

end Local

section Rest

variable {negative : Bool} {significand : Nat} {exponent : Int} {s r : List Char} {v : Json}

theorem appendDigits_suffix (significand count : Nat) (s : List Char) :
    (appendDigits significand count s).2.2 <:+ s := by
  induction s generalizing significand count with
  | nil => exact List.suffix_rfl
  | cons c s ih =>
    rw [appendDigits]
    cases digit? c with
    | none => exact List.suffix_rfl
    | some d =>
      dsimp only
      split
      · exact (ih _ _).trans (List.suffix_cons c s)
      · exact List.suffix_rfl

theorem readReal?_rest (h : readReal? negative significand exponent s = some (v, r)) : r = s := by
  obtain ⟨d, -, he⟩ := Option.map_eq_some_iff.1 h
  exact (congrArg Prod.snd he).symm

theorem exponentDigits?_suffix {down : Bool}
    (h : exponentDigits? negative significand exponent down s = some (v, r)) : r <:+ s := by
  have hrun : (decimalRun s).2 <:+ s := List.dropWhile_suffix _
  rw [exponentDigits?] at h
  split at h
  · cases h
  · split at h
    · rw [readReal?_rest h]
      exact hrun
    · split at h
      · cases h
      · rw [readReal?_rest h]
        exact hrun

theorem exponentPart?_suffix (h : exponentPart? negative significand exponent s = some (v, r)) :
    r <:+ s := by
  by_cases hplus : ∃ more, s = '+' :: more
  · obtain ⟨more, rfl⟩ := hplus
    rw [exponentPart?_plus] at h
    exact (exponentDigits?_suffix h).trans (List.suffix_cons _ _)
  · by_cases hminus : ∃ more, s = '-' :: more
    · obtain ⟨more, rfl⟩ := hminus
      rw [exponentPart?_minus] at h
      exact (exponentDigits?_suffix h).trans (List.suffix_cons _ _)
    · rw [not_exists] at hplus hminus
      rw [exponentPart?_unsigned _ _ _ hplus hminus] at h
      exact exponentDigits?_suffix h

theorem exponentOrEnd?_suffix (h : exponentOrEnd? negative significand exponent s = some (v, r)) :
    r <:+ s := by
  unfold exponentOrEnd? at h
  split at h
  · exact (exponentPart?_suffix h).trans (List.suffix_cons _ _)
  · exact (exponentPart?_suffix h).trans (List.suffix_cons _ _)
  · obtain rfl := readReal?_rest h
    exact List.suffix_rfl

theorem fractionPart?_suffix (h : fractionPart? negative significand exponent s = some (v, r)) :
    r <:+ s := by
  rw [fractionPart?] at h
  split at h
  · cases h
  · exact (exponentOrEnd?_suffix h).trans
      ((List.dropWhile_suffix _).trans (appendDigits_suffix _ _ _))

theorem afterLong?_suffix {count : Nat}
    (h : afterLong? negative significand count s = some (v, r)) : r <:+ s := by
  unfold afterLong? at h
  split at h
  · exact (fractionPart?_suffix h).trans (List.suffix_cons _ _)
  · exact exponentOrEnd?_suffix h

theorem afterWhole?_suffix (h : afterWhole? negative significand s = some (v, r)) : r <:+ s := by
  unfold afterWhole? at h
  split at h
  · exact (fractionPart?_suffix h).trans (List.suffix_cons _ _)
  · exact (exponentPart?_suffix h).trans (List.suffix_cons _ _)
  · exact (exponentPart?_suffix h).trans (List.suffix_cons _ _)
  · split at h
    · exact (afterLong?_suffix h).trans (List.dropWhile_suffix _)
    · cases h
      exact List.suffix_rfl
  · cases h
    exact List.suffix_rfl

theorem number?_suffix (h : number? negative s = some (v, r)) : r <:+ s := by
  unfold number? at h
  split at h
  · cases h
  · rename_i c rest
    split at h
    · cases h
    · split at h
      · split at h
        · cases h
        · exact (afterWhole?_suffix h).trans (List.suffix_cons _ _)
      · exact (afterWhole?_suffix h).trans (List.suffix_cons _ _)
    · exact (afterWhole?_suffix h).trans
        ((appendDigits_suffix _ _ _).trans (List.suffix_cons _ _))

end Rest

end ContractBuild.Json
