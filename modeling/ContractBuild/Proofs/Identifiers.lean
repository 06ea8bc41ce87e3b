import ContractBuild.Source.Declaration

/-! The names of declared units. A word is a run of bytes of words, and a declaration takes its name
from a word, so no name is empty and none has a character that means something to a path. -/

namespace ContractBuild.Source

def IsIdentifier (s : String) : Prop :=
  ∃ b more, isWordByte b = true ∧ (∀ x ∈ more, isWordByte x = true) ∧ s = asciiText (b :: more)

theorem IsIdentifier.ne_empty {s : String} (h : IsIdentifier s) : s ≠ "" := by
  obtain ⟨b, more, -, -, rfl⟩ := h
  intro he
  have hlist := congrArg String.toList he
  rw [asciiText, String.toList_ofList, List.map_cons] at hlist
  cases hlist

theorem char_ne_slash {b : UInt8} (h : isWordByte b = true) : Char.ofNat b.toNat ≠ '/' := by
  have hall : ∀ n, n < 256 → isWordByte (UInt8.ofNat n) = true → Char.ofNat n ≠ '/' := by
    decide +kernel
  apply hall b.toNat b.toNat_lt
  rw [UInt8.ofNat_toNat]
  exact h

theorem IsIdentifier.noSlash {s : String} (h : IsIdentifier s) : '/' ∉ s.toList := by
  obtain ⟨b, more, hb, hmore, rfl⟩ := h
  rw [asciiText, String.toList_ofList, List.mem_map]
  rintro ⟨x, hx, hslash⟩
  rcases List.mem_cons.1 hx with rfl | hx
  · exact char_ne_slash hb hslash
  · exact char_ne_slash (hmore x hx) hslash

def WordsOnly (ts : List Token) : Prop := ∀ t ∈ ts, ∀ w, t.lexeme = .word w → IsIdentifier w

theorem WordsOnly.mark {ts : List Token} (h : WordsOnly ts) (b : UInt8) (start stop : Nat) :
    WordsOnly (⟨.mark b, start, stop⟩ :: ts) := by
  intro t ht w hw
  rcases List.mem_cons.1 ht with rfl | ht
  · cases hw
  · exact h t ht w hw

theorem WordsOnly.word {ts : List Token} (h : WordsOnly ts) {w : String} (hw : IsIdentifier w)
    (start stop : Nat) : WordsOnly (⟨.word w, start, stop⟩ :: ts) := by
  intro t ht v hv
  rcases List.mem_cons.1 ht with rfl | ht
  · cases hv
    exact hw
  · exact h t ht v hv

theorem WordsOnly.tail {t : Token} {ts : List Token} (h : WordsOnly (t :: ts)) : WordsOnly ts :=
  fun s hs => h s (List.mem_cons_of_mem t hs)

theorem wordsOnly_tokensOnto {text : List UInt8} {found : List Token} (skip pos : Nat)
    (hfound : WordsOnly found) : WordsOnly (tokensOnto found skip pos text) := by
  induction text generalizing found skip pos with
  | nil =>
    rw [tokensOnto]
    exact fun t ht => hfound t (List.mem_reverse.1 ht)
  | cons b rest ih =>
    unfold tokensOnto
    split
    · exact ih _ _ hfound
    · split
      · exact ih _ _ hfound
      · split
        · exact ih _ _ (hfound.mark _ _ _)
        · split
          · exact ih _ _ hfound
          · split
            · rename_i hb
              refine ih _ _ (hfound.word ⟨b, _, hb, ?_, rfl⟩ _ _)
              exact fun x hx => List.all_eq_true.1 (List.all_takeWhile ..) x hx
            · exact ih _ _ (hfound.mark _ _ _)

theorem wordsOnly_tokens (text : List UInt8) : WordsOnly (tokens text) :=
  wordsOnly_tokensOnto 0 0 fun _ ht => absurd ht List.not_mem_nil

theorem name_of_declarationAt? {n k : Nat} {previous : Option Token} {t : Token} {rest : List Token}
    {d : Declaration} (h : declarationAt? n previous t rest = some (d, k)) :
    ∃ s ∈ rest, s.lexeme = .word d.name := by
  unfold declarationAt? at h
  split at h
  · split at h
    · cases h
    · cases h
      exact ⟨_, List.mem_cons_self, rfl⟩
  · cases h

theorem isIdentifier_declarationsOnto {ts : List Token} {n : Nat} {found : List Declaration}
    (skip depth : Nat) (previous : Option Token) (hts : WordsOnly ts)
    (hfound : ∀ d ∈ found, IsIdentifier d.name) :
    ∀ d ∈ declarationsOnto n found skip depth previous ts, IsIdentifier d.name := by
  induction ts generalizing found skip depth previous with
  | nil =>
    rw [declarationsOnto]
    exact fun d hd => hfound d (List.mem_reverse.1 hd)
  | cons t rest ih =>
    unfold declarationsOnto
    split
    · exact ih _ _ _ hts.tail hfound
    · split
      · exact ih _ _ _ hts.tail hfound
      · split
        · exact ih _ _ _ hts.tail hfound
        · split
          · split
            · rename_i d k hd
              obtain ⟨s, hs, hword⟩ := name_of_declarationAt? hd
              refine ih _ _ _ hts.tail fun e he => ?_
              rcases List.mem_cons.1 he with rfl | he
              · exact hts.tail s hs _ hword
              · exact hfound e he
            · exact ih _ _ _ hts.tail hfound
          · exact ih _ _ _ hts.tail hfound

theorem isIdentifier_of_mem_declarations {text : List UInt8} {d : Declaration}
    (h : d ∈ declarations text) : IsIdentifier d.name :=
  isIdentifier_declarationsOnto 0 0 none (wordsOnly_tokens text)
    (fun _ hd => absurd hd List.not_mem_nil) d h

end ContractBuild.Source
