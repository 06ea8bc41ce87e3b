import ContractBuild.Json.Parser
import ContractBuild.Json.Printer

/-! Strings are read back from their escaped texts, whatever characters they have. -/

namespace ContractBuild.Json

theorem codeUnit?_control {n : Nat} (h : n < 32) :
    codeUnit? '0' '0' (Nat.digitChar (n / 16)) (Nat.digitChar (n % 16)) = some n := by
  have hall : ∀ n, n < 32 →
      codeUnit? '0' '0' (Nat.digitChar (n / 16)) (Nat.digitChar (n % 16)) = some n := by decide
  exact hall n h

theorem stringBody?_plain {c : Char} (hquote : c ≠ '"') (hbackslash : c ≠ '\\') (hc : ¬c.toNat < 32)
    (done rest : List Char) : stringBody? done (c :: rest) = stringBody? (c :: done) rest := by
  rw [stringBody?.eq_def]
  split
  · rename_i he
    cases he
  · rename_i he
    exact absurd (List.cons.inj he).1 hquote
  · rename_i he
    exact absurd (List.cons.inj he).1 hbackslash
  · rename_i he
    exact absurd (List.cons.inj he).1 hbackslash
  · rename_i he
    cases he
    rw [if_neg]
    exact fun h => h.elim hc hbackslash

theorem stringBody?_escape {c e : Char} (hu : c ≠ 'u') (h : simpleEscape? c = some e)
    (done rest : List Char) : stringBody? done ('\\' :: c :: rest) = stringBody? (e :: done) rest := by
  rw [stringBody?.eq_def]
  split
  · rename_i he
    cases he
  · rename_i he
    cases he
  · rename_i he
    exact absurd (List.cons.inj (List.cons.inj he).2).1 hu
  · rename_i he
    cases he
    rw [h]
  · rename_i hother he
    cases he
    exact (hother _ _ rfl rfl).elim

theorem stringBody?_control {n : Nat} (hn : n < 32) (done rest : List Char) :
    stringBody? done ('\\' :: 'u' :: '0' :: '0' :: Nat.digitChar (n / 16) ::
      Nat.digitChar (n % 16) :: rest) = stringBody? (Char.ofNat n :: done) rest := by
  rw [stringBody?, codeUnit?_control hn]
  dsimp only
  rw [if_pos (Or.inl (Nat.lt_trans hn (by decide)))]

inductive Escaped (c : Char) : List Char → Prop where
  | short {e : Char} (hu : e ≠ 'u') (h : simpleEscape? e = some c) : Escaped c ['\\', e]
  | control (hn : c.toNat < 32) : Escaped c
      ['\\', 'u', '0', '0', Nat.digitChar (c.toNat / 16), Nat.digitChar (c.toNat % 16)]
  | plain (hquote : c ≠ '"') (hbackslash : c ≠ '\\') (hn : ¬c.toNat < 32) : Escaped c [c]

theorem escapedChar_spec (c : Char) : Escaped c (escapedChar c).toList := by
  rw [escapedChar]
  iterate 7
    split
    · rename_i he
      rw [he]
      exact .short (by decide) rfl
  split
  · rename_i hn
    simp only [String.toList_append, String.toList_ofList]
    exact .control hn
  · rename_i hquote hbackslash _ _ _ _ _ hn
    rw [Char.toString, String.toList_singleton]
    exact .plain hquote hbackslash hn

theorem stringBody?_escapedChar (c : Char) (done rest : List Char) :
    stringBody? done ((escapedChar c).toList ++ rest) = stringBody? (c :: done) rest := by
  have hspec := escapedChar_spec c
  generalize (escapedChar c).toList = text at hspec ⊢
  cases hspec with
  | short hu h => exact stringBody?_escape hu h done rest
  | control hn =>
    have h := stringBody?_control hn done rest
    rw [Char.ofNat_toNat] at h
    exact h
  | plain hquote hbackslash hn => exact stringBody?_plain hquote hbackslash hn done rest

theorem stringBody?_escaped (s done rest : List Char) :
    stringBody? done (s.flatMap (fun c => (escapedChar c).toList) ++ '"' :: rest) =
      some (s.reverse ++ done, rest) := by
  induction s generalizing done with
  | nil => rfl
  | cons c s ih =>
    rw [List.flatMap_cons, List.append_assoc, stringBody?_escapedChar, ih, List.reverse_cons,
      List.append_assoc]
    rfl

theorem toList_stringText (s : String) : (stringText s).toList =
    '"' :: (s.toList.flatMap (fun c => (escapedChar c).toList) ++ ['"']) := by
  rw [stringText, String.toList_append, String.toList_append, String.toList_join, List.flatMap_map]
  rfl

theorem string?_escaped (s : String) (rest : List Char) :
    string? (s.toList.flatMap (fun c => (escapedChar c).toList) ++ '"' :: rest) =
      some (s, rest) := by
  rw [string?, stringBody?_escaped, Option.map_some, List.append_nil, List.reverse_reverse,
    String.ofList_toList]

end ContractBuild.Json
