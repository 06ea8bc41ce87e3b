import ContractBuild.Proofs.Comments
import ContractBuild.Proofs.Rounds
import ContractBuild.Proofs.Siblings

/-! The places where the scan of a text looks for tokens lie between its characters. A comment, a
literal or a word ends next to an ASCII byte, and that is never inside of a character, whatever an
escape has passed over. -/

namespace ContractBuild.Source

open Text

section Places

variable {text : String} {pos : Nat} {b : UInt8} {found : List Token}

theorem exists_around (h : (bytes text)[pos]? = some b) (hb : b.toNat < 128) :
    ∃ l m r, text = l ++ (m ++ r) ∧ (bytes l).length = pos ∧ (bytes m).length = 1 := by
  obtain ⟨rest, hrest⟩ := exists_drop h
  have hbytes : bytes text = (bytes text).take pos ++ b :: rest := by
    rw [← hrest, List.take_append_drop]
  obtain ⟨l, m, r, htext, hl, hm, -⟩ := exists_of_bytes_eq hbytes hb
  refine ⟨l, m, r, htext, ?_, by rw [hm, List.length_singleton]⟩
  rw [hl, List.length_take, Nat.min_eq_left (Nat.le_of_lt (lt_of_getElem? h))]

theorem Edge.isValid (h : Edge (bytes text) pos) : (⟨pos⟩ : String.Pos.Raw).IsValid text := by
  cases h with
  | atEnd => exact isValid_iff.2 ⟨text, "", String.append_empty.symm, rfl⟩
  | before h hb =>
    obtain ⟨l, m, r, htext, hl, -⟩ := exists_around h hb
    exact isValid_iff.2 ⟨l, m ++ r, htext, hl⟩
  | behind h hb =>
    obtain ⟨l, m, r, htext, hl, hm⟩ := exists_around h hb
    refine isValid_iff.2 ⟨l ++ m, r, htext.trans String.append_assoc.symm, ?_⟩
    rw [bytes_append, List.length_append, hl, hm]

theorem isValid_next (hpos : (⟨pos⟩ : String.Pos.Raw).IsValid text)
    (hb : (bytes text)[pos]? = some b) :
    (⟨pos + 1 + characterTail b⟩ : String.Pos.Raw).IsValid text := by
  obtain ⟨l, r, rfl, rfl⟩ := isValid_iff.1 hpos
  rw [bytes_append, List.getElem?_append_right (Nat.le_refl _), Nat.sub_self,
    ← List.head?_eq_getElem?, bytes_eq_encode, head?_encode] at hb
  obtain ⟨c, hc, rfl⟩ := Option.map_eq_some_iff.1 hb
  obtain ⟨cs, hr⟩ := List.head?_eq_some_iff.1 hc
  have hfirst : r = String.ofList [c] ++ String.ofList cs := by
    rw [← String.ofList_append, List.singleton_append, ← hr, String.ofList_toList]
  refine isValid_iff.2 ⟨l ++ String.ofList [c], String.ofList cs, ?_, ?_⟩
  · rw [hfirst, String.append_assoc]
  · rw [bytes_append, List.length_append, bytes_eq_encode (String.ofList [c]), String.toList_ofList,
      encode_singleton, List.length_cons, length_tailBytes, Nat.add_assoc, Nat.add_comm 1]

structure AtCharacters (text : String) (t : Token) : Prop where
  start : (⟨t.start⟩ : String.Pos.Raw).IsValid text
  stop : ∀ w, t.lexeme = .word w → (⟨t.stop⟩ : String.Pos.Raw).IsValid text

theorem AtCharacters.of_mark {b : UInt8} {start stop : Nat}
    (h : (⟨start⟩ : String.Pos.Raw).IsValid text) : AtCharacters text ⟨.mark b, start, stop⟩ := by
  refine ⟨h, fun w hw => ?_⟩
  cases hw

theorem scanRound_next (found : List Token) (hpos : (⟨pos⟩ : String.Pos.Raw).IsValid text)
    (hb : (bytes text)[pos]? = some b) :
    pos < (scanRound (bytes text) found pos b).2 ∧
      (⟨(scanRound (bytes text) found pos b).2⟩ : String.Pos.Raw).IsValid text ∧
        ∀ t ∈ (scanRound (bytes text) found pos b).1, t ∈ found ∨ AtCharacters text t := by
  have hadded {t t' : Token} (ht : AtCharacters text t) (ht' : t' ∈ found ++ [t]) :
      t' ∈ found ∨ AtCharacters text t' := by
    rcases List.mem_append.1 ht' with h | h
    · exact Or.inl h
    · exact Or.inr (List.mem_singleton.1 h ▸ ht)
  rw [scanRound]
  cases hcomment : commentEnd? (bytes text) pos with
  | some stop =>
    obtain ⟨hlt, hedge⟩ := commentEnd?_edge hcomment
    exact ⟨hlt, hedge.isValid, fun t => Or.inl⟩
  | none =>
    cases hliteral : literalEnd? (bytes text) pos with
    | some stop =>
      obtain ⟨hlt, hedge⟩ := literalEnd?_edge hliteral
      exact ⟨hlt, hedge.isValid, fun t => hadded (.of_mark hpos)⟩
    | none =>
      cases hblank : isBlank b with
      | true =>
        have hedge := Edge.behind hb (toNat_lt_of_isBlank hblank)
        exact ⟨Nat.lt_succ_self pos, hedge.isValid, fun t => Or.inl⟩
      | false =>
        cases hword : isWordByte b with
        | true =>
          obtain ⟨hlt, hedge⟩ := wordEnd_edge hb hword
          exact ⟨hlt, hedge.isValid, fun t => hadded ⟨hpos, fun _ _ => hedge.isValid⟩⟩
        | false =>
          -- the only round that may end next to no ASCII byte: it takes one whole character
          have hlt : pos < pos + 1 + characterTail b := by omega
          exact ⟨hlt, isValid_next hpos hb, fun t => hadded (.of_mark hpos)⟩

theorem Reaches.valid (h : Reaches (scanRound (bytes text)) [] (bytes text) found pos) :
    (⟨pos⟩ : String.Pos.Raw).IsValid text ∧ ∀ t ∈ found, AtCharacters text t := by
  induction h with
  | start => exact ⟨isValid_iff.2 ⟨"", text, String.empty_append.symm, rfl⟩, List.forall_mem_nil _⟩
  | next h hb ih =>
    obtain ⟨hvalid, hfound⟩ := ih
    obtain ⟨-, hnext, htokens⟩ := scanRound_next _ hvalid hb
    exact ⟨hnext, fun t ht => (htokens t ht).elim (hfound t) id⟩

theorem scanner_ends (text : String) :
    Reaches (scanRound (bytes text)) [] (bytes text) (tokens (bytes text)) (bytes text).length := by
  have hround : ∀ {found pos b}, Reaches (scanRound (bytes text)) [] (bytes text) found pos →
      (bytes text)[pos]? = some b → pos < (scanRound (bytes text) found pos b).2 ∧
        (scanRound (bytes text) found pos b).2 ≤ (bytes text).length := by
    intro found pos b h hb
    obtain ⟨hlt, hnext, -⟩ := scanRound_next found h.valid.1 hb
    obtain ⟨l, r, htext, hl⟩ := isValid_iff.1 hnext
    refine ⟨hlt, ?_⟩
    rw [← hl, htext, bytes_append, List.length_append]
    exact Nat.le_add_right _ _
  obtain ⟨found, h⟩ := Reaches.exists_end hround
  exact eq_tokens_of_reaches h ▸ h

end Places

/-- What is kept when a text is minified is a text again, with all that is not ASCII. -/
theorem loops_safe (text : String) :
    (∀ pos stop, commentEnd? (bytes text) pos = some stop ∨
        literalEnd? (bytes text) pos = some stop → pos < stop ∧ stop ≤ (bytes text).length) ∧
      Reaches (scanRound (bytes text)) [] (bytes text) (tokens (bytes text)) (bytes text).length ∧
      (∃ gap, Reaches (writeRound (bytes text)) (false, []) (bytes text)
        (gap, minifyBytes (bytes text)) (bytes text).length) ∧
      (∀ t ∈ tokens (bytes text), AtCharacters text t) ∧
      ofBytes? (minifyBytes (bytes text)) = some (minify text) ∧
      (minify text).toList.filter (128 ≤ ·.toNat) =
        (withoutComments text.toList).filter (128 ≤ ·.toNat) := by
  have hends := scanner_ends text
  refine ⟨fun pos stop h => ?_, hends, writer_ends _, hends.valid.2, ?_, ?_⟩
  · rcases h with h | h
    · obtain ⟨hlt, hedge⟩ := commentEnd?_edge h
      exact ⟨hlt, hedge.le_length⟩
    · obtain ⟨hlt, hedge⟩ := literalEnd?_edge h
      exact ⟨hlt, hedge.le_length⟩
  · rw [← bytes_minify, ofBytes?_bytes]
  · exact filter_minify (fun c hc => decide_eq_false (Nat.not_le.2 (ascii_of_isBlankChar hc))) text

namespace SampleEscapes

def text : String := "ü/* ö */ '\\é' x// ä\n\"ß\\"

end SampleEscapes

theorem loops_safe_escapes :
    commentEnd? (bytes SampleEscapes.text) 18 = some 23 ∧
      literalEnd? (bytes SampleEscapes.text) 11 = some 16 ∧
      literalEnd? (bytes SampleEscapes.text) 24 = some 28 ∧ 28 ≤ (bytes SampleEscapes.text).length ∧
      (∀ t ∈ [⟨.mark 0xC3, 0, 1⟩, ⟨.mark doubleQuote, 11, 16⟩, ⟨.word "x", 17, 18⟩,
        ⟨.mark doubleQuote, 24, 28⟩], AtCharacters SampleEscapes.text t) ∧
      (minify SampleEscapes.text).toList.filter (128 ≤ ·.toNat) = ['ü', 'é', 'ß'] := by
  have hliteral : literalEnd? (bytes SampleEscapes.text) 24 = some 28 := by decide +kernel
  have htokens : tokens (bytes SampleEscapes.text) = [⟨.mark 0xC3, 0, 1⟩,
    ⟨.mark doubleQuote, 11, 16⟩, ⟨.word "x", 17, 18⟩, ⟨.mark doubleQuote, 24, 28⟩] := by
    decide +kernel
  obtain ⟨hends, -, -, hall, -, hkept⟩ := loops_safe SampleEscapes.text
  rw [htokens] at hall
  rw [hkept]
  exact ⟨by decide +kernel, by decide +kernel, hliteral, (hends 24 28 (Or.inr hliteral)).2, hall,
    by decide +kernel⟩

end ContractBuild.Source
