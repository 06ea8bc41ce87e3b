import ContractBuild.Proofs.Ends
import ContractBuild.Source.Fingerprint

/-! The scan and the minifying of a text as loops that go from place to place, one round at each.
Where a comment or a literal begins, a round goes on behind its end. At the end of the text the
loops have the tokens and the minified bytes. -/

namespace ContractBuild.Source

/-- What a loop does at a place in front of a byte: it leaves a state and the next place. -/
abbrev Round (σ : Type) := σ → Nat → UInt8 → σ × Nat

/-- The states that a loop comes to, each with its place. It goes on as long as there is a byte. -/
inductive Reaches {σ : Type} (round : Round σ) (start : σ) (text : List UInt8) : σ → Nat → Prop
  | start : Reaches round start text start 0
  | next {s : σ} {pos : Nat} {b : UInt8} (h : Reaches round start text s pos)
      (hb : text[pos]? = some b) :
      Reaches round start text (round s pos b).1 (round s pos b).2

section Loops

variable {σ : Type} {round : Round σ} {start s : σ} {text : List UInt8} {pos : Nat}

theorem Reaches.eq_start {β : Type} {f : σ → Nat → β} (h : Reaches round start text s pos)
    (hround : ∀ {s pos b}, text[pos]? = some b →
      f (round s pos b).1 (round s pos b).2 = f s pos) : f s pos = f start 0 := by
  induction h with
  | start => rfl
  | next h hb ih => exact (hround hb).trans ih

theorem Reaches.exists_end
    (hround : ∀ {s pos b}, Reaches round start text s pos → text[pos]? = some b →
      pos < (round s pos b).2 ∧ (round s pos b).2 ≤ text.length) :
    ∃ s, Reaches round start text s text.length := by
  -- by induction on the number of bytes that are left at the place
  have hrest : ∀ n s pos, Reaches round start text s pos → pos + n = text.length →
      ∃ s, Reaches round start text s text.length := by
    intro n
    induction n using Nat.strongRecOn with
    | _ n ih =>
      intro s pos h hn
      cases hb : text[pos]? with
      | none =>
        have hpos : pos = text.length := by
          have hle := List.getElem?_eq_none_iff.1 hb
          omega
        exact ⟨s, hpos ▸ h⟩
      | some b =>
        obtain ⟨hlt, hle⟩ := hround h hb
        exact ih (text.length - (round s pos b).2) (by omega) _ _ (h.next hb) (by omega)
  exact hrest text.length start 0 .start (Nat.zero_add _)

end Loops

def scanRound (text : List UInt8) : Round (List Token) := fun found pos b =>
  match commentEnd? text pos with
  | some stop => (found, stop)
  | none =>
    match literalEnd? text pos with
    | some stop => (found ++ [⟨.mark doubleQuote, pos, stop⟩], stop)
    | none =>
      if isBlank b then (found, pos + 1)
      else if isWordByte b then
        let stop := wordEnd text pos
        (found ++ [⟨.word (asciiText (slice text pos stop)), pos, stop⟩], stop)
      else (found ++ [⟨.mark b, pos, pos + 1⟩], pos + 1 + characterTail b)

def appendBlank (out : List UInt8) (gap word : Bool) : List UInt8 :=
  if gap && out.getLast?.any isWordByte && word then out ++ [blank] else out

def writeRound (text : List UInt8) : Round (Bool × List UInt8) := fun (gap, out) pos b =>
  match commentEnd? text pos with
  | some stop => ((true, out), stop)
  | none =>
    if isBlank b then ((true, out), pos + 1)
    else
      let out := appendBlank out gap (isWordByte b)
      match literalEnd? text pos with
      | some stop => ((false, out ++ slice text pos stop), stop)
      | none => ((false, out ++ [b]), pos + 1)

section Rounds

variable {text rest : List UInt8} {pos : Nat} {b : UInt8}

theorem exists_drop (h : text[pos]? = some b) : ∃ rest, text.drop pos = b :: rest := by
  obtain ⟨hlt, hbyte⟩ := List.getElem?_eq_some_iff.1 h
  exact ⟨_, (List.drop_eq_getElem_cons hlt).trans (by rw [hbyte])⟩

theorem lexer_place (pos : Nat) (b : UInt8) (rest : List UInt8) :
    (lexer (0, pos) b rest).2.2 = pos + 1 := reach_place rest 0 pos [b]

theorem scanRound_eq (h : text.drop pos = b :: rest) (found : List Token) :
    scanRound text found pos b = (found ++ (lexer (0, pos) b rest).1.toList,
      pos + 1 + (lexer (0, pos) b rest).2.1) := by
  rw [scanRound, lexer, commentEnd?_eq h, literalEnd?_eq h]
  cases commentTail? b rest with
  | some n => exact congrArg (·, pos + 1 + n) (List.append_nil found).symm
  | none =>
    cases literalTail? b rest with
    | some n => rfl
    | none =>
      cases isBlank b with
      | true => exact congrArg (·, pos + 1) (List.append_nil found).symm
      | false =>
        cases hword : isWordByte b with
        | false => rfl
        | true =>
          have hmore : (b :: rest).takeWhile isWordByte = b :: rest.takeWhile isWordByte :=
            List.takeWhile_cons_of_pos hword
          have hslice :
              slice text pos (wordEnd text pos) = (text.drop pos).takeWhile isWordByte := by
            have hfront : (text.drop pos).takeWhile isWordByte <+: text.drop pos :=
              List.takeWhile_prefix _
            rw [slice, wordEnd, Nat.add_sub_cancel_left]
            exact (List.prefix_iff_eq_take.1 hfront).symm
          simp only [Option.map_none, Bool.false_eq_true, if_false, if_true]
          rw [hslice, wordEnd, h, hmore, List.length_cons, Nat.add_comm _ 1, ← Nat.add_assoc]
          rfl

theorem scanRound_run (found : List Token) (hb : text[pos]? = some b) :
    (scanRound text found pos b).1 ++ lexer.run (0, (scanRound text found pos b).2)
        (text.drop (scanRound text found pos b).2) =
      found ++ lexer.run (0, pos) (text.drop pos) := by
  obtain ⟨rest, h⟩ := exists_drop hb
  have hrest := run_lexer_drop (lexer (0, pos) b rest).2.1 (lexer (0, pos) b rest).2.2 rest
  rw [lexer_place, ← drop_of_drop h] at hrest
  rw [scanRound_eq h, h, Scanner.run, List.append_assoc, ← hrest, ← lexer_place pos b rest]

theorem reverse_appendBlank (out : List UInt8) (gap word : Bool) :
    (appendBlank out gap word).reverse = opened out.reverse gap word := by
  rw [appendBlank, opened, endsInWord, List.head?_reverse]
  split
  · exact List.reverse_concat
  · rfl

theorem writeRound_written (s : Bool × List UInt8) (hb : text[pos]? = some b) :
    minifyOnto (writeRound text s pos b).1.2.reverse (writeRound text s pos b).1.1 0 0
        (text.drop (writeRound text s pos b).2) =
      minifyOnto s.2.reverse s.1 0 0 (text.drop pos) := by
  obtain ⟨gap, out⟩ := s
  obtain ⟨rest, h⟩ := exists_drop hb
  have hrest : text.drop (pos + 1) = rest := drop_of_drop h 0
  have hcomment := commentEnd?_eq h
  rw [h]
  -- A round passes over a comment, owes a gap for a blank, or writes a byte or a literal.
  cases hn : commentTail? b rest with
  | some n =>
    have hround : writeRound text (gap, out) pos b = ((true, out), pos + 1 + n) := by
      rw [writeRound, hcomment, hn]
      rfl
    rw [hround, drop_of_drop h, minifyOnto, hn]
    exact (minifyOnto_drop out.reverse true n rest).symm
  | none =>
    rw [hn, Option.map_none] at hcomment
    cases hblank : isBlank b with
    | true =>
      have hround : writeRound text (gap, out) pos b = ((true, out), pos + 1) := by
        rw [writeRound, hcomment, hblank]
        rfl
      rw [hround, hrest]
      exact (minifyOnto_blank hblank out.reverse gap rest).symm
    | false =>
      rw [minifyOnto_byte hn hblank, ← reverse_appendBlank]
      have hliteral := literalEnd?_eq h
      cases hm : literalTail? b rest with
      | none =>
        have hround : writeRound text (gap, out) pos b =
            ((false, appendBlank out gap (isWordByte b) ++ [b]), pos + 1) := by
          rw [writeRound, hcomment, hblank, hliteral, hm]
          rfl
        rw [hround, hrest, List.reverse_concat]
        rfl
      | some n =>
        have hslice : slice text pos (pos + 1 + n) = b :: rest.take n := by
          rw [slice, h, Nat.add_assoc, Nat.add_sub_cancel_left, Nat.add_comm, List.take_succ_cons]
        have hround : writeRound text (gap, out) pos b =
            ((false, appendBlank out gap (isWordByte b) ++ b :: rest.take n), pos + 1 + n) := by
          rw [writeRound, hcomment, hblank, hliteral, hm, ← hslice]
          rfl
        rw [hround, drop_of_drop h, List.reverse_append, List.reverse_cons, List.append_assoc]
        exact (minifyOnto_copy _ false n rest).symm

theorem writeRound_next (s : Bool × List UInt8) (hb : text[pos]? = some b) :
    pos < (writeRound text s pos b).2 ∧ (writeRound text s pos b).2 ≤ text.length := by
  have hlt := lt_of_getElem? hb
  rw [writeRound]
  cases hcomment : commentEnd? text pos with
  | some stop =>
    obtain ⟨hstop, hedge⟩ := commentEnd?_edge hcomment
    exact ⟨hstop, hedge.le_length⟩
  | none =>
    cases isBlank b with
    | true => exact ⟨Nat.lt_succ_self pos, hlt⟩
    | false =>
      cases hliteral : literalEnd? text pos with
      | some stop =>
        obtain ⟨hstop, hedge⟩ := literalEnd?_edge hliteral
        exact ⟨hstop, hedge.le_length⟩
      | none => exact ⟨Nat.lt_succ_self pos, hlt⟩

theorem eq_tokens_of_reaches {found : List Token}
    (h : Reaches (scanRound text) [] text found text.length) : found = tokens text := by
  have hrun := h.eq_start (f := fun found pos => found ++ lexer.run (0, pos) (text.drop pos))
    (scanRound_run _)
  rw [List.drop_length, List.drop_zero, List.nil_append, ← tokens_eq_run] at hrun
  exact (List.append_nil found).symm.trans hrun

theorem eq_minifyBytes_of_reaches {s : Bool × List UInt8}
    (h : Reaches (writeRound text) (false, []) text s text.length) : s.2 = minifyBytes text := by
  have hwritten := h.eq_start (f := fun s pos => minifyOnto s.2.reverse s.1 0 0 (text.drop pos))
    (writeRound_written _)
  rw [List.drop_length, minifyOnto, List.reverse_reverse] at hwritten
  exact hwritten

theorem writer_ends (text : List UInt8) :
    ∃ gap, Reaches (writeRound text) (false, []) text (gap, minifyBytes text) text.length := by
  have hround : ∀ {s pos b}, Reaches (writeRound text) (false, []) text s pos →
      text[pos]? = some b → pos < (writeRound text s pos b).2 ∧
        (writeRound text s pos b).2 ≤ text.length := fun _ hb => writeRound_next _ hb
  obtain ⟨⟨gap, out⟩, h⟩ := Reaches.exists_end hround
  obtain rfl : out = minifyBytes text := eq_minifyBytes_of_reaches h
  exact ⟨gap, h⟩

end Rounds
end ContractBuild.Source
