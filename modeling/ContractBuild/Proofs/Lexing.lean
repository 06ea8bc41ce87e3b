import ContractBuild.Proofs.LookAhead
import ContractBuild.Source.Declaration

/-! Where a text can be cut such that both parts have their tokens without each other. Between two
parts that meet at such a seam, the second one can be exchanged for any text that begins with a word
as well. -/

namespace ContractBuild.Source

def Token.shift (k : Nat) (t : Token) : Token := ⟨t.lexeme, t.start + k, t.stop + k⟩

/-- The state is the number of bytes to be passed over, and the place in the text. -/
def lexer : Scanner (Nat × Nat) UInt8 Token
  | (skip + 1, pos), _, _ => (none, skip, pos + 1)
  | (0, pos), b, rest =>
    match commentTail? b rest with
    | some n => (none, n, pos + 1)
    | none =>
      match literalTail? b rest with
      | some n => (some ⟨.mark doubleQuote, pos, pos + 1 + n⟩, n, pos + 1)
      | none =>
        if isBlank b then (none, 0, pos + 1)
        else if isWordByte b then
          let more := rest.takeWhile isWordByte
          (some ⟨.word (asciiText (b :: more)), pos, pos + 1 + more.length⟩, more.length, pos + 1)
        else (some ⟨.mark b, pos, pos + 1⟩, characterTail b, pos + 1)

theorem tokensOnto_eq_run (found : List Token) (skip pos : Nat) (text : List UInt8) :
    tokensOnto found skip pos text = found.reverse ++ lexer.run (skip, pos) text := by
  induction text generalizing found skip pos with
  | nil => rw [tokensOnto, Scanner.run, List.append_nil]
  | cons b rest ih =>
    cases skip with
    | succ skip => rw [tokensOnto, ih]; rfl
    | zero =>
      rw [tokensOnto, Scanner.run, lexer]
      cases commentTail? b rest with
      | some n => exact ih ..
      | none =>
        cases literalTail? b rest with
        | some n => simp only [ih, List.reverse_cons, List.append_assoc]; rfl
        | none =>
          cases isBlank b with
          | true => exact ih ..
          | false =>
            cases isWordByte b <;>
              simp only [ih, List.reverse_cons, List.append_assoc] <;> rfl

theorem tokens_eq_run (text : List UInt8) : tokens text = lexer.run (0, 0) text := by
  rw [tokens, tokensOnto_eq_run]
  rfl

theorem lexer_shift (k skip pos : Nat) (b : UInt8) (rest : List UInt8) :
    lexer (skip, pos + k) b rest =
      ((lexer (skip, pos) b rest).1.map (·.shift k), (lexer (skip, pos) b rest).2.1,
        (lexer (skip, pos) b rest).2.2 + k) := by
  cases skip with
  | succ skip => simp only [lexer, Option.map_none]; congr 2; omega
  | zero =>
    rw [lexer, lexer]
    cases commentTail? b rest with
    | some n => simp only [Option.map_none]; congr 2; omega
    | none =>
      cases literalTail? b rest with
      | some n => simp [Token.shift]; omega
      | none =>
        cases isBlank b with
        | true =>
          simp only [if_true, Option.map_none]; congr 2; omega
        | false => cases isWordByte b <;> simp [Token.shift] <;> omega

theorem run_lexer_at (k : Nat) (text : List UInt8) :
    lexer.run (0, k) text = (tokens text).map (·.shift k) := by
  have h := Scanner.run_map (f := lexer) (g := lexer) (fun s => (s.1, s.2 + k)) id (·.shift k)
    (fun s b rest => by rw [List.map_id]; exact lexer_shift k s.1 s.2 b rest) (0, 0) text
  rw [List.map_id, Nat.zero_add] at h
  rw [h, tokens_eq_run]

theorem reach_place (rest : List UInt8) (skip pos : Nat) (text : List UInt8) :
    (lexer.reach rest (skip, pos) text).2 = pos + text.length := by
  induction text generalizing skip pos with
  | nil => rfl
  | cons b text ih =>
    have hpos : (lexer (skip, pos) b (text ++ rest)).2.2 = pos + 1 := by
      cases skip with
      | succ skip => rfl
      | zero =>
        rw [lexer]
        split
        · rfl
        · split
          · rfl
          · split
            · rfl
            · split <;> rfl
    refine (ih _ _).trans ?_
    rw [hpos, List.length_cons]
    omega

theorem skip_le_of_reach {rest : List UInt8} {s : Nat × Nat} {text : List UInt8}
    (h : (lexer.reach rest s text).1 = 0) : s.1 ≤ text.length := by
  induction text generalizing s with
  | nil => exact Nat.le_of_eq h
  | cons b text ih =>
    obtain ⟨skip, pos⟩ := s
    cases skip with
    | zero => exact Nat.zero_le _
    | succ skip => exact Nat.succ_le_succ (ih (s := (skip, pos + 1)) h)

def BeginsWord (text : List UInt8) : Prop := ∃ b rest, text = b :: rest ∧ isWordByte b = true

/-- What follows a text can be replaced as long as the scan of the text stays in front of it: by
nothing, or by what begins alike. -/
inductive Exchangeable : List UInt8 → List UInt8 → Prop
  | nil (x : List UInt8) : Exchangeable x []
  | same (b : UInt8) (x y : List UInt8) : Exchangeable (b :: x) (b :: y)
  | words {b c : UInt8} (hb : isWordByte b = true) (hc : isWordByte c = true) (x y : List UInt8) :
      Exchangeable (b :: x) (c :: y)

theorem BeginsWord.exchangeable {x y : List UInt8} (hx : BeginsWord x) (hy : BeginsWord y) :
    Exchangeable x y := by
  obtain ⟨b, x, rfl, hb⟩ := hx
  obtain ⟨c, y, rfl, hc⟩ := hy
  exact .words hb hc x y

theorem Exchangeable.takeWhile {p : UInt8 → Bool} (hp : ∀ b, isWordByte b = true → p b = true)
    {x y : List UInt8} (hxy : Exchangeable x y) {text : List UInt8}
    (h : ((text ++ x).takeWhile p).length ≤ text.length) :
    (text ++ y).takeWhile p = (text ++ x).takeWhile p := by
  induction text with
  | nil =>
    have hx : x.takeWhile p = [] := List.eq_nil_of_length_eq_zero (Nat.le_zero.1 h)
    cases hxy with
    | nil => exact hx.symm
    | same b x y =>
      have hb : ¬ p b = true := fun hb => by rw [List.takeWhile_cons_of_pos hb] at hx; cases hx
      exact (List.takeWhile_cons_of_neg hb).trans hx.symm
    | words hb _ x y =>
      rw [List.takeWhile_cons_of_pos (hp _ hb)] at hx
      cases hx
  | cons c text ih =>
    rw [List.cons_append, List.cons_append, List.takeWhile_cons, List.takeWhile_cons]
    rw [List.cons_append, List.takeWhile_cons] at h
    cases hc : p c with
    | false => rfl
    | true =>
      rw [hc] at h
      exact congrArg (c :: ·) (ih (Nat.le_of_succ_le_succ h))

theorem le_blockLength (n : Nat) (text : List UInt8) : n ≤ blockLength n text := by
  induction text generalizing n with
  | nil => exact Nat.le_refl n
  | cons b rest ih =>
    rw [blockLength]
    split
    · exact Nat.le_add_right n 2
    · exact Nat.le_of_succ_le (ih (n + 1))

theorem lt_blockLength (n : Nat) (b : UInt8) (text : List UInt8) : n < blockLength n (b :: text) := by
  rw [blockLength]
  split
  · exact Nat.lt_add_of_pos_right (by decide)
  · exact le_blockLength (n + 1) text

theorem ne_of_isWordByte {b c : UInt8} (hb : isWordByte b = true) (hc : isWordByte c = false) :
    b ≠ c := by
  rintro rfl
  rw [hb] at hc
  cases hc

theorem Exchangeable.blockLength {x y : List UInt8} (hxy : Exchangeable x y) {text : List UInt8}
    {n : Nat} (h : blockLength n (text ++ x) ≤ n + text.length) :
    blockLength n (text ++ y) = blockLength n (text ++ x) := by
  induction text generalizing n with
  | nil =>
    cases x with
    | nil =>
      cases hxy
      rfl
    | cons b x => exact absurd h (Nat.not_le.2 (lt_blockLength n b x))
  | cons c text ih =>
    have hend : (c = star ∧ (text ++ y).head? = some slash) ↔
        (c = star ∧ (text ++ x).head? = some slash) := by
      refine and_congr_right fun hc => ?_
      cases text with
      | cons => rfl
      | nil =>
        -- The two bytes that end a comment may stand on both sides of the place.
        cases hxy with
        | same => rfl
        | words hb hc =>
          have hb := ne_of_isWordByte hb (c := slash) (by decide)
          have hc := ne_of_isWordByte hc (c := slash) (by decide)
          simp [hb, hc]
        | nil =>
          refine iff_of_false nofun fun hx => ?_
          rw [List.cons_append, Source.blockLength, if_pos ⟨hc, hx⟩] at h
          exact absurd h (by simp)
    rw [List.cons_append, List.cons_append, Source.blockLength, Source.blockLength, if_congr hend rfl rfl]
    split
    · rfl
    · rename_i hne
      rw [List.cons_append, Source.blockLength, if_neg hne, List.length_cons] at h
      exact ih (by omega)

theorem le_literalLength (quote : UInt8) (n : Nat) (text : List UInt8) :
    n ≤ literalLength quote n text := by
  fun_induction literalLength quote n text <;> omega

theorem lt_literalLength (quote : UInt8) (n : Nat) (b : UInt8) (text : List UInt8) :
    n < literalLength quote n (b :: text) := by
  cases text with
  | nil => exact Nat.lt_succ_self n
  | cons c rest =>
    rw [literalLength]
    have hrest := le_literalLength quote (n + 2) rest
    have hmore := le_literalLength quote (n + 1) (c :: rest)
    split
    · omega
    · split <;> omega

theorem Exchangeable.literalLength {quote : UInt8} {x y : List UInt8} (hxy : Exchangeable x y)
    (text : List UInt8) {n : Nat} (h : literalLength quote n (text ++ x) ≤ n + text.length) :
    literalLength quote n (text ++ y) = literalLength quote n (text ++ x) := by
  match text with
  | [] =>
    cases x with
    | nil =>
      cases hxy
      rfl
    | cons b x => exact absurd h (Nat.not_le.2 (lt_literalLength quote n b x))
  | [b] =>
    -- A backslash in front of the place would take the first byte behind it into the literal.
    cases x with
    | nil =>
      cases hxy
      rfl
    | cons c x =>
      have hescaped := le_literalLength quote (n + 2) x
      have hplain := lt_literalLength quote (n + 1) c x
      rw [List.singleton_append, Source.literalLength] at h
      rw [List.singleton_append, List.singleton_append, Source.literalLength]
      split at h
      · exact absurd h (by rw [List.length_singleton]; omega)
      · rename_i hb
        rw [if_neg hb]
        split at h
        · rename_i hq
          rw [if_pos hq]
          cases y with
          | nil => rfl
          | cons d y => rw [Source.literalLength, if_neg hb, if_pos hq]
        · exact absurd h (by rw [List.length_singleton]; omega)
  | b :: c :: text =>
    simp only [List.cons_append, Source.literalLength, List.length_cons] at h ⊢
    split
    · rename_i hb
      rw [if_pos hb] at h
      exact hxy.literalLength text (by omega)
    · rename_i hb
      rw [if_neg hb] at h
      split
      · rfl
      · rename_i hq
        rw [if_neg hq] at h
        exact hxy.literalLength (c :: text) (by rw [List.cons_append, List.length_cons]; omega)

theorem commentTail?_cons_eq_none_iff {b c : UInt8} {rest : List UInt8} :
    commentTail? b (c :: rest) = none ↔ (b = slash → c ≠ slash ∧ c ≠ star) := by
  simp only [commentTail?]
  by_cases hb : b = slash
  · by_cases hslash : c = slash
    · simp [hb, hslash]
    · by_cases hstar : c = star <;> simp only [if_pos hb, if_neg hslash] <;> simp [hb, hslash, hstar]
  · simp [hb]

theorem one_le_commentTail? {b : UInt8} {rest : List UInt8} {n : Nat}
    (h : commentTail? b rest = some n) : 1 ≤ n := by
  cases rest with
  | nil => simp [commentTail?] at h
  | cons c more =>
    simp only [commentTail?] at h
    split at h
    · split at h
      · rename_i hc
        cases h
        rw [hc, List.takeWhile_cons_of_pos (by decide)]
        exact Nat.succ_le_succ (Nat.zero_le _)
      · split at h
        · cases h
          exact le_blockLength 1 more
        · cases h
    · cases h

theorem Exchangeable.commentTail? {b : UInt8} {x y : List UInt8} (hxy : Exchangeable x y)
    {text : List UInt8} (h : ∀ n, commentTail? b (text ++ x) = some n → n ≤ text.length) :
    commentTail? b (text ++ y) = commentTail? b (text ++ x) := by
  cases text with
  | nil =>
    have hx : Source.commentTail? b x = none := by
      cases hn : Source.commentTail? b x with
      | none => rfl
      | some n => exact absurd (h n hn) (Nat.not_le.2 (one_le_commentTail? hn))
    rw [List.nil_append, List.nil_append, hx]
    cases hxy with
    | nil => simp [Source.commentTail?]
    | same c x y => exact commentTail?_cons_eq_none_iff.2 (commentTail?_cons_eq_none_iff.1 hx)
    | words _ hc x y =>
      refine commentTail?_cons_eq_none_iff.2 fun _ => ?_
      exact ⟨ne_of_isWordByte hc (by decide), ne_of_isWordByte hc (by decide)⟩
  | cons c text =>
    simp only [List.cons_append, Source.commentTail?, List.length_cons] at h ⊢
    by_cases hb : b = slash
    · rw [if_pos hb] at h
      rw [if_pos hb, if_pos hb]
      by_cases hslash : c = slash
      · rw [if_pos hslash] at h
        rw [if_pos hslash, if_pos hslash]
        -- A comment to the end of the line would go on over a word.
        have hword : ∀ b, isWordByte b = true → (b != newline) = true := by
          intro b hb
          rw [bne_iff_ne]
          rintro rfl
          exact absurd hb (by decide)
        have hlength : (((c :: text) ++ x).takeWhile (· != newline)).length ≤ (c :: text).length :=
          h _ rfl
        exact congrArg (some ·.length) (hxy.takeWhile hword hlength)
      · rw [if_neg hslash] at h
        rw [if_neg hslash, if_neg hslash]
        by_cases hstar : c = star
        · rw [if_pos hstar] at h
          rw [if_pos hstar, if_pos hstar, hxy.blockLength]
          have hn := h _ rfl
          omega
        · rw [if_neg hstar, if_neg hstar]
    · rw [if_neg hb, if_neg hb]

theorem Exchangeable.lexer {x y : List UInt8} (hxy : Exchangeable x y) {s : Nat × Nat} {b : UInt8}
    {text : List UInt8} (h : (lexer s b (text ++ x)).2.1 ≤ text.length) :
    lexer s b (text ++ y) = lexer s b (text ++ x) := by
  obtain ⟨skip, pos⟩ := s
  cases skip with
  | succ skip => rfl
  | zero =>
    have hcomment : Source.commentTail? b (text ++ y) = Source.commentTail? b (text ++ x) := by
      refine hxy.commentTail? fun n hn => ?_
      rw [Source.lexer, hn] at h
      exact h
    rw [Source.lexer, Source.lexer, hcomment]
    rw [Source.lexer] at h
    cases hc : Source.commentTail? b (text ++ x) with
    | some n => rfl
    | none =>
      rw [hc] at h
      have hliteral : literalTail? b (text ++ y) = literalTail? b (text ++ x) := by
        rw [literalTail?, literalTail?]
        by_cases hq : isQuote b = true
        · rw [literalTail?, if_pos hq] at h
          rw [if_pos hq, if_pos hq, hxy.literalLength text (by rw [Nat.zero_add]; exact h)]
        · rw [if_neg hq, if_neg hq]
      rw [hliteral]
      cases hl : literalTail? b (text ++ x) with
      | some n => rfl
      | none =>
        rw [hl] at h
        by_cases hblank : isBlank b = true
        · simp only [if_pos hblank]
        · by_cases hword : isWordByte b = true
          · simp only [if_neg hblank, if_pos hword] at h ⊢
            rw [hxy.takeWhile (fun _ h => h) h]
          · simp only [if_neg hblank, if_neg hword]

/-- No token, comment or literal of `before ++ after` goes across the place between the two. -/
def Seam (before after : List UInt8) : Prop := (lexer.reach after (0, 0) before).1 = 0

theorem Seam.exchange {before x y : List UInt8} (h : Seam before x) (hxy : Exchangeable x y) :
    lexer.before y (0, 0) before = lexer.before x (0, 0) before ∧
      lexer.reach y (0, 0) before = lexer.reach x (0, 0) before :=
  Scanner.transfer (f := lexer) (g := lexer) (fun s => s.1 = 0)
    (fun _ _ _ hl => hxy.lexer (skip_le_of_reach hl)) h

theorem Seam.of_beginsWord {before x y : List UInt8} (h : Seam before x) (hx : BeginsWord x)
    (hy : BeginsWord y) : Seam before y := by
  rw [Seam, (h.exchange (hx.exchangeable hy)).2]
  exact h

theorem Seam.before_eq {before after : List UInt8} (h : Seam before after) :
    lexer.before after (0, 0) before = tokens before := by
  rw [tokens_eq_run, ← Scanner.before_nil, (h.exchange (.nil after)).1]

theorem Seam.reach_eq {before after : List UInt8} (h : Seam before after) :
    lexer.reach after (0, 0) before = (0, before.length) := by
  refine Prod.ext h ?_
  rw [reach_place, Nat.zero_add]

theorem Seam.tokens {before after : List UInt8} (h : Seam before after) :
    tokens (before ++ after) = tokens before ++ (tokens after).map (·.shift before.length) := by
  rw [tokens_eq_run, Scanner.run_append, h.before_eq, h.reach_eq, run_lexer_at]

theorem seam_of_token {text : List UInt8} {ts rest : List Token} {t : Token}
    (h : tokens text = ts ++ t :: rest) :
    ∃ before b after, text = before ++ b :: after ∧ Seam before (b :: after) ∧ tokens before = ts ∧
      (lexer (0, before.length) b after).1 = some t ∧
      lexer.run (lexer (0, before.length) b after).2 after = rest := by
  rw [tokens_eq_run] at h
  obtain ⟨before, b, after, rfl, hts, ht, hrest⟩ := Scanner.run_split h
  have hseam : Seam before (b :: after) := by
    rw [Seam]
    cases hs : lexer.reach (b :: after) (0, 0) before with
    | mk skip pos =>
      cases skip with
      | zero => rfl
      | succ skip => rw [hs] at ht; cases ht
  rw [hseam.reach_eq] at ht hrest
  exact ⟨before, b, after, rfl, hseam, hseam.before_eq.symm.trans hts, ht, hrest⟩

theorem lexer_token {pos : Nat} {b : UInt8} {rest : List UInt8} {t : Token}
    (h : (lexer (0, pos) b rest).1 = some t) :
    t.start = pos ∧ (∀ w, t.lexeme = .word w → isWordByte b = true ∧ t.stop = pos + w.length) ∧
      (t.lexeme = .mark closeBrace → b = closeBrace ∧ t.stop = pos + 1) := by
  rw [lexer] at h
  cases hc : commentTail? b rest with
  | some n => rw [hc] at h; cases h
  | none =>
    rw [hc] at h
    cases hl : literalTail? b rest with
    | some n =>
      rw [hl] at h
      cases h
      exact ⟨rfl, fun w hw => (nomatch hw), fun hm => absurd (Lexeme.mark.inj hm) (by decide)⟩
    | none =>
      rw [hl] at h
      by_cases hblank : isBlank b = true
      · simp only [if_pos hblank] at h
        cases h
      · by_cases hword : isWordByte b = true
        · simp only [if_neg hblank, if_pos hword] at h
          cases h
          refine ⟨rfl, fun w hw => ⟨hword, ?_⟩, fun hm => (nomatch hm)⟩
          cases hw
          rw [asciiText, String.length_ofList, List.length_map, List.length_cons]
          exact Nat.add_right_comm ..
        · simp only [if_neg hblank, if_neg hword] at h
          cases h
          exact ⟨rfl, fun w hw => (nomatch hw), fun hm => ⟨Lexeme.mark.inj hm, rfl⟩⟩

theorem seam_of_word {text : List UInt8} {ts rest : List Token} {t : Token} {w : String}
    (h : tokens text = ts ++ t :: rest) (hw : t.lexeme = .word w) :
    t.stop = t.start + w.length ∧
      ∃ before after, text = before ++ after ∧ before.length = t.start ∧ Seam before after ∧
        BeginsWord after ∧ tokens before = ts ∧
        t :: rest = (tokens after).map (·.shift before.length) := by
  obtain ⟨before, b, after, rfl, hseam, hts, ht, hrest⟩ := seam_of_token h
  obtain ⟨hstart, hword, -⟩ := lexer_token ht
  obtain ⟨hb, hstop⟩ := hword w hw
  refine ⟨by rw [hstop, hstart], before, b :: after, rfl, hstart.symm, hseam, ⟨b, after, rfl, hb⟩,
    hts, ?_⟩
  rw [← run_lexer_at, Scanner.run, ht, hrest]
  rfl

theorem seam_of_closeBrace {text : List UInt8} {ts rest : List Token} {t : Token}
    (h : tokens text = ts ++ t :: rest) (ht : t.lexeme = .mark closeBrace) :
    ∃ before after, text = before ++ after ∧ before.length = t.stop ∧
      before.getLast? = some closeBrace ∧ (∀ other, Seam before other) ∧ tokens before = ts ++ [t] ∧
      rest = (tokens after).map (·.shift before.length) := by
  obtain ⟨before, b, after, rfl, hseam, hts, hstep, hrest⟩ := seam_of_token h
  obtain ⟨-, -, hclose⟩ := lexer_token hstep
  obtain ⟨rfl, hstop⟩ := hclose ht
  have hlength : (before ++ [closeBrace]).length = before.length + 1 := List.length_append
  have hnext : ∀ other, Seam (before ++ [closeBrace]) other := by
    intro other
    rw [Seam, Scanner.reach_append, List.singleton_append,
      (hseam.exchange (.same closeBrace after other)).2, hseam.reach_eq]
    rfl
  have happend : before ++ closeBrace :: after = before ++ [closeBrace] ++ after := by
    rw [List.append_assoc, List.singleton_append]
  have hafter : rest = (tokens after).map (·.shift (before ++ [closeBrace]).length) := by
    rw [← run_lexer_at, hlength]
    exact hrest.symm
  refine ⟨before ++ [closeBrace], after, happend, hlength.trans hstop.symm,
    List.getLast?_concat .., hnext, ?_, hafter⟩
  rw [happend, (hnext after).tokens, hafter] at h
  exact List.append_cancel_right (h.trans (List.append_cons ts t _))

end ContractBuild.Source
