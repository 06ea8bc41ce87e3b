import ContractBuild.Proofs.Characters
import Mathlib.Data.List.TakeWhile

/-! Texts as pieces: words, literals, single characters, and what keeps them apart. The scanner reads
pieces one by one, and every text is pieces as far as its comments and literals are closed. -/

namespace ContractBuild.Source

open Text

structure Word where
  chars : List Char
  nonempty : chars ≠ []
  isWord : chars.all isWordChar = true
  deriving DecidableEq

def Word.text (w : Word) : String := String.ofList w.chars

/-- What keeps tokens apart. A comment to the end of its line takes the line feed along. -/
inductive Gap where
  | blank (c : Char) (h : isBlankChar c = true)
  | lineComment (body : List Char) (h : '\n' ∉ body)
  | blockComment (body : List Char) (h : ¬ ['*', '/'] <:+: body)
  deriving DecidableEq

def Gap.chars : Gap → List Char
  | .blank c _ => [c]
  | .lineComment body _ => '/' :: '/' :: body ++ ['\n']
  | .blockComment body _ => '/' :: '*' :: body ++ ['*', '/']

inductive LiteralPart (quote : Char) where
  | plain (c : Char) (hquote : c ≠ quote) (hbackslash : c ≠ '\\')
  | escaped (c : Char)
  deriving DecidableEq

def LiteralPart.chars {quote : Char} : LiteralPart quote → List Char
  | .plain c _ _ => [c]
  | .escaped c => ['\\', c]

def isMarkChar (c : Char) : Bool := !isBlankChar c && !isWordChar c && !isQuoteChar c

inductive Piece where
  | gap (g : Gap)
  | word (w : Word)
  | literal (quote : Char) (h : isQuoteChar quote = true) (body : List (LiteralPart quote))
  | mark (c : Char) (h : isMarkChar c = true)
  deriving DecidableEq

namespace Piece

def chars : Piece → List Char
  | .gap g => g.chars
  | .word w => w.chars
  | .literal quote _ body => quote :: body.flatMap LiteralPart.chars ++ [quote]
  | .mark c _ => [c]

theorem chars_ne_nil (p : Piece) : p.chars ≠ [] := by
  cases p with
  | gap g => cases g <;> exact List.cons_ne_nil _ _
  | word w => exact w.nonempty
  | literal quote h body => exact List.cons_ne_nil _ _
  | mark c h => exact List.cons_ne_nil _ _

def lexeme? : Piece → Option Lexeme
  | .gap _ => none
  | .word w => some (.word w.text)
  | .literal _ _ _ => some (.mark doubleQuote)
  | .mark c _ => some (.mark (leadByte c))

def width : Piece → Nat
  | .mark _ _ => 1
  | p => (encode p.chars).length

def token? (pos : Nat) (p : Piece) : Option Token :=
  p.lexeme?.map fun lexeme => ⟨lexeme, pos, pos + p.width⟩

/-- The piece ends where such a text begins: a word in front of another word would go on, and a slash
could begin a comment. -/
def EndsAt (rest : List Char) : Piece → Prop
  | .word _ => rest.head?.any isWordChar = false
  | .mark c _ => c = '/' → rest.head? ≠ some '/' ∧ rest.head? ≠ some '*'
  | _ => True

instance (rest : List Char) : (p : Piece) → Decidable (p.EndsAt rest)
  | .gap _ => isTrue trivial
  | .word _ => inferInstanceAs (Decidable (rest.head?.any isWordChar = false))
  | .literal _ _ _ => isTrue trivial
  | .mark c _ => inferInstanceAs (Decidable (c = '/' → rest.head? ≠ some '/' ∧ rest.head? ≠ some '*'))

end Piece

def charsOf (ps : List Piece) : List Char := ps.flatMap Piece.chars

def Legible (rest : List Char) : List Piece → Prop
  | [] => True
  | p :: ps => p.EndsAt (charsOf ps ++ rest) ∧ Legible rest ps

instance Legible.decidable (rest : List Char) : (ps : List Piece) → Decidable (Legible rest ps)
  | [] => isTrue trivial
  | p :: ps =>
    have := Legible.decidable rest ps
    inferInstanceAs (Decidable (p.EndsAt (charsOf ps ++ rest) ∧ Legible rest ps))

def tokensAt (pos : Nat) : List Piece → List Token
  | [] => []
  | p :: ps => (p.token? pos).toList ++ tokensAt (pos + (encode p.chars).length) ps

@[simp] theorem charsOf_nil : charsOf [] = [] := rfl

@[simp] theorem charsOf_cons (p : Piece) (ps : List Piece) :
    charsOf (p :: ps) = p.chars ++ charsOf ps := rfl

@[simp] theorem charsOf_append (ps qs : List Piece) :
    charsOf (ps ++ qs) = charsOf ps ++ charsOf qs := List.flatMap_append

theorem Legible.append {ps qs : List Piece} {rest : List Char} :
    Legible rest (ps ++ qs) ↔ Legible (charsOf qs ++ rest) ps ∧ Legible rest qs := by
  induction ps with
  | nil => exact (iff_of_eq (true_and _)).symm
  | cons p ps ih =>
    rw [List.cons_append, Legible, Legible, ih, charsOf_append, List.append_assoc, and_assoc]

theorem Piece.EndsAt.congr {p : Piece} {x y : List Char} (hxy : x.head? = y.head?) (h : p.EndsAt x) :
    p.EndsAt y := by
  cases p with
  | gap g => trivial
  | word w => rw [Piece.EndsAt, ← hxy]; exact h
  | literal quote hquote body => trivial
  | mark c hc => rw [Piece.EndsAt, ← hxy]; exact h

theorem Legible.congr {ps : List Piece} {x y : List Char} (hxy : x.head? = y.head?)
    (h : Legible x ps) : Legible y ps := by
  induction ps with
  | nil => trivial
  | cons p ps ih => exact ⟨h.1.congr (by rw [List.head?_append, List.head?_append, hxy]), ih h.2⟩

theorem tokensAt_append (pos : Nat) (ps qs : List Piece) :
    tokensAt pos (ps ++ qs) =
      tokensAt pos ps ++ tokensAt (pos + (encode (charsOf ps)).length) qs := by
  induction ps generalizing pos with
  | nil => rfl
  | cons p ps ih =>
    rw [List.cons_append, tokensAt, ih, tokensAt, List.append_assoc, charsOf_cons, encode_append,
      List.length_append, Nat.add_assoc]

/-! ### Reading one piece -/

theorem run_lexer_drop (skip pos : Nat) (rest : List UInt8) :
    lexer.run (skip, pos) rest = lexer.run (0, pos + skip) (rest.drop skip) := by
  induction skip generalizing pos rest with
  | zero => rfl
  | succ skip ih =>
    cases rest with
    | nil => rfl
    | cons b rest =>
      refine (ih (pos + 1) rest).trans ?_
      rw [Nat.add_assoc, Nat.add_comm 1, List.drop_succ_cons]

theorem run_lexer_skip (k pos : Nat) {passed : List UInt8} (rest : List UInt8)
    (h : passed.length = k) :
    lexer.run (k, pos) (passed ++ rest) = lexer.run (0, pos + k) rest := by
  rw [run_lexer_drop, ← h, List.drop_left]

theorem isBlank_excludes {b : UInt8} : isBlank b = true → b ≠ slash ∧ isQuote b = false :=
  forall_bytes (p := fun b => isBlank b = true → b ≠ slash ∧ isQuote b = false) (by decide +kernel) b

theorem isWordByte_excludes {b : UInt8} :
    isWordByte b = true → b ≠ slash ∧ isQuote b = false ∧ isBlank b = false :=
  forall_bytes (p := fun b => isWordByte b = true → b ≠ slash ∧ isQuote b = false ∧ isBlank b = false)
    (by decide +kernel) b

theorem run_lexer_blank {b : UInt8} (h : isBlank b = true) (pos : Nat) (rest : List UInt8) :
    lexer.run (0, pos) (b :: rest) = lexer.run (0, pos + 1) rest := by
  obtain ⟨hslash, hquote⟩ := isBlank_excludes h
  have hcomment : commentTail? b rest = none := if_neg hslash
  have hliteral : literalTail? b rest = none := by rw [literalTail?, hquote]; rfl
  rw [Scanner.run, lexer, hcomment, hliteral]
  simp only [if_pos h]
  rfl

theorem run_lexer_comment {b : UInt8} {passed rest : List UInt8} {pos : Nat}
    (h : commentTail? b (passed ++ rest) = some passed.length) :
    lexer.run (0, pos) (b :: (passed ++ rest)) =
      lexer.run (0, pos + (b :: passed).length) rest := by
  rw [Scanner.run, lexer, h]
  simp only [Option.toList_none, List.nil_append]
  rw [run_lexer_skip _ _ _ rfl, List.length_cons, Nat.add_right_comm, Nat.add_assoc]

theorem takeWhile_run {α : Type} {p : α → Bool} {w rest : List α} (hw : ∀ a ∈ w, p a = true)
    (hrest : ∀ a ∈ rest.head?, p a = false) :
    (w ++ rest).takeWhile p = w ∧ (w ++ rest).dropWhile p = rest := by
  rw [List.takeWhile_append_of_pos hw, List.dropWhile_append_of_pos hw]
  cases rest with
  | nil => exact ⟨List.append_nil w, rfl⟩
  | cons a rest =>
    have ha : ¬ p a = true := by
      rw [hrest a rfl]
      exact Bool.false_ne_true
    exact ⟨by rw [List.takeWhile_cons_of_neg ha, List.append_nil], List.dropWhile_cons_of_neg ha⟩

theorem commentTail?_line {body : List UInt8} (h : newline ∉ body) (rest : List UInt8) :
    commentTail? slash (slash :: body ++ newline :: rest) = some (slash :: body).length := by
  have hall : ∀ b ∈ slash :: body, (b != newline) = true := by
    intro b hb
    rw [bne_iff_ne]
    rintro rfl
    exact h ((List.mem_cons.1 hb).resolve_left (by decide))
  have hstop : ∀ b ∈ (newline :: rest).head?, (b != newline) = false := by
    rintro b ⟨⟩
    exact bne_self_eq_false newline
  have htake : (slash :: body ++ newline :: rest).takeWhile (· != newline) = slash :: body :=
    (takeWhile_run hall hstop).1
  refine Eq.trans (b := some ((slash :: body ++ newline :: rest).takeWhile (· != newline)).length)
    rfl ?_
  rw [htake]

theorem blockLength_closed {body : List UInt8} (h : ¬ [star, slash] <:+: body) (n : Nat)
    (rest : List UInt8) :
    blockLength n (body ++ star :: slash :: rest) = n + body.length + 2 := by
  induction body generalizing n with
  | nil => exact if_pos ⟨rfl, rfl⟩
  | cons b body ih =>
    have hopen : ¬ (b = star ∧ (body ++ star :: slash :: rest).head? = some slash) := by
      rintro ⟨rfl, hhead⟩
      cases body with
      -- a star at the end of the body is followed by the one that closes it
      | nil => exact absurd (Option.some_inj.1 hhead) (by decide)
      | cons c body =>
        cases hhead
        exact h ⟨[], body, rfl⟩
    have hbody : ¬ [star, slash] <:+: body := fun hin =>
      h (hin.trans (List.suffix_cons b body).isInfix)
    rw [List.cons_append, blockLength, if_neg hopen, ih hbody, List.length_cons]
    omega

theorem commentTail?_block {body : List UInt8} (h : ¬ [star, slash] <:+: body) (rest : List UInt8) :
    commentTail? slash (star :: body ++ star :: slash :: rest) =
      some (star :: body ++ [star, slash]).length := by
  have hlength : (star :: body ++ [star, slash]).length = 1 + body.length + 2 := by
    rw [List.length_append, List.length_cons, Nat.add_comm 1]
    rfl
  rw [hlength, ← blockLength_closed h 1 rest]
  rfl

theorem Gap.encode_cases (g : Gap) :
    (∃ b, isBlank b = true ∧ encode g.chars = [b]) ∨
      ∃ b passed stop, encode g.chars = b :: (passed ++ stop) ∧ (stop = [] ∨ stop = [newline]) ∧
        ∀ rest, commentTail? b (passed ++ (stop ++ rest)) = some passed.length := by
  cases g with
  | blank c h =>
    have hc := encode_cons_of_ascii (ascii_of_isBlankChar h) []
    exact Or.inl ⟨leadByte c, (isBlank_leadByte c).trans h, hc⟩
  | lineComment body h =>
    have hbody : newline ∉ encode body := fun hn => h ((leadByte_mem_encode_iff (by decide)).1 hn)
    refine Or.inr ⟨slash, slash :: encode body, [newline], ?_, Or.inr rfl, fun rest => ?_⟩
    · rw [Gap.chars, encode_append]
      rfl
    · exact commentTail?_line hbody rest
  | blockComment body h =>
    have hbody : ¬ [star, slash] <:+: encode body := fun hin => h (infix_of_infix_encode hin)
    refine Or.inr ⟨slash, star :: encode body ++ [star, slash], [], ?_, Or.inl rfl, fun rest => ?_⟩
    · rw [Gap.chars, encode_append, List.append_nil]
      rfl
    · rw [← commentTail?_block hbody rest, List.append_assoc]
      rfl

theorem run_lexer_gap (g : Gap) (pos : Nat) (rest : List UInt8) :
    lexer.run (0, pos) (encode g.chars ++ rest) =
      lexer.run (0, pos + (encode g.chars).length) rest := by
  rcases g.encode_cases with ⟨b, hblank, hbytes⟩ | ⟨b, passed, stop, hbytes, hstop, hcomment⟩
  · rw [hbytes]
    exact run_lexer_blank hblank pos rest
  · rw [hbytes, List.cons_append, List.append_assoc, run_lexer_comment (hcomment rest)]
    rcases hstop with rfl | rfl
    · rw [List.append_nil]
      rfl
    · rw [List.singleton_append, run_lexer_blank (by decide), ← List.cons_append,
        List.length_append, Nat.add_assoc]
      rfl

theorem run_lexer_word (w : Word) {rest : List UInt8} (h : ∀ b ∈ rest.head?, isWordByte b = false)
    (pos : Nat) : lexer.run (0, pos) (encode w.chars ++ rest) =
      ⟨.word w.text, pos, pos + (encode w.chars).length⟩ ::
        lexer.run (0, pos + (encode w.chars).length) rest := by
  have hall := List.all_eq_true.1 w.isWord
  have hwords := isWordByte_of_mem_encode hall
  have htext : w.text = asciiText (encode w.chars) := (asciiText_encode hall).symm
  obtain ⟨b, more, hbytes⟩ : ∃ b more, encode w.chars = b :: more := by
    obtain ⟨c, cs, hcs⟩ := List.exists_cons_of_ne_nil w.nonempty
    rw [hcs, encode_cons]
    exact ⟨_, _, rfl⟩
  rw [hbytes] at hwords htext ⊢
  obtain ⟨hb, hmore⟩ := List.forall_mem_cons.1 hwords
  obtain ⟨hslash, hquote, hblank⟩ := isWordByte_excludes hb
  have hcomment : commentTail? b (more ++ rest) = none := if_neg hslash
  have hliteral : literalTail? b (more ++ rest) = none := by rw [literalTail?, hquote]; rfl
  have htake : (more ++ rest).takeWhile isWordByte = more := (takeWhile_run hmore h).1
  rw [List.cons_append, Scanner.run, lexer, hcomment, hliteral]
  simp only [hblank, hb, if_true, Bool.false_eq_true, if_false, htake]
  rw [run_lexer_skip _ _ _ rfl, List.length_cons, ← htext]
  simp only [Option.toList_some, List.cons_append, List.nil_append, Nat.add_assoc,
    Nat.add_comm 1]

theorem literalLength_plain {quote b : UInt8} (hbackslash : b ≠ backslash) (hquote : b ≠ quote)
    (n : Nat) (rest : List UInt8) :
    literalLength quote n (b :: rest) = literalLength quote (n + 1) rest := by
  cases rest with
  | nil => rfl
  | cons c rest => rw [literalLength, if_neg hbackslash, if_neg hquote]

theorem literalLength_plains {quote : UInt8} {bs : List UInt8}
    (h : ∀ b ∈ bs, b ≠ backslash ∧ b ≠ quote) (n : Nat) (rest : List UInt8) :
    literalLength quote n (bs ++ rest) = literalLength quote (n + bs.length) rest := by
  induction bs generalizing n with
  | nil => rfl
  | cons b bs ih =>
    obtain ⟨⟨hbackslash, hquote⟩, hbs⟩ := List.forall_mem_cons.1 h
    rw [List.cons_append, literalLength_plain hbackslash hquote, ih hbs, List.length_cons,
      Nat.add_assoc, Nat.add_comm 1]

theorem literalLength_close {quote : UInt8} (h : quote ≠ backslash) (n : Nat) (rest : List UInt8) :
    literalLength quote n (quote :: rest) = n + 1 := by
  cases rest with
  | nil => rfl
  | cons c rest => rw [literalLength, if_neg h, if_pos rfl]

theorem literalLength_part {quote : Char} (h : quote.toNat < 128) (part : LiteralPart quote) (n : Nat)
    (rest : List UInt8) :
    literalLength (leadByte quote) n (encode part.chars ++ rest) =
      literalLength (leadByte quote) (n + (encode part.chars).length) rest := by
  have htail : ∀ c, ∀ b ∈ tailBytes c, b ≠ backslash ∧ b ≠ leadByte quote := fun c b hb =>
    ⟨ne_of_mem_tailBytes (a := '\\') (by decide) hb, ne_of_mem_tailBytes h hb⟩
  cases part with
  | plain c hquote hbackslash =>
    have hlead : leadByte c ≠ backslash ∧ leadByte c ≠ leadByte quote :=
      ⟨mt (leadByte_eq_iff (a := '\\') (by decide)).1 hbackslash, mt (leadByte_eq_iff h).1 hquote⟩
    have hall : ∀ b ∈ encode [c], b ≠ backslash ∧ b ≠ leadByte quote := by
      rw [encode_singleton]
      exact List.forall_mem_cons.2 ⟨hlead, htail c⟩
    exact literalLength_plains hall n rest
  | escaped c =>
    have hbytes : encode (LiteralPart.escaped c : LiteralPart quote).chars =
        backslash :: leadByte c :: tailBytes c := by
      rw [LiteralPart.chars, encode_cons_of_ascii (by decide), encode_singleton]
      rfl
    -- the first byte behind the backslash may be any, and the others are not ASCII
    rw [hbytes, List.cons_append, List.cons_append, literalLength, if_pos rfl,
      literalLength_plains (htail c), List.length_cons, List.length_cons, Nat.add_assoc n,
      Nat.add_comm 2]

theorem literalLength_body {quote : Char} (h : isQuoteChar quote = true)
    (body : List (LiteralPart quote)) (n : Nat) (rest : List UInt8) :
    literalLength (leadByte quote) n (encode (body.flatMap LiteralPart.chars) ++ rest) =
      literalLength (leadByte quote) (n + (encode (body.flatMap LiteralPart.chars)).length) rest := by
  induction body generalizing n with
  | nil => rfl
  | cons part body ih =>
    rw [List.flatMap_cons, encode_append, List.append_assoc,
      literalLength_part (ascii_of_isQuoteChar h).1, ih, List.length_append, Nat.add_assoc n]

theorem literalLength_parts {quote : Char} (h : isQuoteChar quote = true)
    (body : List (LiteralPart quote)) (n : Nat) (rest : List UInt8) :
    literalLength (leadByte quote) n
        (encode (body.flatMap LiteralPart.chars) ++ leadByte quote :: rest) =
      n + (encode (body.flatMap LiteralPart.chars)).length + 1 := by
  have hbackslash := mt (leadByte_eq_iff (a := '\\') (by decide)).1 (ascii_of_isQuoteChar h).2
  rw [literalLength_body h, literalLength_close hbackslash]

theorem literalLength_open {quote : Char} (h : isQuoteChar quote = true)
    (body : List (LiteralPart quote)) (n : Nat) {rest : List UInt8}
    (hrest : rest = [] ∨ rest = [backslash]) :
    literalLength (leadByte quote) n (encode (body.flatMap LiteralPart.chars) ++ rest) =
      n + (encode (body.flatMap LiteralPart.chars) ++ rest).length := by
  rw [literalLength_body h, List.length_append, ← Nat.add_assoc]
  rcases hrest with rfl | rfl <;> rfl

theorem encode_literal {quote : Char} (h : isQuoteChar quote = true)
    (body : List (LiteralPart quote)) :
    encode (quote :: body.flatMap LiteralPart.chars ++ [quote]) =
      leadByte quote :: (encode (body.flatMap LiteralPart.chars) ++ [leadByte quote]) := by
  have hascii := (ascii_of_isQuoteChar h).1
  rw [List.cons_append, encode_cons_of_ascii hascii, encode_append, encode_cons_of_ascii hascii]
  rfl

theorem literalTail?_closed {quote : Char} (h : isQuoteChar quote = true)
    (body : List (LiteralPart quote)) (rest : List UInt8) :
    literalTail? (leadByte quote)
        ((encode (body.flatMap LiteralPart.chars) ++ [leadByte quote]) ++ rest) =
      some (encode (body.flatMap LiteralPart.chars) ++ [leadByte quote]).length := by
  rw [literalTail?, if_pos ((isQuote_leadByte quote).trans h), List.append_assoc,
    List.singleton_append, literalLength_parts h body 0 rest, Nat.zero_add, List.length_append,
    List.length_singleton]

theorem commentTail?_of_isQuote {b : UInt8} (h : isQuote b = true) (rest : List UInt8) :
    commentTail? b rest = none := by
  refine if_neg fun hslash => ?_
  rw [hslash] at h
  cases h

theorem run_lexer_literalTail {b : UInt8} {passed rest : List UInt8} (hquote : isQuote b = true)
    (h : literalTail? b (passed ++ rest) = some passed.length) (pos : Nat) :
    lexer.run (0, pos) (b :: (passed ++ rest)) =
      ⟨.mark doubleQuote, pos, pos + (b :: passed).length⟩ ::
        lexer.run (0, pos + (b :: passed).length) rest := by
  rw [Scanner.run, lexer, commentTail?_of_isQuote hquote, h]
  simp only [Option.toList_some, List.singleton_append]
  rw [run_lexer_skip _ _ _ rfl, List.length_cons, Nat.add_assoc pos 1, Nat.add_comm 1]

theorem run_lexer_literal {quote : Char} (h : isQuoteChar quote = true)
    (body : List (LiteralPart quote)) (pos : Nat) (rest : List UInt8) :
    lexer.run (0, pos) (encode (Piece.literal quote h body).chars ++ rest) =
      ⟨.mark doubleQuote, pos, pos + (encode (Piece.literal quote h body).chars).length⟩ ::
        lexer.run (0, pos + (encode (Piece.literal quote h body).chars).length) rest := by
  have hquote : isQuote (leadByte quote) = true := (isQuote_leadByte quote).trans h
  rw [Piece.chars, encode_literal h, List.cons_append]
  exact run_lexer_literalTail hquote (literalTail?_closed h body rest) pos

theorem commentTail?_leadByte {c : Char} {rest : List UInt8}
    (hrest : c = '/' → ∀ b ∈ rest.head?, b ≠ slash ∧ b ≠ star) :
    commentTail? (leadByte c) (tailBytes c ++ rest) = none := by
  by_cases hc : c = '/'
  · subst hc
    rw [tailBytes_of_ascii (by decide)]
    cases rest with
    | nil => rfl
    | cons b rest => exact commentTail?_cons_eq_none_iff.2 fun _ => hrest rfl b rfl
  · exact if_neg (mt (leadByte_eq_iff (a := '/') (by decide)).1 hc)

theorem ne_of_head?_encode {rest : List Char}
    (h : rest.head? ≠ some '/' ∧ rest.head? ≠ some '*') :
    ∀ b ∈ (encode rest).head?, b ≠ slash ∧ b ≠ star := by
  intro b hb
  rw [head?_encode] at hb
  obtain ⟨d, hd, rfl⟩ := Option.map_eq_some_iff.1 hb
  rw [hd, ne_eq, ne_eq, Option.some_inj, Option.some_inj] at h
  exact ⟨mt (leadByte_eq_iff (a := '/') (by decide)).1 h.1,
    mt (leadByte_eq_iff (a := '*') (by decide)).1 h.2⟩

theorem run_lexer_mark {c : Char} (h : isMarkChar c = true) {rest : List UInt8}
    (hrest : c = '/' → ∀ b ∈ rest.head?, b ≠ slash ∧ b ≠ star) (pos : Nat) :
    lexer.run (0, pos) (encode [c] ++ rest) =
      ⟨.mark (leadByte c), pos, pos + 1⟩ :: lexer.run (0, pos + (encode [c]).length) rest := by
  simp only [isMarkChar, Bool.and_eq_true, Bool.not_eq_true'] at h
  obtain ⟨⟨hblank, hword⟩, hquote⟩ := h
  rw [← isBlank_leadByte] at hblank
  rw [← isWordByte_leadByte] at hword
  rw [← isQuote_leadByte] at hquote
  have hliteral : literalTail? (leadByte c) (tailBytes c ++ rest) = none := by
    rw [literalTail?, hquote]
    rfl
  rw [encode_singleton, List.cons_append, Scanner.run, lexer, commentTail?_leadByte hrest, hliteral]
  simp only [hblank, hword, Bool.false_eq_true, if_false, Option.toList_some, List.singleton_append]
  rw [run_lexer_skip _ _ _ (length_tailBytes c), List.length_cons, length_tailBytes, Nat.add_assoc pos,
    Nat.add_comm 1]

theorem run_lexer_piece {p : Piece} {rest : List Char} (h : p.EndsAt rest) (pos : Nat) :
    lexer.run (0, pos) (encode p.chars ++ encode rest) =
      (p.token? pos).toList ++ lexer.run (0, pos + (encode p.chars).length) (encode rest) := by
  cases p with
  | gap g => exact run_lexer_gap g pos _
  | word w =>
    refine run_lexer_word w (fun b hb => ?_) pos
    rw [head?_encode] at hb
    obtain ⟨c, hc, rfl⟩ := Option.map_eq_some_iff.1 hb
    rw [Piece.EndsAt, hc] at h
    exact (isWordByte_leadByte c).trans h
  | literal quote hquote body => exact run_lexer_literal hquote body pos _
  | mark c hmark => exact run_lexer_mark hmark (fun hc => ne_of_head?_encode (h hc)) pos

theorem run_lexer_pieces {ps : List Piece} {rest : List Char} (h : Legible rest ps) (pos : Nat) :
    lexer.run (0, pos) (encode (charsOf ps ++ rest)) =
      tokensAt pos ps ++ lexer.run (0, pos + (encode (charsOf ps)).length) (encode rest) := by
  induction ps generalizing pos with
  | nil => rfl
  | cons p ps ih =>
    rw [charsOf_cons, List.append_assoc, encode_append, run_lexer_piece h.1, ih h.2, tokensAt,
      encode_append, List.length_append, List.append_assoc, Nat.add_assoc]

theorem tokens_pieces {ps : List Piece} (h : Legible [] ps) :
    tokens (encode (charsOf ps)) = tokensAt 0 ps := by
  have hrun := run_lexer_pieces h 0
  rw [List.append_nil] at hrun
  rw [tokens_eq_run, hrun]
  exact List.append_nil _

/-! ### Every text is pieces -/

inductive Unclosed : List Char → Prop
  | lineComment {body : List Char} (h : '\n' ∉ body) : Unclosed ('/' :: '/' :: body)
  | blockComment {body : List Char} (h : ¬ ['*', '/'] <:+: body) : Unclosed ('/' :: '*' :: body)
  | literal {quote : Char} (h : isQuoteChar quote = true) (body : List (LiteralPart quote)) :
      Unclosed (quote :: body.flatMap LiteralPart.chars)
  | literalInEscape {quote : Char} (h : isQuoteChar quote = true) (body : List (LiteralPart quote)) :
      Unclosed (quote :: body.flatMap LiteralPart.chars ++ ['\\'])

theorem blockLength_open {body : List UInt8} (h : ¬ [star, slash] <:+: body) (n : Nat) :
    blockLength n body = n + body.length := by
  induction body generalizing n with
  | nil => rfl
  | cons b body ih =>
    have hopen : ¬ (b = star ∧ body.head? = some slash) := by
      rintro ⟨rfl, hhead⟩
      obtain ⟨more, rfl⟩ := List.head?_eq_some_iff.1 hhead
      exact h ⟨[], more, rfl⟩
    have hbody : ¬ [star, slash] <:+: body := fun hin =>
      h (hin.trans (List.suffix_cons b body).isInfix)
    rw [blockLength, if_neg hopen, ih hbody, List.length_cons, Nat.add_assoc, Nat.add_comm 1]

theorem Unclosed.encode_comment {cs : List Char} (h : Unclosed cs) (hslash : cs.head? = some '/') :
    ∃ b passed, encode cs = b :: passed ∧ commentTail? b passed = some passed.length := by
  cases h with
  | @lineComment body h =>
    refine ⟨slash, slash :: encode body, rfl, ?_⟩
    have hall : ∀ b ∈ slash :: encode body, (b != newline) = true := by
      intro b hb
      rw [bne_iff_ne]
      rintro rfl
      exact h ((leadByte_mem_encode_iff (a := '\n') (by decide)).1
        ((List.mem_cons.1 hb).resolve_left (by decide)))
    refine Eq.trans (b := some ((slash :: encode body).takeWhile (· != newline)).length) rfl ?_
    rw [List.takeWhile_eq_self_iff.2 hall]
  | @blockComment body h =>
    have hbody : ¬ [star, slash] <:+: encode body := fun hin => h (infix_of_infix_encode hin)
    refine ⟨slash, star :: encode body, rfl, ?_⟩
    rw [List.length_cons, Nat.add_comm, ← blockLength_open hbody 1]
    rfl
  | literal h body =>
    cases hslash
    exact absurd h (by decide)
  | literalInEscape h body =>
    cases hslash
    exact absurd h (by decide)

theorem Unclosed.encode_literal {cs : List Char} (h : Unclosed cs)
    (hquote : cs.head?.any isQuoteChar = true) :
    ∃ b passed, encode cs = b :: passed ∧ isQuote b = true ∧
      literalTail? b passed = some passed.length := by
  cases h with
  | lineComment h => cases hquote
  | blockComment h => cases hquote
  | @literal quote h body =>
    have hb : isQuote (leadByte quote) = true := (isQuote_leadByte quote).trans h
    have hparts := literalLength_open h body 0 (Or.inl rfl)
    refine ⟨leadByte quote, _, encode_cons_of_ascii (ascii_of_isQuoteChar h).1 _, hb, ?_⟩
    rw [List.append_nil, Nat.zero_add] at hparts
    rw [literalTail?, if_pos hb, hparts]
  | @literalInEscape quote h body =>
    have hb : isQuote (leadByte quote) = true := (isQuote_leadByte quote).trans h
    have hparts := literalLength_open h body 0 (Or.inr rfl)
    refine ⟨leadByte quote, encode (body.flatMap LiteralPart.chars) ++ [backslash], ?_, hb, ?_⟩
    · rw [List.cons_append, encode_cons_of_ascii (ascii_of_isQuoteChar h).1, encode_append]
      rfl
    · rw [literalTail?, if_pos hb, hparts, Nat.zero_add]

theorem exists_blockComment {cs : List Char} (h : ['*', '/'] <:+: cs) :
    ∃ body rest, cs = body ++ '*' :: '/' :: rest ∧ ¬ ['*', '/'] <:+: body := by
  induction cs with
  | nil => exact absurd (List.infix_nil.1 h) (List.cons_ne_nil _ _)
  | cons c cs ih =>
    by_cases hhead : ['*', '/'] <+: c :: cs
    · obtain ⟨rest, hrest⟩ := hhead
      exact ⟨[], rest, hrest.symm, fun hin => absurd (List.infix_nil.1 hin) (List.cons_ne_nil _ _)⟩
    · obtain ⟨body, rest, rfl, hbody⟩ := ih ((List.infix_cons_iff.1 h).resolve_left hhead)
      refine ⟨c :: body, rest, rfl, fun hin => ?_⟩
      rcases List.infix_cons_iff.1 hin with hfirst | hin
      · exact hhead (hfirst.trans (List.prefix_append (c :: body) _))
      · exact hbody hin

theorem exists_literal (quote : Char) (cs : List Char) :
    ∃ (body : List (LiteralPart quote)) (rest : List Char),
      cs = body.flatMap LiteralPart.chars ++ rest ∧
        (rest = [] ∨ rest = ['\\'] ∨ ∃ more, rest = quote :: more) := by
  -- by induction on the text, in steps of one part
  induction hn : cs.length using Nat.strongRecOn generalizing cs with
  | _ n ih =>
  have hstep : ∀ (part : LiteralPart quote) (more : List Char), cs = part.chars ++ more →
      ∃ (body : List (LiteralPart quote)) (rest : List Char),
        cs = body.flatMap LiteralPart.chars ++ rest ∧
          (rest = [] ∨ rest = ['\\'] ∨ ∃ more, rest = quote :: more) := by
    rintro part more rfl
    have hshorter : more.length < n := by
      rw [← hn, List.length_append]
      cases part <;> simp only [LiteralPart.chars, List.length_cons, List.length_nil] <;> omega
    obtain ⟨body, rest, rfl, hrest⟩ := ih _ hshorter more rfl
    exact ⟨part :: body, rest, by rw [List.flatMap_cons, List.append_assoc], hrest⟩
  cases cs with
  | nil => exact ⟨[], [], rfl, Or.inl rfl⟩
  | cons c cs =>
    by_cases hquote : c = quote
    · exact ⟨[], c :: cs, rfl, Or.inr (Or.inr ⟨cs, by rw [hquote]⟩)⟩
    · by_cases hbackslash : c = '\\'
      · cases cs with
        | nil => exact ⟨[], [c], rfl, Or.inr (Or.inl (by rw [hbackslash]))⟩
        | cons d cs => exact hstep (.escaped d) cs (by rw [hbackslash]; rfl)
      · exact hstep (.plain c hquote hbackslash) cs rfl

theorem exists_comment {c : Char} {cs : List Char} (h : c = '/' ∨ c = '*') :
    (∃ (g : Gap) (rest : List Char), '/' :: c :: cs = g.chars ++ rest) ∨
      Unclosed ('/' :: c :: cs) := by
  rcases h with rfl | rfl
  · by_cases hline : '\n' ∈ cs
    · obtain ⟨body, rest, rfl, hbody⟩ := List.eq_append_cons_of_mem hline
      refine Or.inl ⟨.lineComment body hbody, rest, ?_⟩
      rw [Gap.chars, List.append_assoc, List.singleton_append, List.cons_append, List.cons_append]
    · exact Or.inr (.lineComment hline)
  · by_cases hblock : ['*', '/'] <:+: cs
    · obtain ⟨body, rest, rfl, hbody⟩ := exists_blockComment hblock
      refine Or.inl ⟨.blockComment body hbody, rest, ?_⟩
      rw [Gap.chars, List.append_assoc, List.cons_append, List.cons_append]
      rfl
    · exact Or.inr (.blockComment hblock)

theorem exists_piece {cs : List Char} (hne : cs ≠ []) :
    (∃ (p : Piece) (rest : List Char), cs = p.chars ++ rest ∧ p.EndsAt rest) ∨ Unclosed cs := by
  obtain ⟨c, cs, rfl⟩ := List.exists_cons_of_ne_nil hne
  by_cases hquote : isQuoteChar c = true
  · obtain ⟨body, rest, rfl, rfl | rfl | ⟨more, rfl⟩⟩ := exists_literal c cs
    · rw [List.append_nil]
      exact Or.inr (.literal hquote body)
    · exact Or.inr (.literalInEscape hquote body)
    · refine Or.inl ⟨.literal c hquote body, more, ?_, trivial⟩
      rw [Piece.chars, List.append_assoc, List.singleton_append, List.cons_append]
  by_cases hblank : isBlankChar c = true
  · exact Or.inl ⟨.gap (.blank c hblank), cs, rfl, trivial⟩
  by_cases hword : isWordChar c = true
  · have hall : ∀ d ∈ c :: cs.takeWhile isWordChar, isWordChar d = true :=
      List.forall_mem_cons.2 ⟨hword, fun _ => List.mem_takeWhile_imp⟩
    refine Or.inl ⟨.word ⟨_, List.cons_ne_nil _ _, List.all_eq_true.2 hall⟩,
      cs.dropWhile isWordChar, ?_, ?_⟩
    · exact congrArg (c :: ·) List.takeWhile_append_dropWhile.symm
    · have hstop := List.head?_dropWhile_not isWordChar cs
      rw [Piece.EndsAt]
      cases hd : (cs.dropWhile isWordChar).head? with
      | none => rfl
      | some d =>
        rw [hd] at hstop
        exact hstop
  have hmark : isMarkChar c = true := by
    simp only [isMarkChar, hquote, hblank, hword, Bool.not_false, Bool.and_self]
  -- A slash is a mark like others, unless a comment begins with it.
  by_cases hends : c = '/' → cs.head? ≠ some '/' ∧ cs.head? ≠ some '*'
  · exact Or.inl ⟨.mark c hmark, cs, rfl, hends⟩
  · rw [Classical.not_imp, ← not_or, not_not] at hends
    obtain ⟨rfl, hcomment⟩ := hends
    have hcs : ∃ d more, cs = d :: more ∧ (d = '/' ∨ d = '*') := by
      rcases hcomment with h | h
      · obtain ⟨more, rfl⟩ := List.head?_eq_some_iff.1 h
        exact ⟨_, more, rfl, Or.inl rfl⟩
      · obtain ⟨more, rfl⟩ := List.head?_eq_some_iff.1 h
        exact ⟨_, more, rfl, Or.inr rfl⟩
    obtain ⟨d, more, rfl, hd⟩ := hcs
    refine (exists_comment hd).imp_left ?_
    rintro ⟨g, rest, heq⟩
    exact ⟨.gap g, rest, heq, trivial⟩

theorem exists_pieces (cs : List Char) :
    ∃ ps rest, cs = charsOf ps ++ rest ∧ Legible rest ps ∧ (rest = [] ∨ Unclosed rest) := by
  induction hn : cs.length using Nat.strongRecOn generalizing cs with
  | _ n ih =>
  by_cases hne : cs = []
  · exact ⟨[], [], hne, trivial, Or.inl rfl⟩
  rcases exists_piece hne with ⟨p, more, rfl, hends⟩ | hunclosed
  · have hshorter : more.length < n := by
      rw [← hn, List.length_append]
      exact Nat.lt_add_of_pos_left (List.length_pos_of_ne_nil p.chars_ne_nil)
    obtain ⟨ps, rest, rfl, hlegible, hrest⟩ := ih _ hshorter more rfl
    exact ⟨p :: ps, rest, by rw [charsOf_cons, List.append_assoc], ⟨hends, hlegible⟩, hrest⟩
  · exact ⟨[], cs, rfl, trivial, Or.inr hunclosed⟩

/-- Every text is read as pieces up to its end, or up to a comment or literal that it does not
close. -/
theorem tokens_of_text (text : String) :
    ∃ ps rest, text.toList = charsOf ps ++ rest ∧ Legible rest ps ∧ (rest = [] ∨ Unclosed rest) ∧
      tokens (bytes text) =
        tokensAt 0 ps ++ lexer.run (0, (encode (charsOf ps)).length) (encode rest) := by
  obtain ⟨ps, rest, htext, hlegible, hrest⟩ := exists_pieces text.toList
  refine ⟨ps, rest, htext, hlegible, hrest, ?_⟩
  have hbytes : bytes text = encode (charsOf ps ++ rest) := by rw [bytes_eq_encode, htext]
  have hrun := run_lexer_pieces hlegible 0
  rw [Nat.zero_add] at hrun
  rw [tokens_eq_run, hbytes, hrun]

end ContractBuild.Source
