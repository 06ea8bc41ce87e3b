import ContractBuild.Proofs.Frames
import ContractBuild.Proofs.NormalForm

/-! The units of a text without its cosmetics. What a text declares depends on its tokens but not on
their places, and its tokens are its lexemes. So minifying keeps the units as long as it keeps the
lexemes, and the fingerprint finds its unit again. -/

namespace ContractBuild.Source

open Text

def tokenOf (x : List Char) : Lexeme :=
  if beginsWord x then .word (String.ofList x)
  else if x.head?.any isQuoteChar then .mark doubleQuote
  else .mark ((encode x).headD 0)

theorem IsLexeme.exists_piece {x rest : List Char} (hx : IsLexeme .single x)
    (hends : EndsBefore .single x rest) (hcomment : ¬ OpensComment x rest) :
    ∃ p : Piece, p.chars = x ∧ p.EndsAt rest ∧ p.lexeme? = some (tokenOf x) := by
  cases hx with
  | word w =>
    have hbegins : beginsWord w.chars = true := by
      obtain ⟨c, y, hw⟩ := List.exists_cons_of_ne_nil w.nonempty
      rw [hw]
      exact List.all_eq_true.1 w.isWord c (hw ▸ List.mem_cons_self)
    refine ⟨.word w, rfl, ?_, by rw [tokenOf, if_pos hbegins]; rfl⟩
    rw [Piece.EndsAt]
    cases hd : rest.head? with
    | none => rfl
    | some d => exact (hends d hd).1 hbegins
  | @literal quote h body =>
    have hquote :
        (quote :: body.flatMap LiteralPart.chars ++ [quote]).head?.any isQuoteChar = true := h
    refine ⟨.literal quote h body, rfl, trivial, ?_⟩
    rw [tokenOf, beginsWord_of_quote hquote, if_neg Bool.false_ne_true, if_pos hquote]
    rfl
  | @operator c y hc hy =>
    rw [munch_single] at hy
    obtain rfl := (Prod.mk.inj hy).2
    obtain ⟨-, hword, hquote⟩ := isMarkChar_iff.1 hc
    refine ⟨.mark c hc, rfl, fun hslash => ?_, ?_⟩
    · exact ⟨fun hs => hcomment ⟨List.singleton_inj.2 hslash, Or.inl hs⟩,
        fun hs => hcomment ⟨List.singleton_inj.2 hslash, Or.inr hs⟩⟩
    · have hbegins : beginsWord [c] = false := hword
      have hquoted : [c].head?.any isQuoteChar = false := hquote
      rw [tokenOf, hbegins, if_neg Bool.false_ne_true, hquoted, if_neg Bool.false_ne_true,
        encode_singleton]
      rfl

theorem Reading.map_lexeme {cs : List Char} {ls : List (List Char)} (h : Reading .single cs ls)
    (pos : Nat) : (lexer.run (0, pos) (encode cs)).map (·.lexeme) = ls.map tokenOf := by
  induction h generalizing pos with
  | nil => rfl
  | gap g h ih =>
    rw [encode_append, run_lexer_gap, ih]
  | lexeme hx hends hcomment h ih =>
    obtain ⟨p, rfl, hp, hlexeme⟩ := hx.exists_piece hends hcomment
    rw [encode_append, run_lexer_piece hp, List.map_append, ih, Piece.token?, hlexeme]
    rfl
  | comment h hslash =>
    obtain ⟨b, passed, hbytes, hcomment⟩ := h.encode_comment hslash
    rw [← List.append_nil passed] at hbytes
    rw [hbytes, run_lexer_comment (by rwa [List.append_nil])]
    rfl
  | @literal cs h hquote =>
    obtain ⟨b, passed, hbytes, hb, hliteral⟩ := h.encode_literal hquote
    rw [← List.append_nil passed] at hbytes
    rw [hbytes, run_lexer_literalTail hb (by rwa [List.append_nil]), List.map_cons,
      List.map_singleton, tokenOf, beginsWord_of_quote hquote, if_neg Bool.false_ne_true,
      if_pos hquote]
    rfl

theorem map_lexeme_tokens (text : String) :
    (tokens (bytes text)).map (·.lexeme) = (lexemes .single text.toList).map tokenOf := by
  rw [tokens_eq_run, bytes_eq_encode, (reading_lexemes .single text.toList).map_lexeme]

def Declaration.heading (d : Declaration) : String × UnitKind × List String :=
  (d.name, d.kind, d.bases)

theorem headings_of_tokens {text text' : List UInt8}
    (h : (tokens text).map (·.lexeme) = (tokens text').map (·.lexeme)) :
    (declarations text).map Declaration.heading = (declarations text').map Declaration.heading := by
  -- with all places moved to one, only the tokens are left
  have hheadings (text : List UInt8) : (declarations text).map Declaration.heading =
      ((outliner 0).run Scope.start (((tokens text).map (·.lexeme)).map (⟨·, 0, 0⟩))).map
        Declaration.heading := by
    have hmoved : (outliner 0).run Scope.start ((tokens text).map (·.moved fun _ => 0)) =
        (declarations text).map (·.moved fun _ => 0) := by
      rw [declarations_eq_run]
      exact run_outliner_moved (fun _ => 0) text.length Scope.start (tokens text)
    rw [List.map_map]
    refine Eq.trans ?_ (congrArg (List.map Declaration.heading) hmoved.symm)
    rw [List.map_map]
    rfl
  rw [hheadings, h, ← hheadings]

/-- Minifying keeps the units as long as it makes no comment of what is none. -/
theorem declarations_of_minify {text : String} (h : SlashesApart (lexemes .single text.toList)) :
    (declarations (bytes (minify text))).map Declaration.heading =
        (declarations (bytes text)).map Declaration.heading ∧
      ∀ unit ∈ (declarations (bytes text)).map (·.name),
        ∃ pieces, SiblingsLeave (minify text) unit pieces ∧
          fingerprintParts text unit true = bytes unit :: pieces.map bytes := by
  have hheadings : (declarations (bytes (minify text))).map Declaration.heading =
      (declarations (bytes text)).map Declaration.heading := by
    refine headings_of_tokens ?_
    rw [map_lexeme_tokens, map_lexeme_tokens, lexemes_minify h]
  have hnames : (declarations (bytes (minify text))).map (·.name) =
      (declarations (bytes text)).map (·.name) := by
    have hfst := congrArg (List.map Prod.fst) hheadings
    rwa [List.map_map, List.map_map] at hfst
  refine ⟨hheadings, fun unit hunit => ?_⟩
  rw [← hnames] at hunit
  obtain ⟨pieces, hpieces⟩ := exists_siblingsLeave (minify text) unit
  exact ⟨pieces, hpieces, congrArg (bytes unit :: ·) (hpieces.remainder_eq hunit)⟩

namespace SampleMinified

def text : String :=
  "abstract contract A is B, C \x7b // \x7d\n string s = \"\x7b\"; \x7d\n" ++
    "/* \x7b */ library D \x7b uint a = 4 / 2; "

def divided : String := "contract A \x7b uint a; \x7d / / contract B \x7b uint b; \x7d"

end SampleMinified

theorem declarations_of_minify_sample :
    let text := SampleMinified.text
    SlashesApart (lexemes .single text.toList) ∧
      (declarations (bytes (minify text))).map Declaration.heading =
          [("A", .abstractContract, ["B", "C"]), ("D", .library, [])] ∧
        ∃ pieces, SiblingsLeave (minify text) "D" pieces ∧
          fingerprintParts text "D" true = bytes "D" :: pieces.map bytes := by
  intro text
  have h : SlashesApart (lexemes .single text.toList) := by decide +kernel
  have hheadings : (declarations (bytes text)).map Declaration.heading =
      [("A", .abstractContract, ["B", "C"]), ("D", .library, [])] := by decide +kernel
  obtain ⟨hminified, hparts⟩ := declarations_of_minify h
  exact ⟨h, hminified.trans hheadings, hparts "D" (by decide +kernel)⟩

/-- Two slashes meet. -/
theorem minify_hides_unit :
    ¬ ∀ text : String,
      (declarations (bytes (minify text))).map Declaration.heading =
          (declarations (bytes text)).map Declaration.heading ∧
        ∀ unit ∈ (declarations (bytes text)).map (·.name),
          ∃ pieces, SiblingsLeave (minify text) unit pieces ∧
            fingerprintParts text unit true = bytes unit :: pieces.map bytes := by
  intro h
  exact absurd (h SampleMinified.divided).1 (by decide +kernel)

end ContractBuild.Source
