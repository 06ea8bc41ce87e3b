import ContractBuild.Proofs.Lexemes
import ContractBuild.Source.Minified

/-! What is left of a text without its cosmetics: its lexemes one behind another, with a space where
two words meet. The operators that are told do not matter, as their characters stay together. -/

namespace ContractBuild.Source

open Text

def separator (afterWord : Bool) (ls : List (List Char)) : List Char :=
  if afterWord && ls.head?.any beginsWord then [' '] else []

def spaced : List (List Char) → List Char
  | [] => []
  | x :: ls => x ++ (separator (beginsWord x) ls ++ spaced ls)

example : spaced (["uint", "a", "=", "b", ";"].map String.toList) = "uint a=b;".toList := rfl

/-! ### Steps of the writer -/

theorem minifyOnto_drop (out : List UInt8) (gap : Bool) (n : Nat) (rest : List UInt8) :
    minifyOnto out gap n 0 rest = minifyOnto out gap 0 0 (rest.drop n) := by
  induction n generalizing rest with
  | zero => rfl
  | succ n ih =>
    cases rest with
    | nil => rfl
    | cons b rest => exact ih rest

theorem minifyOnto_copy (out : List UInt8) (gap : Bool) (n : Nat) (rest : List UInt8) :
    minifyOnto out gap 0 n rest =
      minifyOnto ((rest.take n).reverse ++ out) gap 0 0 (rest.drop n) := by
  induction n generalizing out rest with
  | zero => rfl
  | succ n ih =>
    cases rest with
    | nil => rfl
    | cons b rest =>
      rw [List.take_succ_cons, List.reverse_cons, List.append_assoc]
      exact ih (b :: out) rest

theorem minifyOnto_comment {b : UInt8} {passed rest : List UInt8}
    (h : commentTail? b (passed ++ rest) = some passed.length) (out : List UInt8) (gap : Bool) :
    minifyOnto out gap 0 0 (b :: (passed ++ rest)) = minifyOnto out true 0 0 rest := by
  rw [minifyOnto, h]
  refine (minifyOnto_drop out true passed.length _).trans ?_
  rw [List.drop_left]

theorem minifyOnto_blank {b : UInt8} (h : isBlank b = true) (out : List UInt8) (gap : Bool)
    (rest : List UInt8) : minifyOnto out gap 0 0 (b :: rest) = minifyOnto out true 0 0 rest := by
  have hcomment : commentTail? b rest = none := if_neg (isBlank_excludes h).1
  rw [minifyOnto, hcomment]
  exact if_pos h

theorem minifyOnto_gap (g : Gap) (out : List UInt8) (gap : Bool) (rest : List UInt8) :
    minifyOnto out gap 0 0 (encode g.chars ++ rest) = minifyOnto out true 0 0 rest := by
  rcases g.encode_cases with ⟨b, hblank, hbytes⟩ | ⟨b, passed, stop, hbytes, hstop, hcomment⟩
  · rw [hbytes]
    exact minifyOnto_blank hblank out gap rest
  · rw [hbytes, List.cons_append, List.append_assoc, minifyOnto_comment (hcomment rest)]
    rcases hstop with rfl | rfl
    · rfl
    · exact minifyOnto_blank (by decide) out true rest

def opened (out : List UInt8) (gap word : Bool) : List UInt8 :=
  if gap && endsInWord out && word then blank :: out else out

theorem minifyOnto_byte {b : UInt8} {rest : List UInt8} (hcomment : commentTail? b rest = none)
    (hblank : isBlank b = false) (out : List UInt8) (gap : Bool) :
    minifyOnto out gap 0 0 (b :: rest) =
      minifyOnto (b :: opened out gap (isWordByte b)) false 0 ((literalTail? b rest).getD 0)
        rest := by
  rw [minifyOnto, hcomment]
  exact if_neg (by rw [hblank]; exact Bool.false_ne_true)

theorem isQuote_excludes {b : UInt8} :
    isQuote b = true → isBlank b = false ∧ isWordByte b = false :=
  forall_bytes (p := fun b => isQuote b = true → isBlank b = false ∧ isWordByte b = false)
    (by decide +kernel) b

theorem minifyOnto_literal {b : UInt8} {passed rest : List UInt8} (hquote : isQuote b = true)
    (h : literalTail? b (passed ++ rest) = some passed.length) (out : List UInt8) (gap : Bool) :
    minifyOnto out gap 0 0 (b :: (passed ++ rest)) =
      minifyOnto ((b :: passed).reverse ++ out) false 0 0 rest := by
  obtain ⟨hblank, hword⟩ := isQuote_excludes hquote
  have hopened : opened out gap false = out := by
    rw [opened, Bool.and_false]
    rfl
  rw [minifyOnto_byte (commentTail?_of_isQuote hquote _) hblank, hword, hopened, h,
    Option.getD_some, minifyOnto_copy, List.take_left, List.drop_left, List.reverse_cons,
    List.append_assoc, List.singleton_append]

def IsPlain (b : UInt8) : Prop := b ≠ slash ∧ isQuote b = false ∧ isBlank b = false

theorem minifyOnto_plain {bs : List UInt8} (h : ∀ b ∈ bs, IsPlain b) (out rest : List UInt8) :
    minifyOnto out false 0 0 (bs ++ rest) = minifyOnto (bs.reverse ++ out) false 0 0 rest := by
  induction bs generalizing out with
  | nil => rfl
  | cons b bs ih =>
    obtain ⟨⟨hslash, hquote, hblank⟩, hbs⟩ := List.forall_mem_cons.1 h
    have hcomment : commentTail? b (bs ++ rest) = none := if_neg hslash
    have hliteral : literalTail? b (bs ++ rest) = none := by rw [literalTail?, hquote]; rfl
    have hopened : opened out false (isWordByte b) = out := rfl
    rw [List.cons_append, minifyOnto_byte hcomment hblank, hliteral, hopened, Option.getD_none,
      ih hbs, List.reverse_cons, List.append_assoc, List.singleton_append]

/-! ### Lexemes are written as they stand -/

theorem high_excludes {b : UInt8} : 128 ≤ b.toNat → IsPlain b ∧ isWordByte b = false :=
  forall_bytes (p := fun b => 128 ≤ b.toNat →
      (b ≠ slash ∧ isQuote b = false ∧ isBlank b = false) ∧ isWordByte b = false)
    (by decide +kernel) b

theorem forall_mem_encode {p : UInt8 → Prop} (hhigh : ∀ b : UInt8, 128 ≤ b.toNat → p b)
    {cs : List Char} (h : ∀ c ∈ cs, p (leadByte c)) : ∀ b ∈ encode cs, p b := by
  induction cs with
  | nil => exact List.forall_mem_nil _
  | cons c cs ih =>
    obtain ⟨hc, hcs⟩ := List.forall_mem_cons.1 h
    rw [encode_cons]
    refine List.forall_mem_cons.2 ⟨hc, List.forall_mem_append.2 ⟨fun b hb => ?_, ih hcs⟩⟩
    exact hhigh b (le_of_mem_tailBytes hb)

theorem isPlain_leadByte {c : Char} (hslash : c ≠ '/') (hquote : isQuoteChar c = false)
    (hblank : isBlankChar c = false) : IsPlain (leadByte c) :=
  ⟨mt (leadByte_eq_iff (a := '/') (by decide)).1 hslash, (isQuote_leadByte c).trans hquote,
    (isBlank_leadByte c).trans hblank⟩

variable {ops : Operators}

theorem IsLexeme.isPlain_tail {c : Char} {y : List Char} (hx : IsLexeme ops (c :: y))
    (hquote : isQuoteChar c = false) : isBlankChar c = false ∧ ∀ b ∈ encode y, IsPlain b := by
  have hplain (hall : ∀ d ∈ y, d ≠ '/' ∧ isQuoteChar d = false ∧ isBlankChar d = false) :
      ∀ b ∈ encode y, IsPlain b :=
    forall_mem_encode (fun _ hb => (high_excludes hb).1) fun d hd =>
      isPlain_leadByte (hall d hd).1 (hall d hd).2.1 (hall d hd).2.2
  generalize hcy : c :: y = x at hx
  cases hx with
  | word w =>
    have hall := List.all_eq_true.1 w.isWord
    rw [← hcy] at hall
    obtain ⟨hc, hy⟩ := List.forall_mem_cons.1 hall
    refine ⟨(isWordChar_excludes hc).1, hplain fun d hd => ?_⟩
    obtain ⟨hblank, hquote, hslash⟩ := isWordChar_excludes (hy d hd)
    exact ⟨hslash, hquote, hblank⟩
  | literal h body =>
    rw [List.cons_append] at hcy
    obtain ⟨rfl, -⟩ := List.cons.inj hcy
    exact absurd (hquote.symm.trans h) Bool.false_ne_true
  | operator hc hy =>
    obtain ⟨rfl, rfl⟩ := List.cons.inj hcy
    refine ⟨(isMarkChar_iff.1 hc).1, hplain fun d hd => ?_⟩
    obtain ⟨hmark, hslash⟩ := Operators.mem_of_munch (List.cons_ne_nil _ _) hy d hd
    exact ⟨hslash, (isMarkChar_iff.1 hmark).2.2, (isMarkChar_iff.1 hmark).1⟩

theorem commentTail?_of_not_opensComment {c : Char} {rest : List Char}
    (h : ¬ OpensComment [c] rest) : commentTail? (leadByte c) (tailBytes c ++ encode rest) = none :=
  commentTail?_leadByte fun hc =>
    have hslash : [c] = ['/'] := List.singleton_inj.2 hc
    ne_of_head?_encode ⟨fun hs => h ⟨hslash, Or.inl hs⟩, fun hs => h ⟨hslash, Or.inr hs⟩⟩

theorem IsLexeme.literal_of_quote {c : Char} {y : List Char} (hx : IsLexeme ops (c :: y))
    (hquote : isQuoteChar c = true) :
    ∃ body : List (LiteralPart c), c :: y = c :: body.flatMap LiteralPart.chars ++ [c] := by
  generalize hcy : c :: y = x at hx
  cases hx with
  | word w =>
    have hc := List.all_eq_true.1 w.isWord c (hcy ▸ List.mem_cons_self)
    exact absurd ((isWordChar_excludes hc).2.1.symm.trans hquote) Bool.false_ne_true
  | literal h body =>
    obtain ⟨rfl, -⟩ := List.cons.inj hcy
    exact ⟨body, rfl⟩
  | operator hc hy =>
    obtain ⟨rfl, -⟩ := List.cons.inj hcy
    exact absurd ((isMarkChar_iff.1 hc).2.2.symm.trans hquote) Bool.false_ne_true

theorem minifyOnto_lexeme {x rest : List Char} (hx : IsLexeme ops x)
    (hcomment : ¬ OpensComment x rest) (out : List UInt8) (gap : Bool) :
    minifyOnto out gap 0 0 (encode (x ++ rest)) =
      minifyOnto ((encode x).reverse ++ opened out gap (beginsWord x)) false 0 0 (encode rest) := by
  obtain ⟨c, y, rfl⟩ := List.exists_cons_of_ne_nil hx.ne_nil
  have hword : isWordByte (leadByte c) = beginsWord (c :: y) := isWordByte_leadByte c
  -- A literal is copied as a whole, anything else byte by byte.
  by_cases hquote : isQuoteChar c = true
  · have hb : isQuote (leadByte c) = true := (isQuote_leadByte c).trans hquote
    obtain ⟨body, hbody⟩ := hx.literal_of_quote hquote
    have hopened : opened out gap (beginsWord (c :: y)) = out := by
      rw [opened, ← hword, (isQuote_excludes hb).2, Bool.and_false]
      rfl
    rw [hopened, encode_append, hbody, encode_literal hquote, List.cons_append]
    exact minifyOnto_literal hb (literalTail?_closed hquote body _) out gap
  · rw [Bool.not_eq_true] at hquote
    obtain ⟨hblank, hplain⟩ := hx.isPlain_tail hquote
    have hnone := commentTail?_of_not_opensComment (hx.not_opensComment hcomment)
    rw [encode_append, ← List.append_assoc] at hnone
    have htail : ∀ b ∈ tailBytes c ++ encode y, IsPlain b :=
      List.forall_mem_append.2 ⟨fun b hb => (high_excludes (le_of_mem_tailBytes hb)).1, hplain⟩
    have hliteral :
        literalTail? (leadByte c) ((tailBytes c ++ encode y) ++ encode rest) = none := by
      rw [literalTail?, isQuote_leadByte, hquote]
      rfl
    rw [encode_append, encode_cons, List.cons_append,
      minifyOnto_byte hnone ((isBlank_leadByte c).trans hblank), hliteral, hword, Option.getD_none,
      minifyOnto_plain htail, List.reverse_cons, List.append_assoc, List.singleton_append]

theorem IsLexeme.endsInWord_eq {x : List Char} (hx : IsLexeme ops x) (out : List UInt8) :
    endsInWord ((encode x).reverse ++ out) = beginsWord x := by
  have hlast {v : Bool} (h : ∀ b ∈ encode x, isWordByte b = v) :
      endsInWord ((encode x).reverse ++ out) = v := by
    obtain ⟨c, y, rfl⟩ := List.exists_cons_of_ne_nil hx.ne_nil
    obtain ⟨b, more, hbytes⟩ := List.exists_cons_of_ne_nil (l := (encode (c :: y)).reverse)
      (by rw [encode_cons]; exact List.reverse_ne_nil_iff.2 (List.cons_ne_nil _ _))
    rw [hbytes]
    exact h b (List.mem_reverse.1 (hbytes ▸ List.mem_cons_self))
  cases hx with
  | word w =>
    have hall := List.all_eq_true.1 w.isWord
    obtain ⟨c, y, hw⟩ := List.exists_cons_of_ne_nil w.nonempty
    rw [hlast (isWordByte_of_mem_encode hall), hw]
    exact (hall c (hw ▸ List.mem_cons_self)).symm
  | @literal quote h body =>
    have hword := (isQuote_excludes ((isQuote_leadByte quote).trans h)).2
    rw [encode_literal h, ← List.cons_append, List.reverse_append]
    exact hword.trans (hword.symm.trans (isWordByte_leadByte quote))
  | @operator c y hc hy =>
    have hmark : ∀ d ∈ c :: y, isMarkChar d = true := List.forall_mem_cons.2
      ⟨hc, fun d hd => (Operators.mem_of_munch (List.cons_ne_nil _ _) hy d hd).1⟩
    have hbytes : ∀ b ∈ encode (c :: y), isWordByte b = false :=
      forall_mem_encode (fun _ hb => (high_excludes hb).2) fun d hd =>
        (isWordByte_leadByte d).trans (isMarkChar_iff.1 (hmark d hd)).2.1
    rw [hlast hbytes]
    exact (isMarkChar_iff.1 hc).2.1.symm

/-! ### Texts -/

theorem separator_nil (word : Bool) : separator word [] = [] := by
  rw [separator, List.head?_nil, Option.any_none, Bool.and_false]
  rfl

theorem reverse_opened {out : List UInt8} {gap : Bool} {x : List Char}
    (h : gap = false → endsInWord out = true → beginsWord x = false) (ls : List (List Char)) :
    (opened out gap (beginsWord x)).reverse =
      out.reverse ++ encode (separator (endsInWord out) (x :: ls)) := by
  have hand : (gap && endsInWord out && beginsWord x) = (endsInWord out && beginsWord x) := by
    cases gap with
    | true => rw [Bool.true_and]
    | false =>
      cases hout : endsInWord out with
      | false => rfl
      | true => rw [h rfl hout]; rfl
  rw [opened, hand, separator, List.head?_cons, Option.any_some]
  split
  · exact List.reverse_cons
  · exact (List.append_nil _).symm

theorem beginsWord_of_quote {x : List Char} (h : x.head?.any isQuoteChar = true) :
    beginsWord x = false := by
  obtain ⟨c, hc, hquote⟩ := (Option.any_eq_true _ _).1 h
  rw [beginsWord, hc, Option.any_some, ← isWordByte_leadByte]
  exact (isQuote_excludes ((isQuote_leadByte c).trans hquote)).2

/-- What is written of a text from a place between two lexemes on. -/
theorem Reading.written {cs : List Char} {ls : List (List Char)} (h : Reading ops cs ls)
    {out : List UInt8} {gap : Bool}
    (hgap : gap = false → endsInWord out = true → cs.head?.any isWordChar = false) :
    minifyOnto out gap 0 0 (encode cs) =
      out.reverse ++ encode (separator (endsInWord out) ls ++ spaced ls) := by
  -- the space in front of a lexeme is owed by what has been written before it, so `out` has to vary
  induction h generalizing out gap with
  | nil =>
    rw [separator_nil]
    exact (List.append_nil _).symm
  | gap g h ih =>
    rw [encode_append, minifyOnto_gap]
    exact ih fun htrue => absurd htrue.symm Bool.false_ne_true
  | @lexeme x rest ls hx hends hcomment h ih =>
    have hword : gap = false → endsInWord out = true → beginsWord x = false := by
      rw [List.head?_append_of_ne_nil _ hx.ne_nil] at hgap
      exact hgap
    have hnext : endsInWord ((encode x).reverse ++ opened out gap (beginsWord x)) = true →
        rest.head?.any isWordChar = false := by
      rw [hx.endsInWord_eq]
      intro hbegins
      cases hd : rest.head? with
      | none => rfl
      | some d => exact (hends d hd).1 hbegins
    -- right behind a word no word follows, as it would have gone on
    rw [minifyOnto_lexeme hx hcomment, ih fun _ => hnext, hx.endsInWord_eq, List.reverse_append,
      List.reverse_reverse, reverse_opened hword ls, spaced]
    simp only [encode_append, List.append_assoc]
  | comment h hslash =>
    obtain ⟨b, passed, hbytes, hcomment⟩ := h.encode_comment hslash
    have hall : minifyOnto out gap 0 0 (b :: (passed ++ [])) = minifyOnto out true 0 0 [] :=
      minifyOnto_comment (by rwa [List.append_nil]) out gap
    rw [List.append_nil] at hall
    rw [hbytes, hall, separator_nil]
    exact (List.append_nil _).symm
  | @literal cs h hquote =>
    obtain ⟨b, passed, hbytes, hb, hliteral⟩ := h.encode_literal hquote
    have hall : minifyOnto out gap 0 0 (b :: (passed ++ [])) =
        minifyOnto ((b :: passed).reverse ++ out) false 0 0 [] :=
      minifyOnto_literal hb (by rwa [List.append_nil]) out gap
    have hseparator : separator (endsInWord out) [cs] = [] := by
      rw [separator, List.head?_cons, Option.any_some, beginsWord_of_quote hquote, Bool.and_false]
      rfl
    rw [List.append_nil] at hall
    rw [hseparator, spaced, separator_nil, spaced, List.append_nil, List.nil_append,
      List.append_nil, hbytes, hall, minifyOnto, List.reverse_append, List.reverse_reverse]

theorem minifyBytes_eq (ops : Operators) (text : String) :
    minifyBytes (bytes text) = encode (spaced (lexemes ops text.toList)) := by
  have hstart : endsInWord [] = true → text.toList.head?.any isWordChar = false :=
    fun hword => absurd hword Bool.false_ne_true
  rw [minifyBytes, bytes_eq_encode, (reading_lexemes ops text.toList).written fun _ => hstart]
  rfl

theorem minify_eq (ops : Operators) (text : String) :
    minify text = String.ofList (spaced (lexemes ops text.toList)) := by
  rw [minify, minifyBytes_eq ops, encode, ← bytes_ofList, decodeLossy, ofBytes?_bytes]

theorem bytes_minify (text : String) : bytes (minify text) = minifyBytes (bytes text) := by
  rw [minify_eq .single, minifyBytes_eq .single, encode, bytes_ofList]

end ContractBuild.Source
