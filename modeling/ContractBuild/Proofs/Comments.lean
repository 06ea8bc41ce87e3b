import ContractBuild.Proofs.NormalForm

/-! Texts without their comments. Minifying changes nothing else but blanks. -/

namespace ContractBuild.Source

/-- A comment to the end of its line ends in front of the line feed, and one that is not closed
takes all that is left. A literal is kept as it is. -/
def withoutComments : List Char → List Char
  | [] => []
  | c :: rest =>
    if c = '/' ∧ rest.head? = some '/' then withoutComments (rest.dropWhile (· != '\n'))
    else if c = '/' ∧ rest.head? = some '*' then withoutComments (behindBlock rest.tail)
    else if isQuoteChar c then
      c :: (splitLiteral c rest).1 ++ withoutComments (splitLiteral c rest).2
    else c :: withoutComments rest
termination_by cs => cs.length
decreasing_by
  · exact Nat.lt_succ_of_le (List.length_dropWhile_le _ rest)
  · have hblock := length_behindBlock rest.tail
    rw [List.length_tail] at hblock
    exact Nat.lt_succ_of_le (Nat.le_trans hblock (Nat.sub_le _ _))
  · exact Nat.lt_succ_of_le (length_splitLiteral c rest)
  · exact Nat.lt_succ_self _

example : withoutComments "a/* ' */b'/*\\''/ /// é".toList = "ab'/*\\''/ ".toList := by
  decide +kernel

theorem isBlankChar_excludes {c : Char} (h : isBlankChar c = true) :
    isQuoteChar c = false ∧ c ≠ '/' := by
  rw [← isBlank_leadByte] at h
  obtain ⟨hslash, hquote⟩ := isBlank_excludes h
  rw [isQuote_leadByte] at hquote
  exact ⟨hquote, fun hc => hslash (congrArg leadByte hc)⟩

theorem withoutComments_quote {c : Char} (h : isQuoteChar c = true) (rest : List Char) :
    withoutComments (c :: rest) =
      c :: (splitLiteral c rest).1 ++ withoutComments (splitLiteral c rest).2 := by
  have hslash := (isQuoteChar_excludes h).2
  rw [withoutComments, if_neg fun hc => hslash hc.1, if_neg fun hc => hslash hc.1, if_pos h]

theorem withoutComments_cons {c : Char} {rest : List Char} (hquote : isQuoteChar c = false)
    (hcomment : ¬ OpensComment [c] rest) :
    withoutComments (c :: rest) = c :: withoutComments rest := by
  have hline : ¬ (c = '/' ∧ rest.head? = some '/') :=
    fun h => hcomment ⟨List.singleton_inj.2 h.1, Or.inl h.2⟩
  have hblock : ¬ (c = '/' ∧ rest.head? = some '*') :=
    fun h => hcomment ⟨List.singleton_inj.2 h.1, Or.inr h.2⟩
  rw [withoutComments, if_neg hline, if_neg hblock, hquote, if_neg Bool.false_ne_true]

theorem withoutComments_word {w : List Char} (h : ∀ c ∈ w, isWordChar c = true) (rest : List Char) :
    withoutComments (w ++ rest) = w ++ withoutComments rest := by
  induction w with
  | nil => rfl
  | cons c w ih =>
    obtain ⟨hc, hw⟩ := List.forall_mem_cons.1 h
    obtain ⟨-, hquote, hslash⟩ := isWordChar_excludes hc
    rw [List.cons_append, withoutComments_cons hquote fun h => hslash (List.singleton_inj.1 h.1),
      ih hw, List.cons_append]

theorem withoutComments_first {c : Char} {rest : List Char} (hcomment : ¬ OpensComment [c] rest) :
    withoutComments (c :: rest) =
      (firstLexeme .single c rest).1 ++ withoutComments (firstLexeme .single c rest).2 := by
  cases hquote : isQuoteChar c with
  | true => rw [firstLexeme_quote hquote, withoutComments_quote hquote]
  | false =>
    rw [firstLexeme, hquote, if_neg Bool.false_ne_true]
    cases hword : isWordChar c with
    | true =>
      have hall : ∀ d ∈ c :: rest.takeWhile isWordChar, isWordChar d = true :=
        List.forall_mem_cons.2 ⟨hword, fun _ => List.mem_takeWhile_imp⟩
      have hrest := withoutComments_word hall (rest.dropWhile isWordChar)
      rw [List.cons_append, List.takeWhile_append_dropWhile] at hrest
      rw [if_pos rfl, hrest]
    | false =>
      rw [if_neg Bool.false_ne_true, munch_single, withoutComments_cons hquote hcomment]
      rfl

section Kept

variable {p : Char → Bool}

theorem filter_withoutComments (hp : ∀ c, isBlankChar c = true → p c = false) (cs : List Char) :
    (withoutComments cs).filter p = (lexemes .single cs).flatten.filter p := by
  fun_induction lexemes .single cs with
  | case1 => rw [withoutComments, List.flatten_nil]
  | case2 c rest hblank ih =>
    obtain ⟨hquote, hslash⟩ := isBlankChar_excludes hblank
    have hp' : ¬ p c = true := by rw [hp c hblank]; exact Bool.false_ne_true
    rw [withoutComments_cons hquote fun h => hslash (List.singleton_inj.1 h.1),
      List.filter_cons_of_neg hp', ih]
  | case3 c rest hblank hline ih => rw [withoutComments, if_pos hline, ih]
  | case4 c rest hblank hline hblock ih => rw [withoutComments, if_neg hline, if_pos hblock, ih]
  | case5 c rest hblank hline hblock ih =>
    have hcomment : ¬ OpensComment [c] rest := by
      rintro ⟨hslash, hnext⟩
      have hc := List.singleton_inj.1 hslash
      exact hnext.elim (fun h => hline ⟨hc, h⟩) fun h => hblock ⟨hc, h⟩
    rw [withoutComments_first hcomment, List.filter_append, ih, List.flatten_cons,
      List.filter_append]

theorem filter_spaced (hp : p ' ' = false) (ls : List (List Char)) :
    (spaced ls).filter p = ls.flatten.filter p := by
  induction ls with
  | nil => rfl
  | cons x ls ih =>
    have hseparator : (separator (beginsWord x) ls).filter p = [] := by
      rw [separator]
      split
      · exact List.filter_cons_of_neg (by rw [hp]; exact Bool.false_ne_true)
      · rfl
    rw [spaced, List.filter_append, List.filter_append, hseparator, ih, List.flatten_cons,
      List.filter_append, List.nil_append]

theorem filter_minify (hp : ∀ c, isBlankChar c = true → p c = false) (text : String) :
    (minify text).toList.filter p = (withoutComments text.toList).filter p := by
  rw [toList_minify .single, filter_spaced (hp ' ' rfl), filter_withoutComments hp]

end Kept

end ContractBuild.Source
