import ContractBuild.Proofs.Pieces

/-! Lexemes, character by character: what a text consists of once its blanks and comments are left
out. Words are as long as they can be, literals are taken as they stand, and each other character is
a lexeme by itself, unless operators are told that are read as one. A text can be read as gaps and
lexemes in one way only. -/

namespace ContractBuild.Source

/-- None reaches into a comment. Without its last character an operator is one as well. -/
structure Operators where
  table : List (List Char)
  marks : ∀ x ∈ table, x.all isMarkChar = true
  noSlash : ∀ x ∈ table, '/' ∉ x.tail
  noComment : ∀ x ∈ table, ¬ ['/', '*'] <+: x
  closed : ∀ x ∈ table, 2 < x.length → x.dropLast ∈ table

namespace Operators

def single : Operators := ⟨[], by decide, by decide, by decide, by decide⟩

def solidity : Operators where
  table := ["=>", "->", "|=", "^=", "&=", "<<=", ">>=", ">>>=", "+=", "-=", "*=", "/=", "%=", "||",
    "&&", "<<", ">>", ">>>", "**", "==", "!=", "<=", ">=", "++", "--", ":="].map String.toList
  marks := by decide
  noSlash := by decide
  noComment := by decide
  closed := by decide

def munch (ops : Operators) (x : List Char) : List Char → List Char × List Char
  | [] => (x, [])
  | c :: rest => if x ++ [c] ∈ ops.table then ops.munch (x ++ [c]) rest else (x, c :: rest)

theorem length_munch (ops : Operators) (x cs : List Char) :
    (ops.munch x cs).2.length ≤ cs.length := by
  induction cs generalizing x with
  | nil => exact Nat.le_refl 0
  | cons c rest ih =>
    rw [munch]
    split
    · exact Nat.le_succ_of_le (ih _)
    · exact Nat.le_refl _

end Operators

def splitLiteral (quote : Char) : List Char → List Char × List Char
  | [] => ([], [])
  | [c] => ([c], [])
  | c :: d :: rest =>
    if c = '\\' then (c :: d :: (splitLiteral quote rest).1, (splitLiteral quote rest).2)
    else if c = quote then ([c], d :: rest)
    else (c :: (splitLiteral quote (d :: rest)).1, (splitLiteral quote (d :: rest)).2)

theorem length_splitLiteral (quote : Char) (cs : List Char) :
    (splitLiteral quote cs).2.length ≤ cs.length := by
  fun_induction splitLiteral quote cs with
  | case1 => exact Nat.le_refl 0
  | case2 => exact Nat.zero_le _
  | case3 _ _ ih => exact Nat.le_add_right_of_le (Nat.le_add_right_of_le ih)
  | case4 => exact Nat.le_add_right _ _
  | case5 _ _ _ _ _ ih => exact Nat.le_add_right_of_le ih

def behindBlock : List Char → List Char
  | [] => []
  | c :: rest => if c = '*' ∧ rest.head? = some '/' then rest.tail else behindBlock rest

theorem length_behindBlock (cs : List Char) : (behindBlock cs).length ≤ cs.length := by
  induction cs with
  | nil => exact Nat.le_refl 0
  | cons c rest ih =>
    rw [behindBlock]
    split
    · rw [List.length_tail, List.length_cons]
      omega
    · exact Nat.le_succ_of_le ih

def firstLexeme (ops : Operators) (c : Char) (rest : List Char) : List Char × List Char :=
  if isQuoteChar c then (c :: (splitLiteral c rest).1, (splitLiteral c rest).2)
  else if isWordChar c then (c :: rest.takeWhile isWordChar, rest.dropWhile isWordChar)
  else ops.munch [c] rest

theorem length_firstLexeme (ops : Operators) (c : Char) (rest : List Char) :
    (firstLexeme ops c rest).2.length ≤ rest.length := by
  rw [firstLexeme]
  split
  · exact length_splitLiteral c rest
  · split
    · exact List.length_dropWhile_le isWordChar rest
    · exact ops.length_munch [c] rest

/-- Blanks and comments are left out. -/
def lexemes (ops : Operators) : List Char → List (List Char)
  | [] => []
  | c :: rest =>
    if isBlankChar c then lexemes ops rest
    else if c = '/' ∧ rest.head? = some '/' then lexemes ops (rest.dropWhile (· != '\n'))
    else if c = '/' ∧ rest.head? = some '*' then lexemes ops (behindBlock rest.tail)
    else (firstLexeme ops c rest).1 :: lexemes ops (firstLexeme ops c rest).2
termination_by cs => cs.length
decreasing_by
  · exact Nat.lt_succ_self _
  · exact Nat.lt_succ_of_le (List.length_dropWhile_le _ rest)
  · have hblock := length_behindBlock rest.tail
    rw [List.length_tail] at hblock
    exact Nat.lt_succ_of_le (Nat.le_trans hblock (Nat.sub_le _ _))
  · exact Nat.lt_succ_of_le (length_firstLexeme ops c rest)

example : lexemes .solidity "a+ ++b;/* \" */hex\"\\\"\"// x".toList =
    ["a", "+", "++", "b", ";", "hex", "\"\\\"\""].map String.toList := by decide +kernel

/-! ### The kinds of lexemes -/

inductive IsLexeme (ops : Operators) : List Char → Prop
  | word (w : Word) : IsLexeme ops w.chars
  | literal {quote : Char} (h : isQuoteChar quote = true) (body : List (LiteralPart quote)) :
      IsLexeme ops (quote :: body.flatMap LiteralPart.chars ++ [quote])
  | operator {c : Char} {x : List Char} (hc : isMarkChar c = true)
      (hx : ops.munch [c] x = (c :: x, [])) : IsLexeme ops (c :: x)

def beginsWord (x : List Char) : Bool := x.head?.any isWordChar

def EndsBefore (ops : Operators) (x rest : List Char) : Prop :=
  ∀ d ∈ rest.head?, (beginsWord x = true → isWordChar d = false) ∧ x ++ [d] ∉ ops.table

theorem EndsBefore.nil (ops : Operators) (x : List Char) : EndsBefore ops x [] := nofun

def OpensComment (x rest : List Char) : Prop :=
  x = ['/'] ∧ (rest.head? = some '/' ∨ rest.head? = some '*')

inductive Reading (ops : Operators) : List Char → List (List Char) → Prop
  | nil : Reading ops [] []
  | gap (g : Gap) {rest : List Char} {ls : List (List Char)} (h : Reading ops rest ls) :
      Reading ops (g.chars ++ rest) ls
  | lexeme {x rest : List Char} {ls : List (List Char)} (hx : IsLexeme ops x)
      (hends : EndsBefore ops x rest) (hcomment : ¬ OpensComment x rest) (h : Reading ops rest ls) :
      Reading ops (x ++ rest) (x :: ls)
  | comment {cs : List Char} (h : Unclosed cs) (hslash : cs.head? = some '/') : Reading ops cs []
  | literal {cs : List Char} (h : Unclosed cs) (hquote : cs.head?.any isQuoteChar = true) :
      Reading ops cs [cs]

theorem isMarkChar_iff {c : Char} : isMarkChar c = true ↔
    isBlankChar c = false ∧ isWordChar c = false ∧ isQuoteChar c = false := by
  simp only [isMarkChar, Bool.and_eq_true, Bool.not_eq_true', and_assoc]

theorem isWordChar_excludes {c : Char} (h : isWordChar c = true) :
    isBlankChar c = false ∧ isQuoteChar c = false ∧ c ≠ '/' := by
  rw [← isWordByte_leadByte] at h
  obtain ⟨hslash, hquote, hblank⟩ := isWordByte_excludes h
  rw [isQuote_leadByte] at hquote
  rw [isBlank_leadByte] at hblank
  exact ⟨hblank, hquote, fun hc => hslash (congrArg leadByte hc)⟩

theorem isQuoteChar_excludes {c : Char} (h : isQuoteChar c = true) :
    isBlankChar c = false ∧ c ≠ '/' := by
  simp only [isQuoteChar, Bool.or_eq_true, beq_iff_eq] at h
  rcases h with rfl | rfl <;> decide

namespace Operators

variable {ops : Operators}

theorem isMarkChar_of_mem {x : List Char} (hx : x ∈ ops.table) {c : Char} (hc : c ∈ x) :
    isMarkChar c = true := List.all_eq_true.1 (ops.marks x hx) c hc

theorem munch_append {y x rest : List Char} (hx : ops.munch y x = (y ++ x, []))
    (hends : ∀ d ∈ rest.head?, y ++ x ++ [d] ∉ ops.table) :
    ops.munch y (x ++ rest) = (y ++ x, rest) := by
  induction x generalizing y with
  | nil =>
    rw [List.append_nil] at hends ⊢
    cases rest with
    | nil => rfl
    | cons d rest => exact if_neg (hends d rfl)
  | cons c x ih =>
    rw [munch] at hx
    split at hx
    · rename_i hc
      have hxc : y ++ [c] ++ x = y ++ c :: x := (List.append_cons y c x).symm
      rw [← hxc] at hx hends ⊢
      rw [List.cons_append, munch, if_pos hc]
      exact ih hx hends
    · cases (Prod.mk.inj hx).2

theorem munch_spec (y cs : List Char) : ∃ x rest, cs = x ++ rest ∧ ops.munch y cs = (y ++ x, rest) ∧
    ops.munch y x = (y ++ x, []) ∧ ∀ d ∈ rest.head?, y ++ x ++ [d] ∉ ops.table := by
  induction cs generalizing y with
  | nil =>
    have hnil : ops.munch y [] = (y ++ [], []) := by rw [munch, List.append_nil]
    exact ⟨[], [], rfl, hnil, hnil, nofun⟩
  | cons c rest ih =>
    by_cases hc : y ++ [c] ∈ ops.table
    · obtain ⟨x, rest', rfl, hmunch, hx, hends⟩ := ih (y ++ [c])
      rw [← List.append_cons] at hmunch hx hends
      refine ⟨c :: x, rest', rfl, ?_, ?_, hends⟩
      · rw [munch, if_pos hc, hmunch]
      · rw [munch, if_pos hc, hx]
    · refine ⟨[], c :: rest, rfl, by rw [munch, if_neg hc, List.append_nil],
        by rw [munch, List.append_nil], ?_⟩
      rintro d ⟨⟩
      rw [List.append_nil]
      exact hc

theorem mem_of_munch {y x : List Char} (hy : y ≠ []) (hx : ops.munch y x = (y ++ x, [])) :
    ∀ c ∈ x, isMarkChar c = true ∧ c ≠ '/' := by
  induction x generalizing y with
  | nil => exact List.forall_mem_nil _
  | cons c x ih =>
    rw [munch] at hx
    split at hx
    · rename_i hc
      rw [List.append_cons y c x] at hx
      have hne : y ++ [c] ≠ [] := List.append_ne_nil_of_right_ne_nil _ (List.cons_ne_nil _ _)
      refine List.forall_mem_cons.2 ⟨⟨isMarkChar_of_mem hc (List.mem_append_right _ ?_), ?_⟩, ih hne hx⟩
      · exact List.mem_singleton_self c
      · rintro rfl
        obtain ⟨a, y, rfl⟩ := List.exists_cons_of_ne_nil hy
        exact ops.noSlash _ hc (List.mem_append_right _ (List.mem_singleton_self _))
    · cases (Prod.mk.inj hx).2

theorem mem_of_front {x y : List Char} (hx : x ∈ ops.table) (hy : y <+: x)
    (hlength : 2 ≤ y.length) : y ∈ ops.table := by
  -- by induction on the number of characters that `y` lacks, taken off one by one
  induction hn : x.length - y.length generalizing x with
  | zero => rwa [hy.eq_of_length_le (Nat.sub_eq_zero_iff_le.1 hn)]
  | succ n ih =>
    have hlt : y.length < x.length := Nat.lt_of_sub_eq_succ hn
    have hlast : x.dropLast.length = x.length - 1 := List.length_dropLast
    refine ih (ops.closed x hx (by omega)) ?_ (by omega)
    exact List.prefix_of_prefix_length_le hy (List.dropLast_prefix x) (by omega)

theorem munch_mem (y cs : List Char) :
    (ops.munch y cs).1 = y ∨ (ops.munch y cs).1 ∈ ops.table := by
  induction cs generalizing y with
  | nil => exact Or.inl rfl
  | cons c rest ih =>
    rw [munch]
    split
    · rename_i hc
      refine Or.inr ((ih (y ++ [c])).elim (fun hy => ?_) id)
      rw [hy]
      exact hc
    · exact Or.inl rfl

/-- What is read is a mark by itself or an operator, and no operator that the text begins with is
longer. -/
theorem munch_longest (c : Char) (rest : List Char) :
    ((ops.munch [c] rest).1 = [c] ∨ (ops.munch [c] rest).1 ∈ ops.table) ∧
      ∀ x ∈ ops.table, x <+: c :: rest → x.length ≤ (ops.munch [c] rest).1.length := by
  refine ⟨munch_mem [c] rest, fun x hx hfront => ?_⟩
  obtain ⟨y, rest', rfl, hmunch, -, hends⟩ := ops.munch_spec [c] rest
  rw [hmunch]
  by_contra hlt
  rw [Nat.not_le] at hlt
  cases rest' with
  | nil =>
    have hle := hfront.length_le
    rw [List.append_nil] at hle
    exact absurd hle (Nat.not_le.2 hlt)
  | cons d rest' =>
    -- one character more would be an operator as well
    have hnext : [c] ++ y ++ [d] <+: x := by
      refine List.prefix_of_prefix_length_le ⟨rest', ?_⟩ hfront ?_
      · simp
      · rw [List.length_append]
        exact hlt
    exact hends d rfl (mem_of_front hx hnext (by simp))

end Operators

/-! ### Lexemes in front of a text -/

section First

variable {ops : Operators}

theorem splitLiteral_part {quote : Char} (part : LiteralPart quote) (cs : List Char) :
    splitLiteral quote (part.chars ++ cs) =
      (part.chars ++ (splitLiteral quote cs).1, (splitLiteral quote cs).2) := by
  cases part with
  | plain c hquote hbackslash =>
    cases cs with
    | nil => rfl
    | cons d cs => exact (if_neg hbackslash).trans (if_neg hquote)
  | escaped c => exact if_pos rfl

theorem splitLiteral_parts {quote : Char} (body : List (LiteralPart quote)) (cs : List Char) :
    splitLiteral quote (body.flatMap LiteralPart.chars ++ cs) =
      (body.flatMap LiteralPart.chars ++ (splitLiteral quote cs).1, (splitLiteral quote cs).2) := by
  induction body with
  | nil => rfl
  | cons part body ih =>
    rw [List.flatMap_cons, List.append_assoc, splitLiteral_part, ih, List.append_assoc]

theorem splitLiteral_close {quote : Char} (h : isQuoteChar quote = true) (rest : List Char) :
    splitLiteral quote (quote :: rest) = ([quote], rest) := by
  cases rest with
  | nil => rfl
  | cons d rest => exact (if_neg (ascii_of_isQuoteChar h).2).trans (if_pos rfl)

theorem firstLexeme_quote {quote : Char} (h : isQuoteChar quote = true) (cs : List Char) :
    firstLexeme ops quote cs = (quote :: (splitLiteral quote cs).1, (splitLiteral quote cs).2) :=
  if_pos h

theorem IsLexeme.ne_nil {x : List Char} (hx : IsLexeme ops x) : x ≠ [] := by
  cases hx with
  | word w => exact w.nonempty
  | literal h body => exact List.cons_ne_nil _ _
  | operator hc hx => exact List.cons_ne_nil _ _

theorem IsLexeme.first {x rest : List Char} (hx : IsLexeme ops x) (hends : EndsBefore ops x rest) :
    ∃ c y, x = c :: y ∧ isBlankChar c = false ∧ firstLexeme ops c (y ++ rest) = (x, rest) := by
  cases hx with
  | word w =>
    have hall := List.all_eq_true.1 w.isWord
    obtain ⟨c, y, hw⟩ := List.exists_cons_of_ne_nil w.nonempty
    rw [hw] at hall hends ⊢
    obtain ⟨hc, hy⟩ := List.forall_mem_cons.1 hall
    obtain ⟨htake, hdrop⟩ := takeWhile_run hy fun d hd => (hends d hd).1 hc
    refine ⟨c, y, rfl, (isWordChar_excludes hc).1, ?_⟩
    rw [firstLexeme, (isWordChar_excludes hc).2.1, if_neg Bool.false_ne_true, if_pos hc, htake,
      hdrop]
  | @literal quote h body =>
    refine ⟨quote, body.flatMap LiteralPart.chars ++ [quote], rfl, (isQuoteChar_excludes h).1, ?_⟩
    rw [firstLexeme_quote h, List.append_assoc, splitLiteral_parts, List.singleton_append,
      splitLiteral_close h]
    rfl
  | @operator c y hc hy =>
    obtain ⟨hblank, hword, hquote⟩ := isMarkChar_iff.1 hc
    refine ⟨c, y, rfl, hblank, ?_⟩
    rw [firstLexeme, hquote, if_neg Bool.false_ne_true, hword, if_neg Bool.false_ne_true]
    exact Operators.munch_append hy fun d hd => (hends d hd).2

theorem IsLexeme.not_opensComment {c : Char} {y rest : List Char} (hx : IsLexeme ops (c :: y))
    (hcomment : ¬ OpensComment (c :: y) rest) : ¬ OpensComment [c] (y ++ rest) := by
  rintro ⟨hc, hnext⟩
  obtain rfl := List.singleton_inj.1 hc
  cases y with
  | nil => exact hcomment ⟨rfl, hnext⟩
  | cons d y =>
    rw [List.cons_append, List.head?_cons, Option.some_inj, Option.some_inj] at hnext
    generalize hx' : '/' :: d :: y = x at hx
    cases hx with
    | word w =>
      have hslash := List.all_eq_true.1 w.isWord '/' (hx' ▸ List.mem_cons_self)
      exact absurd hslash (by decide)
    | literal h body =>
      obtain ⟨rfl, -⟩ := List.cons.inj hx'
      exact absurd h (by decide)
    | operator _ hy =>
      obtain ⟨rfl, rfl⟩ := List.cons.inj hx'
      have hd := (Operators.mem_of_munch (List.cons_ne_nil _ _) hy d List.mem_cons_self).2
      rw [Operators.munch] at hy
      split at hy
      · rename_i hmem
        obtain rfl := hnext.resolve_left hd
        exact ops.noComment _ hmem (List.prefix_refl _)
      · cases (Prod.mk.inj hy).2

theorem first_of_unclosed (ops : Operators) {x : List Char} (h : Unclosed x)
    (hquote : x.head?.any isQuoteChar = true) :
    ∃ c y, x = c :: y ∧ isBlankChar c = false ∧ c ≠ '/' ∧ firstLexeme ops c y = (x, []) := by
  cases h with
  | lineComment h => cases hquote
  | blockComment h => cases hquote
  | @literal quote h body =>
    obtain ⟨hblank, hslash⟩ := isQuoteChar_excludes h
    refine ⟨quote, body.flatMap LiteralPart.chars, rfl, hblank, hslash, ?_⟩
    have hparts := splitLiteral_parts body []
    rw [List.append_nil] at hparts
    rw [firstLexeme_quote h, hparts, splitLiteral, List.append_nil]
  | @literalInEscape quote h body =>
    obtain ⟨hblank, hslash⟩ := isQuoteChar_excludes h
    refine ⟨quote, body.flatMap LiteralPart.chars ++ ['\\'], rfl, hblank, hslash, ?_⟩
    rw [firstLexeme_quote h, splitLiteral_parts, splitLiteral]
    rfl

end First

/-! ### A text has one reading -/

section Reading

variable {ops : Operators}

theorem behindBlock_closed {body : List Char} (h : ¬ ['*', '/'] <:+: body) (rest : List Char) :
    behindBlock (body ++ '*' :: '/' :: rest) = rest := by
  induction body with
  | nil => exact if_pos ⟨rfl, rfl⟩
  | cons c body ih =>
    have hopen : ¬ (c = '*' ∧ (body ++ '*' :: '/' :: rest).head? = some '/') := by
      rintro ⟨rfl, hhead⟩
      cases body with
      | nil => exact absurd (Option.some_inj.1 hhead) (by decide)
      | cons d body =>
        cases hhead
        exact h ⟨[], body, rfl⟩
    rw [List.cons_append, behindBlock, if_neg hopen]
    exact ih fun hin => h (hin.trans (List.suffix_cons c body).isInfix)

theorem behindBlock_open {body : List Char} (h : ¬ ['*', '/'] <:+: body) :
    behindBlock body = [] := by
  induction body with
  | nil => rfl
  | cons c body ih =>
    have hopen : ¬ (c = '*' ∧ body.head? = some '/') := by
      rintro ⟨rfl, hhead⟩
      obtain ⟨more, rfl⟩ := List.head?_eq_some_iff.1 hhead
      exact h ⟨[], more, rfl⟩
    rw [behindBlock, if_neg hopen]
    exact ih fun hin => h (hin.trans (List.suffix_cons c body).isInfix)

theorem lexemes_nil : lexemes ops [] = [] := by rw [lexemes]

theorem lexemes_blank {c : Char} (h : isBlankChar c = true) (rest : List Char) :
    lexemes ops (c :: rest) = lexemes ops rest := by
  rw [lexemes, if_pos h]

theorem lexemes_lineComment (rest : List Char) :
    lexemes ops ('/' :: '/' :: rest) = lexemes ops (rest.dropWhile (· != '\n')) := by
  rw [lexemes, if_neg (by decide), if_pos ⟨rfl, rfl⟩, List.dropWhile_cons_of_pos (by decide)]

theorem lexemes_blockComment (rest : List Char) :
    lexemes ops ('/' :: '*' :: rest) = lexemes ops (behindBlock rest) := by
  have hline : ¬ ('/' = '/' ∧ ('*' :: rest).head? = some '/') := fun h => absurd h.2 (by simp)
  rw [lexemes, if_neg (by decide), if_neg hline, if_pos ⟨rfl, rfl⟩, List.tail_cons]

theorem lexemes_of_first {c : Char} {rest : List Char} (hblank : isBlankChar c = false)
    (hcomment : ¬ OpensComment [c] rest) :
    lexemes ops (c :: rest) =
      (firstLexeme ops c rest).1 :: lexemes ops (firstLexeme ops c rest).2 := by
  have hline : ¬ (c = '/' ∧ rest.head? = some '/') :=
    fun h => hcomment ⟨List.singleton_inj.2 h.1, Or.inl h.2⟩
  have hblock : ¬ (c = '/' ∧ rest.head? = some '*') :=
    fun h => hcomment ⟨List.singleton_inj.2 h.1, Or.inr h.2⟩
  rw [lexemes, hblank, if_neg Bool.false_ne_true, if_neg hline, if_neg hblock]

theorem lexemes_gap (g : Gap) (rest : List Char) :
    lexemes ops (g.chars ++ rest) = lexemes ops rest := by
  cases g with
  | blank c h => exact lexemes_blank h rest
  | lineComment body h =>
    have hbody : ∀ c ∈ body, (c != '\n') = true := fun c hc => bne_iff_ne.2 fun hn => h (hn ▸ hc)
    rw [Gap.chars, List.append_assoc, List.cons_append, List.cons_append, lexemes_lineComment,
      List.dropWhile_append_of_pos hbody]
    exact lexemes_blank (by decide) rest
  | blockComment body h =>
    rw [Gap.chars, List.append_assoc, List.cons_append, List.cons_append, lexemes_blockComment]
    exact congrArg _ (behindBlock_closed h rest)

theorem Reading.lexemes_eq {cs : List Char} {ls : List (List Char)} (h : Reading ops cs ls) :
    lexemes ops cs = ls := by
  induction h with
  | nil => exact lexemes_nil
  | gap g h ih => rw [lexemes_gap, ih]
  | lexeme hx hends hcomment h ih =>
    obtain ⟨c, y, rfl, hblank, hfirst⟩ := hx.first hends
    rw [List.cons_append, lexemes_of_first hblank (hx.not_opensComment hcomment), hfirst, ih]
  | comment h hslash =>
    cases h with
    | @lineComment body h =>
      have hbody : body.dropWhile (· != '\n') = [] :=
        List.dropWhile_eq_nil_iff.2 fun c hc => bne_iff_ne.2 fun hn => h (hn ▸ hc)
      rw [lexemes_lineComment, hbody, lexemes_nil]
    | blockComment h => rw [lexemes_blockComment, behindBlock_open h, lexemes_nil]
    | literal h body =>
      cases hslash
      exact absurd h (by decide)
    | literalInEscape h body =>
      cases hslash
      exact absurd h (by decide)
  | literal h hquote =>
    obtain ⟨c, y, rfl, hblank, hslash, hfirst⟩ := first_of_unclosed ops h hquote
    rw [lexemes_of_first hblank fun h => hslash (List.singleton_inj.1 h.1), hfirst, lexemes_nil]

theorem endsBefore_of_not_mark {c : Char} {x rest : List Char} (hc : c ∈ x)
    (hmark : isMarkChar c = false)
    (hword : ∀ d ∈ rest.head?, beginsWord x = true → isWordChar d = false) :
    EndsBefore ops x rest := by
  refine fun d hd => ⟨hword d hd, fun hx => ?_⟩
  have htrue := Operators.isMarkChar_of_mem hx (List.mem_append_left _ hc)
  rw [hmark] at htrue
  exact Bool.false_ne_true htrue

theorem isMarkChar_of_word {c : Char} (h : isWordChar c = true) : isMarkChar c = false := by
  rw [isMarkChar, h, Bool.not_true, Bool.and_false, Bool.false_and]

theorem isMarkChar_of_quote {c : Char} (h : isQuoteChar c = true) : isMarkChar c = false := by
  rw [isMarkChar, h, Bool.not_true, Bool.and_false]

theorem exists_mark (ops : Operators) {c : Char} {rest : List Char} (hc : isMarkChar c = true)
    (hends : (Piece.mark c hc).EndsAt rest) :
    ∃ x more, rest = x ++ more ∧ IsLexeme ops (c :: x) ∧ EndsBefore ops (c :: x) more ∧
      ¬ OpensComment (c :: x) more := by
  obtain ⟨x, more, rfl, -, hx, hnext⟩ := ops.munch_spec [c] rest
  refine ⟨x, more, rfl, .operator hc hx, fun d hd => ⟨fun hword => ?_, hnext d hd⟩, ?_⟩
  · have hfalse : isWordChar c = true := hword
    rw [(isMarkChar_iff.1 hc).2.1] at hfalse
    exact absurd hfalse Bool.false_ne_true
  · rintro ⟨hslash, hcomment⟩
    obtain ⟨rfl, rfl⟩ := List.cons.inj hslash
    exact hcomment.elim (hends rfl).1 (hends rfl).2

theorem exists_front (ops : Operators) {cs : List Char} (hne : cs ≠ []) :
    (∃ (g : Gap) (rest : List Char), cs = g.chars ++ rest) ∨
      (∃ x rest, cs = x ++ rest ∧ IsLexeme ops x ∧ EndsBefore ops x rest ∧ ¬ OpensComment x rest) ∨
        Unclosed cs := by
  rcases exists_piece hne with ⟨p, rest, rfl, hends⟩ | hunclosed
  · cases p with
    | gap g => exact Or.inl ⟨g, rest, rfl⟩
    | word w =>
      have hall := List.all_eq_true.1 w.isWord
      obtain ⟨c, hc⟩ := List.exists_mem_of_ne_nil _ w.nonempty
      refine Or.inr (Or.inl ⟨w.chars, rest, rfl, .word w, ?_, ?_⟩)
      · refine endsBefore_of_not_mark hc (isMarkChar_of_word (hall c hc)) fun d hd _ => ?_
        rw [Piece.EndsAt, hd] at hends
        exact hends
      · rintro ⟨hslash, -⟩
        exact (isWordChar_excludes (hall '/' (hslash ▸ List.mem_singleton_self _))).2.2 rfl
    | literal quote h body =>
      have hword : isWordChar quote = false := by
        rw [← Bool.not_eq_true]
        intro hword
        exact Bool.false_ne_true ((isWordChar_excludes hword).2.1.symm.trans h)
      refine Or.inr (Or.inl ⟨_, rest, rfl, .literal h body, ?_, ?_⟩)
      · exact endsBefore_of_not_mark List.mem_cons_self (isMarkChar_of_quote h)
          fun _ _ hbegins => absurd (hword.symm.trans hbegins) Bool.false_ne_true
      · rintro ⟨hslash, -⟩
        exact (isQuoteChar_excludes h).2 (List.cons.inj hslash).1
    | mark c hc =>
      obtain ⟨x, more, rfl, hx⟩ := exists_mark ops hc hends
      exact Or.inr (Or.inl ⟨c :: x, more, rfl, hx⟩)
  · exact Or.inr (Or.inr hunclosed)

theorem Unclosed.reading (ops : Operators) {cs : List Char} (h : Unclosed cs) :
    ∃ ls, Reading ops cs ls := by
  cases h with
  | lineComment h => exact ⟨[], .comment (.lineComment h) rfl⟩
  | blockComment h => exact ⟨[], .comment (.blockComment h) rfl⟩
  | literal h body => exact ⟨_, .literal (.literal h body) h⟩
  | literalInEscape h body => exact ⟨_, .literal (.literalInEscape h body) h⟩

theorem exists_reading (ops : Operators) (cs : List Char) : ∃ ls, Reading ops cs ls := by
  induction hn : cs.length using Nat.strongRecOn generalizing cs with
  | _ n ih =>
  have hshorter {x rest : List Char} (hcs : cs = x ++ rest) (hx : x ≠ []) :
      ∃ ls, Reading ops rest ls := by
    refine ih rest.length ?_ rest rfl
    rw [← hn, hcs, List.length_append]
    exact Nat.lt_add_of_pos_left (List.length_pos_of_ne_nil hx)
  by_cases hne : cs = []
  · exact ⟨[], hne ▸ .nil⟩
  rcases exists_front ops hne with ⟨g, rest, hcs⟩ | ⟨x, rest, hcs, hx, hends, hcomment⟩ | hunclosed
  · obtain ⟨ls, hls⟩ := hshorter hcs (Piece.gap g).chars_ne_nil
    exact ⟨ls, hcs ▸ .gap g hls⟩
  · obtain ⟨ls, hls⟩ := hshorter hcs hx.ne_nil
    exact ⟨x :: ls, hcs ▸ .lexeme hx hends hcomment hls⟩
  · exact hunclosed.reading ops

theorem reading_lexemes (ops : Operators) (cs : List Char) : Reading ops cs (lexemes ops cs) := by
  obtain ⟨ls, hls⟩ := exists_reading ops cs
  rw [hls.lexemes_eq]
  exact hls

end Reading

end ContractBuild.Source
