import ContractBuild.Proofs.Minifying
import Mathlib.Data.List.Chain

/-! What is read of a text that has been written as its lexemes. They come back unless two of them
are read as something else once nothing keeps them apart: as a longer operator, or as a comment. -/

namespace ContractBuild.Source

variable {ops : Operators}

/-- Lexemes that a text can have: only the last one may need the end of the text. -/
inductive Lexed (ops : Operators) : List (List Char) → Prop
  | nil : Lexed ops []
  | cons {x : List Char} {ls : List (List Char)} (hx : IsLexeme ops x) (h : Lexed ops ls) :
      Lexed ops (x :: ls)
  | unclosed {x : List Char} (h : Unclosed x) (hquote : x.head?.any isQuoteChar = true) :
      Lexed ops [x]

/-- Without a blank between them, the two do not begin a longer operator. -/
def Unjoined (ops : Operators) (x y : List Char) : Prop := x ++ y.take 1 ∉ ops.table

instance (ops : Operators) : DecidableRel (Unjoined ops) := fun x y =>
  inferInstanceAs (Decidable (x ++ y.take 1 ∉ ops.table))

theorem Reading.lexed {cs : List Char} {ls : List (List Char)} (h : Reading ops cs ls) :
    Lexed ops ls := by
  induction h with
  | nil => exact .nil
  | gap g h ih => exact ih
  | lexeme hx hends hcomment h ih => exact .cons hx ih
  | comment h hslash => exact .nil
  | literal h hquote => exact .unclosed h hquote

theorem Lexed.tail {x : List Char} {ls : List (List Char)} (h : Lexed ops (x :: ls)) :
    Lexed ops ls := by
  cases h with
  | cons hx h => exact h
  | unclosed h hquote => exact .nil

/-! ### What follows a lexeme -/

def following (x : List Char) (ls : List (List Char)) : List Char :=
  separator (beginsWord x) ls ++ spaced ls

theorem spaced_cons (x : List Char) (ls : List (List Char)) :
    spaced (x :: ls) = x ++ following x ls := rfl

theorem Lexed.exists_cons {x : List Char} {ls : List (List Char)} (h : Lexed ops (x :: ls)) :
    ∃ c y, x = c :: y ∧ isBlankChar c = false := by
  cases h with
  | cons hx h =>
    obtain ⟨c, y, hcy, hblank, -⟩ := hx.first (EndsBefore.nil ops x)
    exact ⟨c, y, hcy, hblank⟩
  | unclosed h hquote =>
    obtain ⟨c, y, hcy, hblank, -⟩ := first_of_unclosed ops h hquote
    exact ⟨c, y, hcy, hblank⟩

theorem Lexed.following_cases {x : List Char} {ls : List (List Char)} (h : Lexed ops ls) :
    following x ls = ' ' :: spaced ls ∨
      following x ls = spaced ls ∧ ∀ d ∈ (spaced ls).head?, ∃ y ∈ ls.head?, d ∈ y.head? ∧
        (beginsWord x = true → isWordChar d = false) := by
  cases ls with
  | nil => exact Or.inr ⟨by rw [following, separator_nil]; rfl, nofun⟩
  | cons y ls =>
    obtain ⟨c, z, rfl, -⟩ := h.exists_cons
    cases hwords : beginsWord x && beginsWord (c :: z) with
    | true =>
      refine Or.inl ?_
      rw [following, separator, List.head?_cons, Option.any_some, hwords]
      rfl
    | false =>
      refine Or.inr ⟨?_, ?_⟩
      · rw [following, separator, List.head?_cons, Option.any_some, hwords]
        rfl
      · rintro d ⟨⟩
        refine ⟨c :: z, rfl, rfl, fun hx => ?_⟩
        rw [hx, Bool.true_and] at hwords
        exact hwords

theorem not_mem_table_of_blank (ops : Operators) (x : List Char) : x ++ [' '] ∉ ops.table :=
  fun hx => absurd (Operators.isMarkChar_of_mem hx (List.mem_append_right _ List.mem_cons_self))
    (by decide)

theorem Lexed.endsBefore {x : List Char} {ls : List (List Char)} (h : Lexed ops ls)
    (hjoin : ∀ y ∈ ls.head?, Unjoined ops x y) : EndsBefore ops x (following x ls) := by
  rcases h.following_cases with hfollowing | ⟨hfollowing, hhead⟩
  · rw [hfollowing]
    rintro d ⟨⟩
    exact ⟨fun _ => by decide, not_mem_table_of_blank ops x⟩
  · rw [hfollowing]
    intro d hd
    obtain ⟨y, hy, hyd, hword⟩ := hhead d hd
    have hnext := hjoin y hy
    obtain ⟨z, rfl⟩ := List.head?_eq_some_iff.1 hyd
    exact ⟨hword, hnext⟩

theorem Lexed.not_opensComment {x : List Char} {ls : List (List Char)} (h : Lexed ops ls)
    (hcomment : ∀ y ∈ ls.head?, ¬ OpensComment x y) : ¬ OpensComment x (following x ls) := by
  rintro ⟨hslash, hnext⟩
  rcases h.following_cases with hfollowing | ⟨hfollowing, hhead⟩
  · rw [hfollowing] at hnext
    rcases hnext with hnext | hnext <;> exact absurd (Option.some_inj.1 hnext) (by decide)
  · rw [hfollowing] at hnext
    rcases hnext with hnext | hnext
    · obtain ⟨y, hy, hyd, -⟩ := hhead _ hnext
      exact hcomment y hy ⟨hslash, Or.inl hyd⟩
    · obtain ⟨y, hy, hyd, -⟩ := hhead _ hnext
      exact hcomment y hy ⟨hslash, Or.inr hyd⟩

/-! ### Reading what has been written -/

theorem Reading.behind {x : List Char} {ls : List (List Char)} (hlexed : Lexed ops ls)
    (h : Reading ops (spaced ls) ls) : Reading ops (following x ls) ls := by
  rcases hlexed.following_cases (x := x) with hfollowing | ⟨hfollowing, -⟩
  · rw [hfollowing]
    exact .gap (.blank ' ' rfl) h
  · rw [hfollowing]
    exact h

theorem Lexed.reading {ls : List (List Char)} (h : Lexed ops ls)
    (hchain : ls.IsChain fun x y => Unjoined ops x y ∧ ¬ OpensComment x y) :
    Reading ops (spaced ls) ls := by
  induction h with
  | nil => exact .nil
  | @cons x ls hx h ih =>
    have hends := h.endsBefore fun y hy => (hchain.rel_head? hy).1
    have hcomment := h.not_opensComment fun y hy => (hchain.rel_head? hy).2
    exact .lexeme hx hends hcomment ((ih hchain.tail).behind h)
  | @unclosed x h hquote =>
    have hx : spaced [x] = x := by
      rw [spaced_cons, following, separator_nil]
      exact List.append_nil x
    rw [hx]
    exact .literal h hquote

theorem Lexed.exists_first {x : List Char} {ls : List (List Char)} (h : Lexed ops (x :: ls))
    (hchain : (x :: ls).IsChain (Unjoined ops)) :
    ∃ c rest, spaced (x :: ls) = c :: rest ∧ firstLexeme ops c rest = (x, following x ls) := by
  cases h with
  | cons hx h =>
    obtain ⟨c, y, rfl, -, hfirst⟩ := hx.first (h.endsBefore fun y hy => hchain.rel_head? hy)
    exact ⟨c, _, rfl, hfirst⟩
  | unclosed h hquote =>
    obtain ⟨c, y, rfl, -, -, hfirst⟩ := first_of_unclosed ops h hquote
    refine ⟨c, y ++ following (c :: y) [], rfl, ?_⟩
    rw [following, separator_nil, spaced, List.append_nil, List.append_nil]
    exact hfirst

theorem Lexed.dropWhile_following {x : List Char} {ls : List (List Char)} (h : Lexed ops ls) :
    (following x ls).dropWhile isBlankChar = spaced ls := by
  have hspaced : (spaced ls).dropWhile isBlankChar = spaced ls := by
    cases ls with
    | nil => rfl
    | cons y ls =>
      obtain ⟨c, z, rfl, hblank⟩ := h.exists_cons
      exact List.dropWhile_cons_of_neg (by rw [hblank]; exact Bool.false_ne_true)
  rcases h.following_cases (x := x) with hfollowing | ⟨hfollowing, -⟩
  · rw [hfollowing, List.dropWhile_cons_of_pos (by decide), hspaced]
  · rw [hfollowing, hspaced]

theorem spaced_inj {ls ls' : List (List Char)} (h : Lexed ops ls) (h' : Lexed ops ls')
    (hchain : ls.IsChain (Unjoined ops)) (hchain' : ls'.IsChain (Unjoined ops))
    (heq : spaced ls = spaced ls') : ls = ls' := by
  induction ls generalizing ls' with
  | nil =>
    cases ls' with
    | nil => rfl
    | cons x' ls' =>
      obtain ⟨c, rest, hspaced, -⟩ := h'.exists_first hchain'
      cases heq.trans hspaced
  | cons x ls ih =>
    obtain ⟨c, rest, hspaced, hfirst⟩ := h.exists_first hchain
    cases ls' with
    | nil => cases heq.symm.trans hspaced
    | cons x' ls' =>
      -- the same characters stand in front, so the same lexeme is read of both
      obtain ⟨c', rest', hspaced', hfirst'⟩ := h'.exists_first hchain'
      obtain ⟨rfl, rfl⟩ := List.cons.inj (hspaced.symm.trans (heq.trans hspaced'))
      obtain ⟨rfl, hrest⟩ := Prod.mk.inj (hfirst.symm.trans hfirst')
      have hblanks := congrArg (List.dropWhile isBlankChar) hrest
      rw [h.tail.dropWhile_following, h'.tail.dropWhile_following] at hblanks
      rw [ih h.tail h'.tail hchain.tail hchain'.tail hblanks]

/-! ### Texts -/

theorem toList_minify (ops : Operators) (text : String) :
    (minify text).toList = spaced (lexemes ops text.toList) := by
  rw [minify_eq ops, String.toList_ofList]

/-- Operators that a blank keeps apart can be joined; all else can be told from the minified text.
-/
theorem lexemes_of_minify_eq {text text' : String} (h : minify text = minify text') :
    lexemes .single text.toList = lexemes .single text'.toList ∧
      ((lexemes .solidity text.toList).IsChain (Unjoined .solidity) →
        (lexemes .solidity text'.toList).IsChain (Unjoined .solidity) →
          lexemes .solidity text.toList = lexemes .solidity text'.toList) := by
  have hinj (ops : Operators) (hchain : (lexemes ops text.toList).IsChain (Unjoined ops))
      (hchain' : (lexemes ops text'.toList).IsChain (Unjoined ops)) :
      lexemes ops text.toList = lexemes ops text'.toList := by
    refine spaced_inj (reading_lexemes ops _).lexed (reading_lexemes ops _).lexed hchain hchain' ?_
    rw [← toList_minify, ← toList_minify, h]
  have hsingle (ls : List (List Char)) : ls.IsChain (Unjoined .single) :=
    (List.pairwise_of_forall fun _ _ => List.not_mem_nil).isChain
  exact ⟨hinj .single (hsingle _) (hsingle _), hinj .solidity⟩

theorem lexemes_of_minify_eq_lines :
    let text := "a ++ // next\n+ b << \"c  d\";"
    let text' := "a+++b<</* */\"c  d\" ;"
    minify text = minify text' ∧ (lexemes .solidity text.toList).IsChain (Unjoined .solidity) ∧
      (lexemes .solidity text'.toList).IsChain (Unjoined .solidity) ∧
        lexemes .solidity text.toList = lexemes .solidity text'.toList := by
  intro text text'
  have h : minify text = minify text' := by decide +kernel
  have hchain : (lexemes .solidity text.toList).IsChain (Unjoined .solidity) := by decide +kernel
  have hchain' : (lexemes .solidity text'.toList).IsChain (Unjoined .solidity) := by decide +kernel
  exact ⟨h, hchain, hchain', (lexemes_of_minify_eq h).2 hchain hchain'⟩

theorem minify_joins_operators :
    ¬ ∀ text text' : String, minify text = minify text' →
      lexemes .solidity text.toList = lexemes .solidity text'.toList := by
  intro h
  have hlexemes := h "a + ++b" "a++ + b" (by decide +kernel)
  exact absurd hlexemes (by decide +kernel)

theorem munch_single (x cs : List Char) : Operators.single.munch x cs = (x, cs) := by
  cases cs with
  | nil => rfl
  | cons c cs => exact if_neg List.not_mem_nil

theorem Lexed.eq_mark {ls : List (List Char)} (h : Lexed .single ls) {x : List Char} (hx : x ∈ ls)
    {c : Char} (hc : isMarkChar c = true) (hhead : x.head? = some c) : x = [c] := by
  induction h with
  | nil => cases hx
  | @cons y ls hy h ih =>
    rcases List.mem_cons.1 hx with rfl | hx
    · cases hy with
      | word w =>
        have hword := List.all_eq_true.1 w.isWord c (List.mem_of_mem_head? hhead)
        exact absurd ((isMarkChar_iff.1 hc).2.1.symm.trans hword) Bool.false_ne_true
      | literal hquote body =>
        cases hhead
        exact absurd ((isMarkChar_iff.1 hc).2.2.symm.trans hquote) Bool.false_ne_true
      | operator hmark hmunch =>
        cases hhead
        rw [munch_single] at hmunch
        rw [(Prod.mk.inj hmunch).2]
    · exact ih hx
  | @unclosed y h hquote =>
    obtain rfl := List.mem_singleton.1 hx
    rw [hhead, Option.any_some] at hquote
    exact absurd ((isMarkChar_iff.1 hc).2.2.symm.trans hquote) Bool.false_ne_true

/-- No slash is next to a slash or to a star once comments and blanks are gone. -/
def SlashesApart (ls : List (List Char)) : Prop :=
  ls.IsChain fun x y => ¬ (x = ['/'] ∧ (y = ['/'] ∨ y = ['*']))

instance (ls : List (List Char)) : Decidable (SlashesApart ls) :=
  inferInstanceAs (Decidable (ls.IsChain fun x y => ¬ (x = ['/'] ∧ (y = ['/'] ∨ y = ['*']))))

theorem lexemes_minify {text : String} (h : SlashesApart (lexemes .single text.toList)) :
    lexemes .single (minify text).toList = lexemes .single text.toList := by
  have hlexed : Lexed .single (lexemes .single text.toList) := (reading_lexemes _ _).lexed
  have hchain : (lexemes .single text.toList).IsChain
      fun x y => Unjoined .single x y ∧ ¬ OpensComment x y := by
    refine h.imp_of_mem_imp fun x y _ hy hxy => ⟨List.not_mem_nil, ?_⟩
    rintro ⟨hslash, hnext⟩
    exact hxy ⟨hslash, hnext.imp (hlexed.eq_mark hy (by decide)) (hlexed.eq_mark hy (by decide))⟩
  rw [toList_minify .single, (hlexed.reading hchain).lexemes_eq]

/-- Minifying keeps the lexemes unless it makes a comment of what is none, and what it leaves
depends on them alone. -/
theorem minify_normalForm {text : String} (h : SlashesApart (lexemes .single text.toList)) :
    lexemes .single (minify text).toList = lexemes .single text.toList ∧
      minify (minify text) = minify text ∧
        (minify text).toList = spaced (lexemes .single text.toList) := by
  refine ⟨lexemes_minify h, ?_, toList_minify .single text⟩
  rw [minify_eq .single (minify text), lexemes_minify h, ← minify_eq]

theorem minify_normalForm_unclosed :
    let text := "a / // b\n/**/ + é 'c\\"
    SlashesApart (lexemes .single text.toList) ∧ minify text = "a/+é'c\\" ∧
      minify (minify text) = minify text := by
  intro text
  have h : SlashesApart (lexemes .single text.toList) := by decide +kernel
  exact ⟨h, by decide +kernel, (minify_normalForm h).2.1⟩

end ContractBuild.Source
