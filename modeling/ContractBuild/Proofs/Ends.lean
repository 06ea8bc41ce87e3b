import ContractBuild.Proofs.Minifying

/-! Places in the bytes of a text: where a comment, a literal or a word ends that begins at a place.
Each of them ends behind its beginning, next to an ASCII byte or with the text, and lengths counted
from the beginning lead there. -/

namespace ContractBuild.Source

def lineEnd (text : List UInt8) (pos : Nat) : Nat :=
  ((text.drop pos).findIdx? (· == newline)).elim text.length (pos + ·)

def blockEnd (text : List UInt8) (pos : Nat) : Nat :=
  (((text.drop pos).zip (text.drop pos).tail).findIdx? (· == (star, slash))).elim text.length
    (pos + · + 2)

def commentEnd? (text : List UInt8) (pos : Nat) : Option Nat :=
  if text[pos]? = some slash then
    if text[pos + 1]? = some slash then some (lineEnd text pos)
    else if text[pos + 1]? = some star then some (blockEnd text (pos + 2))
    else none
  else none

def quoteEnd (text : List UInt8) (quote : UInt8) (pos : Nat) : Nat :=
  if h : pos < text.length then
    if text[pos] = backslash then quoteEnd text quote (pos + 2)
    else if text[pos] = quote then pos + 1
    else quoteEnd text quote (pos + 1)
  else text.length
termination_by text.length - pos

def literalEnd? (text : List UInt8) (pos : Nat) : Option Nat :=
  text[pos]?.bind fun b => if isQuote b then some (quoteEnd text b (pos + 1)) else none

def wordEnd (text : List UInt8) (pos : Nat) : Nat :=
  pos + ((text.drop pos).takeWhile isWordByte).length

/-- The end of a text, and each place next to an ASCII byte. -/
inductive Edge (text : List UInt8) : Nat → Prop
  | atEnd : Edge text text.length
  | before {pos : Nat} {b : UInt8} (h : text[pos]? = some b) (hb : b.toNat < 128) : Edge text pos
  | behind {pos : Nat} {b : UInt8} (h : text[pos]? = some b) (hb : b.toNat < 128) :
      Edge text (pos + 1)

section Ends

variable {text rest : List UInt8} {pos stop : Nat} {b : UInt8}

theorem lt_of_getElem? (h : text[pos]? = some b) : pos < text.length :=
  (List.getElem?_eq_some_iff.1 h).1

theorem Edge.le_length (h : Edge text pos) : pos ≤ text.length := by
  cases h with
  | atEnd => exact Nat.le_refl _
  | before h hb => exact Nat.le_of_lt (lt_of_getElem? h)
  | behind h hb => exact lt_of_getElem? h

theorem lineEnd_cases (text : List UInt8) (pos : Nat) :
    lineEnd text pos = text.length ∨
      pos ≤ lineEnd text pos ∧ text[lineEnd text pos]? = some newline := by
  rw [lineEnd]
  cases hi : (text.drop pos).findIdx? (· == newline) with
  | none => exact Or.inl rfl
  | some i =>
    obtain ⟨hlt, hnewline, -⟩ := List.findIdx?_eq_some_iff_getElem.1 hi
    refine Or.inr ⟨Nat.le_add_right pos i, ?_⟩
    rw [Option.elim_some, ← List.getElem?_drop, List.getElem?_eq_getElem hlt, eq_of_beq hnewline]

theorem blockEnd_cases (text : List UInt8) (pos : Nat) :
    blockEnd text pos = text.length ∨
      ∃ i, pos ≤ i ∧ blockEnd text pos = i + 1 ∧ text[i]? = some slash := by
  rw [blockEnd]
  cases hi : ((text.drop pos).zip (text.drop pos).tail).findIdx? (· == (star, slash)) with
  | none => exact Or.inl rfl
  | some i =>
    obtain ⟨hlt, hclose, -⟩ := List.findIdx?_eq_some_iff_getElem.1 hi
    have hpair := eq_of_beq hclose
    rw [List.getElem_zip, Prod.mk.injEq] at hpair
    refine Or.inr ⟨pos + (i + 1), Nat.le_add_right _ _, rfl, ?_⟩
    rw [← List.getElem?_drop, ← List.getElem?_tail, ← hpair.2]
    exact List.getElem?_eq_getElem _

theorem commentEnd?_edge (h : commentEnd? text pos = some stop) : pos < stop ∧ Edge text stop := by
  unfold commentEnd? at h
  split_ifs at h with hslash hline hblock
  · cases h
    rcases lineEnd_cases text pos with hend | ⟨hle, hnewline⟩
    · rw [hend]
      exact ⟨lt_of_getElem? hslash, .atEnd⟩
    · refine ⟨Nat.lt_of_le_of_ne hle fun hpos => ?_, .before hnewline (by decide)⟩
      rw [← hpos, hslash] at hnewline
      exact absurd (Option.some_inj.1 hnewline) (by decide)
  · cases h
    rcases blockEnd_cases text (pos + 2) with hend | ⟨i, hle, hend, hbyte⟩
    · rw [hend]
      exact ⟨lt_of_getElem? hslash, .atEnd⟩
    · rw [hend]
      exact ⟨by omega, .behind hbyte (by decide)⟩

theorem quoteEnd_edge {quote : UInt8} (hquote : quote.toNat < 128) (text : List UInt8) (pos : Nat) :
    min pos text.length ≤ quoteEnd text quote pos ∧ Edge text (quoteEnd text quote pos) := by
  fun_induction quoteEnd text quote pos with
  | case1 pos h hbackslash ih => exact ⟨by omega, ih.2⟩
  | case2 pos h hbackslash hend =>
    have hbyte : text[pos]? = some quote := by rw [List.getElem?_eq_getElem h, hend]
    exact ⟨by omega, .behind hbyte hquote⟩
  | case3 pos h hbackslash hend ih => exact ⟨by omega, ih.2⟩
  | case4 pos h => exact ⟨Nat.min_le_right _ _, .atEnd⟩

theorem toNat_lt_of_isQuote (h : isQuote b = true) : b.toNat < 128 := by
  by_contra hb
  exact Bool.false_ne_true ((high_excludes (Nat.not_lt.1 hb)).1.2.1.symm.trans h)

theorem toNat_lt_of_isBlank (h : isBlank b = true) : b.toNat < 128 := by
  by_contra hb
  exact Bool.false_ne_true ((high_excludes (Nat.not_lt.1 hb)).1.2.2.symm.trans h)

theorem literalEnd?_edge (h : literalEnd? text pos = some stop) : pos < stop ∧ Edge text stop := by
  obtain ⟨b, hb, hstop⟩ := Option.bind_eq_some_iff.1 h
  split at hstop
  · rename_i hquote
    cases hstop
    obtain ⟨hle, hedge⟩ := quoteEnd_edge (toNat_lt_of_isQuote hquote) text (pos + 1)
    have hlt := lt_of_getElem? hb
    exact ⟨by omega, hedge⟩
  · cases hstop

theorem wordEnd_edge (hb : text[pos]? = some b) (hword : isWordByte b = true) :
    pos < wordEnd text pos ∧ Edge text (wordEnd text pos) := by
  have hne : (text.drop pos).takeWhile isWordByte ≠ [] := by
    obtain ⟨rest, hrest⟩ := List.head?_eq_some_iff.1 ((List.head?_drop).trans hb)
    rw [hrest, List.takeWhile_cons_of_pos hword]
    exact List.cons_ne_nil _ _
  rw [wordEnd]
  generalize hw : (text.drop pos).takeWhile isWordByte = w at hne
  obtain ⟨last, hlast⟩ := Option.ne_none_iff_exists'.1 (mt List.getLast?_eq_none_iff.1 hne)
  have hpos := List.length_pos_of_ne_nil hne
  have hbyte : text[pos + (w.length - 1)]? = some last := by
    obtain ⟨rest, hrest⟩ : w <+: text.drop pos := hw ▸ List.takeWhile_prefix _
    rw [← List.getElem?_drop, ← hrest, List.getElem?_append_left (by omega),
      ← List.getLast?_eq_getElem?, hlast]
  have hascii : last.toNat < 128 :=
    toNat_lt_of_isWordByte (List.mem_takeWhile_imp (hw ▸ List.mem_of_getLast? hlast))
  have hedge := Edge.behind hbyte hascii
  rw [Nat.add_assoc, Nat.sub_add_cancel hpos] at hedge
  exact ⟨Nat.lt_add_of_pos_right hpos, hedge⟩

/-! ### The same ends by lengths -/

theorem getElem?_of_drop (h : text.drop pos = b :: rest) : text[pos]? = some b := by
  rw [← List.head?_drop, h, List.head?_cons]

theorem drop_of_drop (h : text.drop pos = b :: rest) (n : Nat) :
    text.drop (pos + 1 + n) = rest.drop n := by
  rw [← List.drop_drop, ← List.drop_drop, h, List.drop_one, List.tail_cons]

theorem length_of_drop (h : text.drop pos = b :: rest) : text.length = pos + 1 + rest.length := by
  have hlt := lt_of_getElem? (getElem?_of_drop h)
  have hlength := congrArg List.length h
  rw [List.length_drop, List.length_cons] at hlength
  omega

theorem lineEnd_eq (h : pos ≤ text.length) :
    lineEnd text pos = pos + ((text.drop pos).takeWhile (· != newline)).length := by
  have hlength : ((text.drop pos).takeWhile (· != newline)).length =
      ((text.drop pos).findIdx? (· == newline)).getD (text.drop pos).length := by
    rw [List.takeWhile_eq_take_findIdx_not, List.length_take,
      Nat.min_eq_left List.findIdx_le_length, List.findIdx_eq_getD_findIdx?]
    simp only [bne, Bool.not_not]
  rw [lineEnd, hlength]
  cases (text.drop pos).findIdx? (· == newline) with
  | none =>
    rw [Option.elim_none, Option.getD_none, List.length_drop]
    omega
  | some i => rfl

theorem blockLength_eq (n : Nat) (l : List UInt8) :
    blockLength n l =
      ((l.zip l.tail).findIdx? (· == (star, slash))).elim (n + l.length) (n + · + 2) := by
  induction l generalizing n with
  | nil => rfl
  | cons b l ih =>
    cases l with
    | nil => exact if_neg fun h => nomatch h.2
    | cons c l =>
      rw [blockLength, List.head?_cons, List.tail_cons, List.zip_cons_cons, List.findIdx?_cons]
      by_cases hclose : b = star ∧ c = slash
      · obtain ⟨rfl, rfl⟩ := hclose
        rfl
      · have hpair : ¬ ((b, c) == (star, slash)) = true := fun h =>
          hclose (Prod.mk.inj (eq_of_beq h))
        rw [if_neg fun h => hclose (h.imp_right Option.some_inj.1), if_neg hpair, ih,
          List.tail_cons]
        cases ((c :: l).zip l).findIdx? (· == (star, slash)) with
        | none =>
          simp only [Option.map_none, Option.elim_none, List.length_cons]
          omega
        | some i =>
          simp only [Option.map_some, Option.elim_some]
          omega

theorem blockEnd_eq (h : pos ≤ text.length) (n : Nat) :
    blockEnd text pos + n = pos + blockLength n (text.drop pos) := by
  rw [blockEnd, blockLength_eq]
  cases ((text.drop pos).zip (text.drop pos).tail).findIdx? (· == (star, slash)) with
  | none =>
    rw [Option.elim_none, Option.elim_none, List.length_drop]
    omega
  | some i =>
    rw [Option.elim_some, Option.elim_some]
    omega

theorem quoteEnd_eq (quote : UInt8) (h : pos ≤ text.length) (n : Nat) :
    quoteEnd text quote pos + n = pos + literalLength quote n (text.drop pos) := by
  fun_induction quoteEnd text quote pos generalizing n with
  | case1 pos hlt hbackslash ih =>
    rw [List.drop_eq_getElem_cons hlt, hbackslash]
    cases hrest : text.drop (pos + 1) with
    | nil =>
      -- the backslash is the last byte, and there is none to take along
      have hend := List.drop_eq_nil_iff.1 hrest
      rw [quoteEnd, dif_neg (by omega), literalLength]
      omega
    | cons c rest =>
      have hlength := length_of_drop hrest
      have hdrop : text.drop (pos + 2) = rest := drop_of_drop hrest 0
      have hnext := ih (by omega) (n + 2)
      rw [hdrop] at hnext
      rw [literalLength, if_pos rfl]
      omega
  | case2 pos hlt hbackslash hquote =>
    rw [List.drop_eq_getElem_cons hlt, hquote, literalLength_close (hquote ▸ hbackslash)]
    omega
  | case3 pos hlt hbackslash hquote ih =>
    have hnext := ih hlt (n + 1)
    rw [List.drop_eq_getElem_cons hlt, literalLength_plain hbackslash hquote]
    omega
  | case4 pos hend =>
    rw [List.drop_eq_nil_iff.2 (Nat.not_lt.1 hend), literalLength]
    omega

theorem commentEnd?_eq (h : text.drop pos = b :: rest) :
    commentEnd? text pos = (commentTail? b rest).map (pos + 1 + ·) := by
  have hlength := length_of_drop h
  have hrest : text.drop (pos + 1) = rest := drop_of_drop h 0
  have hnext : text[pos + 1]? = rest.head? := by rw [← List.head?_drop, hrest]
  simp only [commentEnd?, getElem?_of_drop h, hnext, Option.some_inj]
  by_cases hslash : b = slash
  · subst hslash
    cases rest with
    | nil => rfl
    | cons c more =>
      rw [List.length_cons] at hlength
      simp only [commentTail?, if_true, List.head?_cons, Option.some_inj]
      split
      · have hpos : pos ≤ text.length := by omega
        have hline := lineEnd_eq hpos
        rw [h, List.takeWhile_cons_of_pos (by decide), List.length_cons] at hline
        rw [Option.map_some, hline, Nat.add_assoc, Nat.add_comm 1]
      · split
        · have hmore : text.drop (pos + 2) = more := drop_of_drop hrest 0
          have hpos : pos + 2 ≤ text.length := by omega
          have hblock := blockEnd_eq hpos 1
          rw [hmore] at hblock
          have hstop : blockEnd text (pos + 2) = pos + 1 + blockLength 1 more := by omega
          rw [Option.map_some, hstop]
        · rfl
  · have hcomment : commentTail? b rest = none := if_neg hslash
    rw [hcomment, if_neg hslash, Option.map_none]

theorem literalEnd?_eq (h : text.drop pos = b :: rest) :
    literalEnd? text pos = (literalTail? b rest).map (pos + 1 + ·) := by
  have hpos : pos + 1 ≤ text.length := by
    rw [length_of_drop h]
    exact Nat.le_add_right _ _
  have hquote := quoteEnd_eq b hpos 0
  have hrest : text.drop (pos + 1) = rest := drop_of_drop h 0
  rw [Nat.add_zero, hrest] at hquote
  rw [literalEnd?, getElem?_of_drop h, Option.bind_some, literalTail?, hquote]
  split <;> rfl

end Ends

end ContractBuild.Source
