import ContractBuild.Proofs.Lexing

/-! The declarations of a text as a scan of its tokens. A declaration that is closed is found
whatever follows it, and what is found in front of a word does not change with that word. -/

namespace ContractBuild.Source

def Declaration.shift (k : Nat) (d : Declaration) : Declaration :=
  { d with start := d.start + k, stop := d.stop + k }

def Token.moved (f : Nat → Nat) (t : Token) : Token := ⟨t.lexeme, f t.start, f t.stop⟩

def Declaration.moved (f : Nat → Nat) (d : Declaration) : Declaration :=
  { d with start := f d.start, stop := f d.stop }

/-- How many tokens are passed over, how many braces are open, and the token before. -/
structure Scope where
  skip : Nat
  depth : Nat
  previous : Option Token

def Scope.shift (k : Nat) (s : Scope) : Scope := ⟨s.skip, s.depth, s.previous.map (·.shift k)⟩

def Scope.moved (f : Nat → Nat) (s : Scope) : Scope := ⟨s.skip, s.depth, s.previous.map (·.moved f)⟩

def Scope.start : Scope := ⟨0, 0, none⟩

def outliner (n : Nat) : Scanner Scope Token Declaration
  | ⟨skip + 1, depth, _⟩, t, _ => (none, ⟨skip, depth, some t⟩)
  | ⟨0, depth, previous⟩, t, rest =>
    if t.lexeme = .mark openBrace then (none, ⟨0, depth + 1, some t⟩)
    else if t.lexeme = .mark closeBrace then (none, ⟨0, depth - 1, some t⟩)
    else if depth = 0 then
      match declarationAt? n previous t rest with
      | some (d, k) => (some d, ⟨k, 0, some t⟩)
      | none => (none, ⟨0, 0, some t⟩)
    else (none, ⟨0, depth, some t⟩)

theorem declarationsOnto_eq_run (n : Nat) (found : List Declaration) (skip depth : Nat)
    (previous : Option Token) (ts : List Token) :
    declarationsOnto n found skip depth previous ts =
      found.reverse ++ (outliner n).run ⟨skip, depth, previous⟩ ts := by
  induction ts generalizing found skip depth previous with
  | nil => rw [declarationsOnto, Scanner.run, List.append_nil]
  | cons t rest ih =>
    unfold declarationsOnto
    rw [Scanner.run]
    cases skip with
    | succ skip => exact ih ..
    | zero =>
      simp only [outliner]
      by_cases hopen : t.lexeme = .mark openBrace
      · simp only [if_pos hopen]
        exact ih ..
      · by_cases hclose : t.lexeme = .mark closeBrace
        · simp only [if_neg hopen, if_pos hclose]
          exact ih ..
        · by_cases hdepth : depth = 0
          · simp only [if_neg hopen, if_neg hclose, if_pos hdepth]
            cases declarationAt? n previous t rest with
            | none => exact ih ..
            | some e =>
              refine (ih ..).trans ?_
              rw [List.reverse_cons, List.append_assoc]
              rfl
          · simp only [if_neg hopen, if_neg hclose, if_neg hdepth]
            exact ih ..

theorem declarations_eq_run (text : List UInt8) :
    declarations text = (outliner text.length).run Scope.start (tokens text) := by
  rw [declarations, declarationsOnto_eq_run]
  rfl

/-! ### One declaration -/

theorem bodyEnd_cases (n depth count : Nat) (ts : List Token) :
    (∃ inner c rest, ts = inner ++ c :: rest ∧ c.lexeme = .mark closeBrace ∧
      ∀ n' rest', bodyEnd n' depth count (inner ++ c :: rest') =
        ⟨c.stop, count + inner.length + 1⟩) ∨
    bodyEnd n depth count ts = ⟨n, count + ts.length⟩ := by
  induction ts generalizing depth count with
  | nil => exact Or.inr rfl
  | cons t rest ih =>
    -- A token inside of the body is passed over, whatever it does to the depth.
    have hinside : ∀ depth', (∀ n' ts', bodyEnd n' depth count (t :: ts') =
        bodyEnd n' depth' (count + 1) ts') →
        (∃ inner c more, t :: rest = inner ++ c :: more ∧ c.lexeme = .mark closeBrace ∧
          ∀ n' rest', bodyEnd n' depth count (inner ++ c :: rest') =
            ⟨c.stop, count + inner.length + 1⟩) ∨
        bodyEnd n depth count (t :: rest) = ⟨n, count + (t :: rest).length⟩ := by
      intro depth' hstep
      rcases ih depth' (count + 1) with ⟨inner, c, more, rfl, hc, hend⟩ | hend
      · refine Or.inl ⟨t :: inner, c, more, rfl, hc, fun n' rest' => ?_⟩
        rw [List.cons_append, hstep, hend, List.length_cons, Nat.add_assoc count, Nat.add_comm 1]
      · refine Or.inr ?_
        rw [hstep, hend, List.length_cons, Nat.add_assoc, Nat.add_comm 1]
    by_cases hopen : t.lexeme = .mark openBrace
    · exact hinside (depth + 1) fun n' ts' => by rw [bodyEnd, if_pos hopen]
    · by_cases hclose : t.lexeme = .mark closeBrace
      · by_cases hdepth : depth ≤ 1
        · refine Or.inl ⟨[], t, rest, rfl, hclose, fun n' rest' => ?_⟩
          rw [List.nil_append, bodyEnd, if_neg hopen, if_pos hclose, if_pos hdepth]
          rfl
        · exact hinside (depth - 1) fun n' ts' => by
            rw [bodyEnd, if_neg hopen, if_pos hclose, if_neg hdepth]
      · exact hinside depth fun n' ts' => by rw [bodyEnd, if_neg hopen, if_neg hclose]

theorem headingAndBody_cases (n : Nat) (h : Heading) (count : Nat) (ts : List Token) :
    ∃ heading, (∃ inner c rest, ts = inner ++ c :: rest ∧ c.lexeme = .mark closeBrace ∧
        ∀ n' rest', headingAndBody n' h count (inner ++ c :: rest') =
          (heading, ⟨c.stop, count + inner.length + 1⟩)) ∨
      headingAndBody n h count ts = (heading, ⟨n, count + ts.length⟩) := by
  induction ts generalizing h count with
  | nil => exact ⟨h, Or.inr rfl⟩
  | cons t rest ih =>
    by_cases hbody : t.lexeme = .mark openBrace ∧ h.parens = 0
    · refine ⟨h, (bodyEnd_cases n 1 (count + 1) rest).imp ?_ fun hend => ?_⟩
      · rintro ⟨inner, c, more, rfl, hc, hend⟩
        refine ⟨t :: inner, c, more, rfl, hc, fun n' rest' => ?_⟩
        rw [List.cons_append, headingAndBody, if_pos hbody, hend, List.length_cons,
          Nat.add_assoc count, Nat.add_comm 1]
      · rw [headingAndBody, if_pos hbody, hend, List.length_cons, Nat.add_assoc, Nat.add_comm 1]
    · obtain ⟨heading, hcases⟩ := ih (h.take t.lexeme) (count + 1)
      refine ⟨heading, hcases.imp ?_ fun hend => ?_⟩
      · rintro ⟨inner, c, more, rfl, hc, hend⟩
        refine ⟨t :: inner, c, more, rfl, hc, fun n' rest' => ?_⟩
        rw [List.cons_append, headingAndBody, if_neg hbody, hend, List.length_cons,
          Nat.add_assoc count, Nat.add_comm 1]
      · rw [headingAndBody, if_neg hbody, hend, List.length_cons, Nat.add_assoc, Nat.add_comm 1]

theorem declarationAt?_cons {n : Nat} {p : Option Token} {t s : Token} {w v : String}
    (ht : t.lexeme = .word w) (hs : s.lexeme = .word v) (rest : List Token) :
    declarationAt? n p t (s :: rest) = (kindOf? w (isAbstract p)).map fun kind =>
      (⟨v, kind, (headingAndBody n .empty 1 rest).1.bases.reverse,
        if isAbstract p then (p.map (·.start)).getD t.start else t.start,
        (headingAndBody n .empty 1 rest).2.stop⟩, (headingAndBody n .empty 1 rest).2.count) := by
  obtain ⟨_, start, stop⟩ := s
  cases hs
  unfold declarationAt?
  simp only [ht]
  cases kindOf? w (isAbstract p) with
  | none => rfl
  | some kind => cases p <;> rfl

theorem words_of_declarationAt? {n : Nat} {p : Option Token} {t : Token} {rest : List Token}
    {e : Declaration × Nat} (h : declarationAt? n p t rest = some e) :
    ∃ w s v more, t.lexeme = .word w ∧ rest = s :: more ∧ s.lexeme = .word v := by
  unfold declarationAt? at h
  split at h
  · rename_i w v _ _ more ht
    exact ⟨w, _, v, more, ht, rfl, rfl⟩
  · cases h

theorem declarationAt?_eq_none_iff {n : Nat} {p : Option Token} {t : Token} {rest : List Token} :
    declarationAt? n p t rest = none ↔
      ∀ w v, t.lexeme = .word w → rest.head?.map (·.lexeme) = some (.word v) →
        kindOf? w (isAbstract p) = none := by
  constructor
  · intro h w v ht hv
    obtain ⟨s, hs, hlexeme⟩ := Option.map_eq_some_iff.1 hv
    obtain ⟨more, rfl⟩ := List.head?_eq_some_iff.1 hs
    rw [declarationAt?_cons ht hlexeme, Option.map_eq_none_iff] at h
    exact h
  · intro h
    cases he : declarationAt? n p t rest with
    | none => rfl
    | some e =>
      obtain ⟨w, s, v, more, ht, rfl, hv⟩ := words_of_declarationAt? he
      rw [declarationAt?_cons ht hv, h w v ht (congrArg some hv)] at he
      cases he

theorem declarationAt?_cases {n k : Nat} {p : Option Token} {t : Token} {rest : List Token}
    {d : Declaration} (h : declarationAt? n p t rest = some (d, k)) :
    (∃ inner c after, rest = inner ++ c :: after ∧ c.lexeme = .mark closeBrace ∧ d.stop = c.stop ∧
      k = inner.length + 1 ∧ ∀ n' after', declarationAt? n' p t (inner ++ c :: after') = some (d, k)) ∨
    d.stop = n ∧ k = rest.length := by
  obtain ⟨w, s, v, more, ht, rfl, hs⟩ := words_of_declarationAt? h
  have hd := (declarationAt?_cons ht hs more).symm.trans h
  obtain ⟨kind, hkind, he⟩ := Option.map_eq_some_iff.1 hd
  obtain ⟨heading, ⟨inner, c, after, rfl, hc, hend⟩ | hend⟩ := headingAndBody_cases n .empty 1 more
  · refine Or.inl ⟨s :: inner, c, after, rfl, hc, ?_, ?_, fun n' after' => ?_⟩
    · rw [hend] at he
      cases he
      rfl
    · rw [hend] at he
      cases he
      rw [List.length_cons, Nat.add_comm 1]
    · rw [List.cons_append, declarationAt?_cons ht hs, hkind, ← he, hend, hend]
      rfl
  · rw [hend] at he
    cases he
    exact Or.inr ⟨rfl, by rw [List.length_cons, Nat.add_comm]⟩

theorem declarationAt?_within {n k : Nat} {p : Option Token} {a t : Token} {ts rest : List Token}
    {d : Declaration} (h : declarationAt? n p a (ts ++ t :: rest) = some (d, k)) (hk : k ≤ ts.length) :
    (∃ c ∈ ts, c.lexeme = .mark closeBrace ∧ d.stop = c.stop) ∧
      ∀ n' rest', declarationAt? n' p a (ts ++ rest') = some (d, k) := by
  rcases declarationAt?_cases h with ⟨inner, c, after, hsplit, hc, hstop, hlength, hsame⟩ | ⟨-, hall⟩
  · have hinner : inner ++ [c] <+: ts := by
      have hleft : inner ++ [c] <+: ts ++ t :: rest :=
        ⟨after, by rw [hsplit, List.append_assoc, List.singleton_append]⟩
      refine List.prefix_of_prefix_length_le hleft (List.prefix_append _ _) ?_
      rw [List.length_append, List.length_singleton, ← hlength]
      exact hk
    obtain ⟨more, rfl⟩ := hinner
    refine ⟨⟨c, by simp, hc, hstop⟩, fun n' rest' => ?_⟩
    rw [List.append_assoc, List.append_assoc, List.singleton_append, hsame]
  · rw [hall, List.length_append, List.length_cons] at hk
    omega

theorem kindOf?_abstract (a : Bool) : kindOf? "abstract" a = none := by cases a <;> decide

theorem not_isAbstract_of_declarationAt? {n : Nat} {p : Option Token} {t : Token} {rest : List Token}
    {e : Declaration × Nat} (h : declarationAt? n p t rest = some e) : isAbstract (some t) = false := by
  obtain ⟨w, s, v, more, ht, rfl, hs⟩ := words_of_declarationAt? h
  rw [declarationAt?_cons ht hs] at h
  obtain ⟨kind, hkind, -⟩ := Option.map_eq_some_iff.1 h
  rw [isAbstract, Option.any_some, ht, beq_eq_false_iff_ne]
  rintro hw
  cases hw
  rw [kindOf?_abstract] at hkind
  cases hkind

theorem start_of_declarationAt? {n k : Nat} {p : Option Token} {t : Token} {rest : List Token}
    {d : Declaration} (h : declarationAt? n p t rest = some (d, k)) :
    (∃ a, p = some a ∧ a.lexeme = .word "abstract" ∧ d.start = a.start) ∨
      isAbstract p = false ∧ d.start = t.start := by
  obtain ⟨w, s, v, more, ht, rfl, hs⟩ := words_of_declarationAt? h
  rw [declarationAt?_cons ht hs] at h
  obtain ⟨kind, hkind, he⟩ := Option.map_eq_some_iff.1 h
  cases ha : isAbstract p with
  | false =>
    rw [ha] at he
    cases he
    exact Or.inr ⟨rfl, rfl⟩
  | true =>
    rw [ha] at he
    cases he
    cases p with
    | none => cases ha
    | some a => exact Or.inl ⟨a, rfl, beq_iff_eq.1 ha, rfl⟩

theorem declarationAt?_previous {n : Nat} {p q : Option Token} (hp : isAbstract p = false)
    (hq : isAbstract q = false) (t : Token) (rest : List Token) :
    declarationAt? n p t rest = declarationAt? n q t rest := by
  cases he : declarationAt? n p t rest with
  | none =>
    rw [declarationAt?_eq_none_iff, hp] at he
    rw [eq_comm, declarationAt?_eq_none_iff, hq]
    exact he
  | some e =>
    obtain ⟨w, s, v, more, ht, rfl, hs⟩ := words_of_declarationAt? he
    rw [← he, declarationAt?_cons ht hs, declarationAt?_cons ht hs, hp, hq]
    rfl

/-! ### Moving along the text -/

section Moved

variable (f : Nat → Nat)

@[simp] theorem Token.moved_lexeme (t : Token) : (t.moved f).lexeme = t.lexeme := rfl

theorem bodyEnd_moved (n depth count : Nat) (ts : List Token) :
    bodyEnd (f n) depth count (ts.map (·.moved f)) =
      ⟨f (bodyEnd n depth count ts).stop, (bodyEnd n depth count ts).count⟩ := by
  induction ts generalizing depth count with
  | nil => rfl
  | cons t rest ih =>
    simp only [List.map_cons, bodyEnd, Token.moved_lexeme, ih]
    by_cases hopen : t.lexeme = .mark openBrace
    · simp only [if_pos hopen]
    · by_cases hclose : t.lexeme = .mark closeBrace
      · by_cases hdepth : depth ≤ 1
        · simp only [if_neg hopen, if_pos hclose, if_pos hdepth]
          rfl
        · simp only [if_neg hopen, if_pos hclose, if_neg hdepth]
      · simp only [if_neg hopen, if_neg hclose]

theorem headingAndBody_moved (n : Nat) (h : Heading) (count : Nat) (ts : List Token) :
    headingAndBody (f n) h count (ts.map (·.moved f)) =
      ((headingAndBody n h count ts).1,
        ⟨f (headingAndBody n h count ts).2.stop, (headingAndBody n h count ts).2.count⟩) := by
  induction ts generalizing h count with
  | nil => rfl
  | cons t rest ih =>
    simp only [List.map_cons, headingAndBody, Token.moved_lexeme, ih, bodyEnd_moved]
    by_cases hbody : t.lexeme = .mark openBrace ∧ h.parens = 0
    · simp only [if_pos hbody]
    · simp only [if_neg hbody]

theorem isAbstract_moved (p : Option Token) : isAbstract (p.map (·.moved f)) = isAbstract p := by
  cases p <;> rfl

theorem declarationAt?_moved (n : Nat) (p : Option Token) (t : Token) (rest : List Token) :
    declarationAt? (f n) (p.map (·.moved f)) (t.moved f) (rest.map (·.moved f)) =
      (declarationAt? n p t rest).map fun e => (e.1.moved f, e.2) := by
  cases he : declarationAt? n p t rest with
  | none =>
    rw [declarationAt?_eq_none_iff] at he
    rw [Option.map_none, declarationAt?_eq_none_iff, isAbstract_moved, List.head?_map]
    intro w v ht hv
    refine he w v ht ?_
    rw [← hv, Option.map_map]
    rfl
  | some e =>
    obtain ⟨w, s, v, more, ht, rfl, hs⟩ := words_of_declarationAt? he
    rw [← he, declarationAt?_cons ht hs, List.map_cons,
      declarationAt?_cons (t := t.moved f) (s := s.moved f) ht hs, isAbstract_moved,
      headingAndBody_moved]
    cases kindOf? w (isAbstract p) with
    | none => rfl
    | some kind => cases p <;> cases isAbstract _ <;> rfl

theorem outliner_moved (n : Nat) (s : Scope) (t : Token) (rest : List Token) :
    outliner (f n) (s.moved f) (t.moved f) (rest.map (·.moved f)) =
      ((outliner n s t rest).1.map (·.moved f), (outliner n s t rest).2.moved f) := by
  obtain ⟨skip, depth, p⟩ := s
  cases skip with
  | succ skip => rfl
  | zero =>
    simp only [Scope.moved, outliner, declarationAt?_moved, Token.moved_lexeme]
    by_cases hopen : t.lexeme = .mark openBrace
    · simp only [if_pos hopen]
      rfl
    · by_cases hclose : t.lexeme = .mark closeBrace
      · simp only [if_neg hopen, if_pos hclose]
        rfl
      · by_cases hdepth : depth = 0
        · simp only [if_neg hopen, if_neg hclose, if_pos hdepth]
          cases declarationAt? n p t rest <;> rfl
        · simp only [if_neg hopen, if_neg hclose, if_neg hdepth]
          rfl

theorem run_outliner_moved (n : Nat) (s : Scope) (ts : List Token) :
    (outliner (f n)).run (s.moved f) (ts.map (·.moved f)) =
      ((outliner n).run s ts).map (·.moved f) :=
  Scanner.run_map (Scope.moved f) (Token.moved f) (Declaration.moved f) (outliner_moved f n) s ts

end Moved

theorem declarationAt?_shift (k n : Nat) (p : Option Token) (t : Token) (rest : List Token) :
    declarationAt? (n + k) (p.map (·.shift k)) (t.shift k) (rest.map (·.shift k)) =
      (declarationAt? n p t rest).map fun e => (e.1.shift k, e.2) :=
  declarationAt?_moved (· + k) n p t rest

theorem run_outliner_shift (k n : Nat) (s : Scope) (ts : List Token) :
    (outliner (n + k)).run (s.shift k) (ts.map (·.shift k)) =
      ((outliner n).run s ts).map (·.shift k) :=
  run_outliner_moved (· + k) n s ts

/-! ### Scans of the tokens -/

theorem outliner_eq {n k : Nat} {p : Option Token} {t : Token} {rest : List Token} {d : Declaration}
    (h : declarationAt? n p t rest = some (d, k)) :
    outliner n ⟨0, 0, p⟩ t rest = (some d, ⟨k, 0, some t⟩) := by
  obtain ⟨w, s, v, more, ht, rfl, hs⟩ := words_of_declarationAt? h
  have hmark : ∀ b, t.lexeme ≠ .mark b := fun b hb => nomatch ht.symm.trans hb
  simp only [outliner, if_neg (hmark openBrace), if_neg (hmark closeBrace), if_pos, h]

theorem declarationAt?_of_outliner {n : Nat} {s : Scope} {t : Token} {rest : List Token}
    {d : Declaration} (h : (outliner n s t rest).1 = some d) :
    ∃ p k, s = ⟨0, 0, p⟩ ∧ declarationAt? n p t rest = some (d, k) := by
  obtain ⟨skip, depth, p⟩ := s
  cases skip with
  | succ skip => cases h
  | zero =>
    simp only [outliner] at h
    split at h
    · cases h
    · split at h
      · cases h
      · split at h
        · rename_i hdepth
          cases he : declarationAt? n p t rest with
          | none => rw [he] at h; cases h
          | some e =>
            rw [he] at h
            cases h
            exact ⟨p, e.2, by rw [hdepth], he⟩
        · cases h

theorem previous_outliner (n : Nat) (s : Scope) (t : Token) (rest : List Token) :
    (outliner n s t rest).2.previous = some t := by
  obtain ⟨skip, depth, p⟩ := s
  cases skip with
  | succ skip => rfl
  | zero =>
    simp only [outliner]
    split
    · rfl
    · split
      · rfl
      · split
        · split <;> rfl
        · rfl

theorem previous_reach (n : Nat) (rest : List Token) (s : Scope) (ts : List Token) :
    ((outliner n).reach rest s ts).previous = ts.getLast?.or s.previous := by
  induction ts generalizing s with
  | nil => rfl
  | cons t ts ih =>
    rw [Scanner.reach, ih, previous_outliner, List.getLast?_cons]
    cases ts.getLast? <;> rfl

theorem skip_le_of_reach_outliner {n : Nat} {rest : List Token} {s : Scope} {ts : List Token}
    (h : ((outliner n).reach rest s ts).skip = 0) : s.skip ≤ ts.length := by
  induction ts generalizing s with
  | nil => exact Nat.le_of_eq h
  | cons t ts ih =>
    obtain ⟨skip, depth, p⟩ := s
    cases skip with
    | zero => exact Nat.zero_le _
    | succ skip => exact Nat.succ_le_succ (ih (s := ⟨skip, depth, some t⟩) h)

theorem run_skip (n : Nat) (p : Option Token) (c : Token) (inner rest : List Token) :
    (outliner n).run ⟨inner.length + 1, 0, p⟩ (inner ++ c :: rest) =
      (outliner n).run ⟨0, 0, some c⟩ rest := by
  induction inner generalizing p with
  | nil => rfl
  | cons t inner ih => exact ih (some t)

theorem run_skip_all (n : Nat) (p : Option Token) (ts : List Token) :
    (outliner n).run ⟨ts.length, 0, p⟩ ts = [] := by
  induction ts generalizing p with
  | nil => rfl
  | cons t ts ih => exact ih (some t)

theorem run_previous {n : Nat} {p q : Option Token} (hp : isAbstract p = false)
    (hq : isAbstract q = false) (depth : Nat) (ts : List Token) :
    (outliner n).run ⟨0, depth, p⟩ ts = (outliner n).run ⟨0, depth, q⟩ ts := by
  cases ts with
  | nil => rfl
  | cons t rest => simp only [Scanner.run, outliner, declarationAt?_previous hp hq]

theorem outliner_exchange {n n' : Nat} {s : Scope} {a t t' : Token} {ts rest rest' : List Token}
    {w : String} (ht : t.lexeme = .word w)
    (h : (outliner n s a (ts ++ t :: rest)).2.skip ≤ ts.length) :
    outliner n' s a (ts ++ t' :: rest') = outliner n s a (ts ++ t :: rest) := by
  obtain ⟨skip, depth, p⟩ := s
  cases skip with
  | succ skip => rfl
  | zero =>
    simp only [outliner] at h ⊢
    by_cases hopen : a.lexeme = .mark openBrace
    · simp only [if_pos hopen]
    · by_cases hclose : a.lexeme = .mark closeBrace
      · simp only [if_neg hopen, if_pos hclose]
      · by_cases hdepth : depth = 0
        · simp only [if_neg hopen, if_neg hclose, if_pos hdepth] at h ⊢
          cases he : declarationAt? n p a (ts ++ t :: rest) with
          | none =>
            -- That nothing is declared is seen from the next token, which is a word in both.
            have he' : declarationAt? n' p a (ts ++ t' :: rest') = none := by
              rw [declarationAt?_eq_none_iff] at he ⊢
              intro v u hv hu
              cases ts with
              | nil => exact he v w hv (congrArg some ht)
              | cons b ts => exact he v u hv hu
            rw [he']
          | some e =>
            obtain ⟨d, k⟩ := e
            rw [he] at h
            rw [(declarationAt?_within he h).2]
        · simp only [if_neg hopen, if_neg hclose, if_neg hdepth]

theorem before_exchange {n : Nat} {t : Token} {rest ts : List Token} {w : String}
    (ht : t.lexeme = .word w) (h : ((outliner n).reach (t :: rest) Scope.start ts).skip = 0)
    (n' : Nat) (t' : Token) (rest' : List Token) :
    (outliner n').before (t' :: rest') Scope.start ts =
        (outliner n).before (t :: rest) Scope.start ts ∧
      (outliner n').reach (t' :: rest') Scope.start ts =
        (outliner n).reach (t :: rest) Scope.start ts :=
  Scanner.transfer (fun s : Scope => s.skip = 0)
    (fun _ _ _ hl => outliner_exchange ht (skip_le_of_reach_outliner hl)) h

theorem bounds_before {n : Nat} {t : Token} {rest ts : List Token}
    (h : ((outliner n).reach (t :: rest) Scope.start ts).skip = 0) {d : Declaration}
    (hd : d ∈ (outliner n).before (t :: rest) Scope.start ts) :
    (∃ a ∈ ts, d.start = a.start) ∧ ∃ c ∈ ts, c.lexeme = .mark closeBrace ∧ d.stop = c.stop := by
  obtain ⟨front, a, inside, rfl, hstep, hreach⟩ := Scanner.mem_before hd
  obtain ⟨p, k, hs, he⟩ := declarationAt?_of_outliner hstep
  have hp := previous_reach n (a :: inside ++ t :: rest) Scope.start front
  rw [hs, outliner_eq he] at hreach
  rw [hs] at hp
  rw [← hreach] at h
  obtain ⟨⟨c, hc, hclose, hstop⟩, -⟩ := declarationAt?_within he (skip_le_of_reach_outliner h)
  refine ⟨?_, c, by simp [hc], hclose, hstop⟩
  rcases start_of_declarationAt? he with ⟨b, rfl, -, hstart⟩ | ⟨-, hstart⟩
  · rw [eq_comm, Scope.start, Option.or_none] at hp
    exact ⟨b, List.mem_append_left _ (List.mem_of_getLast? hp), hstart⟩
  · exact ⟨a, by simp, hstart⟩

end ContractBuild.Source
