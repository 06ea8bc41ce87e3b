import ContractBuild.Proofs.Scopes

/-! Another declaration is put in the place of one. What is declared before and behind it stays, the
latter moved by the difference of the two lengths. -/

namespace ContractBuild.Source

def opensAbstract (text : List UInt8) : Bool := isAbstract (tokens text).head?

def leading (abstracted : Bool) : List Token :=
  if abstracted then [⟨.word "abstract", 0, 8⟩] else []

/-- A declaration with `k` tokens behind its keyword `t` begins the text. -/
structure BeginsWith (text : List UInt8) (abstracted : Bool) (t : Token) (rest : List Token)
    (d : Declaration) (k : Nat) : Prop where
  tokens_eq : tokens text = leading abstracted ++ t :: rest
  declares : declarationAt? text.length (leading abstracted).getLast? t rest = some (d, k)

theorem start_lt_of_mem_tokens {text : List UInt8} {t : Token} (h : t ∈ tokens text) :
    t.start < text.length := by
  obtain ⟨ts, rest, hts⟩ := List.append_of_mem h
  obtain ⟨before, b, after, rfl, -, -, ht, -⟩ := seam_of_token hts
  rw [(lexer_token ht).1, List.length_append, List.length_cons]
  omega

theorem stop_le_of_mem_tokens {text : List UInt8} {t : Token} (h : t ∈ tokens text)
    (ht : t.lexeme = .mark closeBrace) : t.stop ≤ text.length := by
  obtain ⟨ts, rest, hts⟩ := List.append_of_mem h
  obtain ⟨before, after, rfl, hlength, -⟩ := seam_of_closeBrace hts ht
  rw [← hlength, List.length_append]
  exact Nat.le_add_right ..

theorem run_outliner_at (k n : Nat) (text : List UInt8) (h : n = k + text.length) :
    (outliner n).run Scope.start ((tokens text).map (·.shift k)) =
      (declarations text).map (·.shift k) := by
  rw [h, Nat.add_comm, declarations_eq_run, ← run_outliner_shift]
  rfl

theorem exists_scan_of_mem {text : List UInt8} {d : Declaration} (h : d ∈ declarations text) :
    ∃ ts t rest k, tokens text = ts ++ t :: rest ∧
      (outliner text.length).reach (t :: rest) Scope.start ts = ⟨0, 0, ts.getLast?⟩ ∧
      declarationAt? text.length ts.getLast? t rest = some (d, k) := by
  rw [declarations_eq_run] at h
  obtain ⟨ds, ds', hds⟩ := List.append_of_mem h
  obtain ⟨ts, t, rest, hts, -, hstep, -⟩ := Scanner.run_split hds
  obtain ⟨p, k, hs, he⟩ := declarationAt?_of_outliner hstep
  have hp := previous_reach text.length (t :: rest) Scope.start ts
  rw [hs, Scope.start, Option.or_none] at hp
  cases hp
  exact ⟨ts, t, rest, k, hts, hs, he⟩

def approach (before : List UInt8) (abstracted : Bool) : List Token :=
  tokens before ++ (leading abstracted).map (·.shift before.length)

theorem exists_of_declarationAt?_shift {n m k j : Nat} {p : Option Token} {t : Token}
    {rest : List Token} {d : Declaration}
    (h : declarationAt? n (p.map (·.shift j)) (t.shift j) (rest.map (·.shift j)) = some (d, k))
    (hn : n = m + j) : ∃ d₀, declarationAt? m p t rest = some (d₀, k) ∧ d = d₀.shift j := by
  rw [hn, declarationAt?_shift, Option.map_eq_some_iff] at h
  obtain ⟨⟨d₀, k⟩, he, heq⟩ := h
  cases heq
  exact ⟨d₀, he, rfl⟩

theorem exists_beginsWith {text : List UInt8} {d : Declaration} (h : d ∈ declarations text) :
    ∃ before after a t rest d₀ k, text = before ++ after ∧ before.length = d.start ∧
      BeginsWith after a t rest d₀ k ∧ d = d₀.shift before.length ∧ Seam before after ∧
      BeginsWord after ∧ (a = false → isAbstract (tokens before).getLast? = false) ∧
      (outliner text.length).reach ((t :: rest).map (·.shift before.length)) Scope.start
        (approach before a) = ⟨0, 0, (approach before a).getLast?⟩ := by
  obtain ⟨ts, t, rest, k, hts, hreach, he⟩ := exists_scan_of_mem h
  have hlength : ∀ before after : List UInt8, text = before ++ after →
      text.length = after.length + before.length := by
    rintro before after rfl
    rw [List.length_append, Nat.add_comm]
  rcases start_of_declarationAt? he with ⟨b, hb, hword, hs⟩ | ⟨hp, hs⟩
  · -- the keyword follows `abstract`, with which the declaration begins
    obtain ⟨front, rfl⟩ := List.getLast?_eq_some_iff.1 hb
    rw [List.append_assoc, List.singleton_append] at hts
    obtain ⟨hstop, before, after, htext, hbefore, hseam, hbegins, hfront, hafter⟩ :=
      seam_of_word hts hword
    obtain ⟨b₀, ts₀, hts₀, rfl, h₀⟩ := List.map_eq_cons_iff.1 hafter.symm
    obtain ⟨t₀, rest₀, rfl, rfl, rfl⟩ := List.map_eq_cons_iff.1 h₀
    have hb₀ : b₀ = ⟨.word "abstract", 0, 8⟩ := by
      obtain ⟨lexeme, start, stop⟩ := b₀
      cases hword
      have hlen : ("abstract" : String).length = 8 := by decide
      simp only [Token.shift, hlen] at hstop hbefore
      rw [show start = 0 by omega, show stop = 8 by omega]
    rw [hb] at he
    obtain ⟨d₀, he₀, rfl⟩ :=
      exists_of_declarationAt?_shift (p := some b₀) he (hlength before after htext)
    subst hb₀
    have happroach : approach before true =
        front ++ [Token.shift before.length ⟨.word "abstract", 0, 8⟩] := by
      rw [approach, hfront]
      rfl
    refine ⟨before, after, true, t₀, rest₀, d₀, k, htext, hbefore.trans hs.symm, ⟨hts₀, he₀⟩, rfl,
      hseam, hbegins, by rintro ⟨⟩, ?_⟩
    rw [happroach]
    exact hreach
  · obtain ⟨w, _, _, _, hw, -, -⟩ := words_of_declarationAt? he
    obtain ⟨-, before, after, htext, hbefore, hseam, hbegins, hfront, hafter⟩ := seam_of_word hts hw
    obtain ⟨t₀, rest₀, hts₀, rfl, rfl⟩ := List.map_eq_cons_iff.1 hafter.symm
    rw [declarationAt?_previous (q := none) hp rfl] at he
    obtain ⟨d₀, he₀, rfl⟩ :=
      exists_of_declarationAt?_shift (p := none) he (hlength before after htext)
    have happroach : approach before false = ts := by
      rw [approach, hfront]
      exact List.append_nil ts
    refine ⟨before, after, false, t₀, rest₀, d₀, k, htext, hbefore.trans hs.symm, ⟨hts₀, he₀⟩, rfl,
      hseam, hbegins, fun _ => by rw [hfront]; exact hp, ?_⟩
    rw [happroach]
    exact hreach

theorem exists_beginsWith_of_mem {text : List UInt8} {d : Declaration} (h : d ∈ declarations text)
    (hstart : d.start = 0) : ∃ a t rest k, BeginsWith text a t rest d k ∧ BeginsWord text := by
  obtain ⟨before, after, a, t, rest, d₀, k, rfl, hbefore, hbegins, rfl, -, hword, -⟩ :=
    exists_beginsWith h
  obtain rfl := List.eq_nil_of_length_eq_zero (hbefore.trans hstart)
  exact ⟨a, t, rest, k, hbegins, hword⟩

theorem BeginsWith.opensAbstract_eq {text : List UInt8} {a : Bool} {t : Token} {rest : List Token}
    {d : Declaration} {k : Nat} (h : BeginsWith text a t rest d k) : opensAbstract text = a := by
  rw [opensAbstract, h.tokens_eq]
  cases a with
  | true => rfl
  | false => exact not_isAbstract_of_declarationAt? h.declares

theorem BeginsWith.cons_eq {text : List UInt8} {a : Bool} {t : Token} {rest : List Token}
    {d : Declaration} {k : Nat} (h : BeginsWith text a t rest d k) :
    declarations text = d :: (outliner text.length).run ⟨k, 0, some t⟩ rest := by
  have hd := h.declares
  have hfirst : ∀ p, declarationAt? text.length p t rest = some (d, k) →
      (outliner text.length).run ⟨0, 0, p⟩ (t :: rest) =
        d :: (outliner text.length).run ⟨k, 0, some t⟩ rest := by
    intro p hp
    rw [Scanner.run, outliner_eq hp]
    rfl
  rw [declarations_eq_run, h.tokens_eq]
  cases a with
  | false => exact hfirst none hd
  | true =>
    have hkeyword : outliner text.length Scope.start ⟨.word "abstract", 0, 8⟩ (t :: rest) =
        (none, ⟨0, 0, some ⟨.word "abstract", 0, 8⟩⟩) := by
      have hnone : declarationAt? text.length none ⟨.word "abstract", 0, 8⟩ (t :: rest) = none := by
        rw [declarationAt?_eq_none_iff]
        rintro w _ ⟨⟩ _
        exact kindOf?_abstract _
      simp [Scope.start, outliner, hnone]
    rw [leading, if_pos rfl, List.singleton_append, Scanner.run, hkeyword]
    exact hfirst _ hd

theorem BeginsWith.head?_eq {text : List UInt8} {a : Bool} {t : Token} {rest : List Token}
    {d : Declaration} {k : Nat} (h : BeginsWith text a t rest d k) :
    (declarations text).head? = some d := by
  rw [h.cons_eq]
  rfl

theorem BeginsWith.cut {text after : List UInt8} {a : Bool} {t : Token} {rest : List Token}
    {d : Declaration} {k : Nat} (h : BeginsWith (text ++ after) a t rest d k)
    (hstop : d.stop = text.length) :
    after = [] ∧ k = rest.length ∨
      ∃ inner c, c.lexeme = .mark closeBrace ∧ k = inner.length + 1 ∧
        rest = inner ++ c :: (tokens after).map (·.shift text.length) ∧
        ∀ other, BeginsWith (text ++ other) a t
          (inner ++ c :: (tokens other).map (·.shift text.length)) d k := by
  rcases declarationAt?_cases h.declares with
    ⟨inner, c, more, rfl, hc, hcstop, hk, hsame⟩ | ⟨hn, hk⟩
  · have hts : tokens (text ++ after) = (leading a ++ t :: inner) ++ c :: more := by
      rw [h.tokens_eq, List.append_assoc, List.cons_append]
    obtain ⟨x, y, hxy, hx, -, hseam, hfront, rfl⟩ := seam_of_closeBrace hts hc
    obtain ⟨rfl, rfl⟩ := List.append_inj hxy (hstop.symm.trans (hcstop.trans hx.symm))
    refine Or.inr ⟨inner, c, hc, hk, rfl, fun other => ⟨?_, hsame _ _⟩⟩
    rw [(hseam other).tokens, hfront]
    simp only [List.append_assoc, List.cons_append, List.nil_append]
  · refine Or.inl ⟨?_, hk⟩
    rw [hstop, List.length_append] at hn
    exact List.eq_nil_of_length_eq_zero (by omega)

theorem BeginsWith.alone {text after : List UInt8} {a : Bool} {t : Token} {rest : List Token}
    {d : Declaration} {k : Nat} (h : BeginsWith (text ++ after) a t rest d k)
    (hstop : d.stop = text.length) : ∃ rest', BeginsWith text a t rest' d k := by
  rcases h.cut hstop with ⟨rfl, -⟩ | ⟨inner, c, -, -, -, hother⟩
  · rw [List.append_nil] at h
    exact ⟨rest, h⟩
  · have hnil := hother []
    rw [List.append_nil] at hnil
    exact ⟨_, hnil⟩

theorem BeginsWith.rest_eq {text after : List UInt8} {a : Bool} {t : Token} {rest : List Token}
    {d : Declaration} {k : Nat} (h : BeginsWith (text ++ after) a t rest d k)
    (hstop : d.stop = text.length) :
    (outliner (text ++ after).length).run ⟨k, 0, some t⟩ rest =
      (declarations after).map (·.shift text.length) := by
  rcases h.cut hstop with ⟨rfl, rfl⟩ | ⟨inner, c, hc, rfl, rfl, -⟩
  · exact run_skip_all ..
  · have hclose : isAbstract (some c) = false := by
      rw [isAbstract, Option.any_some, hc]
      rfl
    rw [run_skip, run_previous hclose (q := none) rfl]
    exact run_outliner_at text.length _ after List.length_append

theorem BeginsWith.declarations_eq {before text after : List UInt8} {a : Bool} {t : Token}
    {rest : List Token} {d : Declaration} {k : Nat} (h : BeginsWith (text ++ after) a t rest d k)
    (hstop : d.stop = text.length) (hseam : Seam before (text ++ after))
    (hprevious : a = false → isAbstract (tokens before).getLast? = false)
    (hreach : (outliner (before ++ (text ++ after)).length).reach
      ((t :: rest).map (·.shift before.length)) Scope.start (approach before a) =
        ⟨0, 0, (approach before a).getLast?⟩) :
    declarations (before ++ (text ++ after)) =
      (outliner (before ++ (text ++ after)).length).before ((t :: rest).map (·.shift before.length))
        Scope.start (approach before a) ++
      d.shift before.length ::
        (declarations after).map (·.shift (before.length + text.length)) := by
  have hts : tokens (before ++ (text ++ after)) =
      approach before a ++ (t :: rest).map (·.shift before.length) := by
    rw [hseam.tokens, h.tokens_eq, List.map_append, approach, List.append_assoc]
  have hlength : (before ++ (text ++ after)).length = (text ++ after).length + before.length := by
    rw [List.length_append, Nat.add_comm]
  have hdeclares : declarationAt? (before ++ (text ++ after)).length (approach before a).getLast?
      (t.shift before.length) (rest.map (·.shift before.length)) =
        some (d.shift before.length, k) := by
    -- What has been in front of the keyword matters only if it is `abstract`.
    have hd := declarationAt?_shift before.length (text ++ after).length (leading a).getLast? t rest
    rw [h.declares, ← hlength] at hd
    cases a with
    | true =>
      have hlast : (approach before true).getLast? =
          (leading true).getLast?.map (·.shift before.length) := List.getLast?_append_cons _ _ _
      rw [hlast]
      exact hd
    | false =>
      have happroach : approach before false = tokens before := List.append_nil _
      rw [happroach, declarationAt?_previous (hprevious rfl) (q := none) rfl]
      exact hd
  have hrest : (outliner (before ++ (text ++ after)).length).run
      ⟨k, 0, some (t.shift before.length)⟩ (rest.map (·.shift before.length)) =
        (declarations after).map (·.shift (before.length + text.length)) := by
    have hmap := run_outliner_shift before.length (text ++ after).length ⟨k, 0, some t⟩ rest
    rw [h.rest_eq hstop, List.map_map, ← hlength] at hmap
    refine hmap.trans (List.map_congr_left fun e _ => ?_)
    simp only [Function.comp_apply, Declaration.shift, Nat.add_assoc, Nat.add_comm text.length]
  rw [declarations_eq_run, hts, Scanner.run_append, hreach, List.map_cons, Scanner.run,
    outliner_eq hdeclares, hrest]
  rfl

theorem mem_approach {before : List UInt8} {a : Bool} {t : Token} (h : t ∈ approach before a) :
    t.start ≤ before.length ∧ (t.lexeme = .mark closeBrace → t.stop ≤ before.length) := by
  rcases List.mem_append.1 h with h | h
  · exact ⟨Nat.le_of_lt (start_lt_of_mem_tokens h), stop_le_of_mem_tokens h⟩
  · obtain ⟨s, hs, rfl⟩ := List.mem_map.1 h
    cases a with
    | false => cases hs
    | true =>
      obtain rfl := List.mem_singleton.1 hs
      exact ⟨Nat.le_of_eq (Nat.zero_add _), fun hm => nomatch hm⟩

def LieBefore (n : Nat) (ds : List Declaration) : Prop := ∀ d ∈ ds, d.start ≤ n ∧ d.stop ≤ n

theorem lieBefore_approach {n : Nat} {before : List UInt8} {a : Bool} {t : Token} {rest : List Token}
    (hreach : (outliner n).reach (t :: rest) Scope.start (approach before a) =
      ⟨0, 0, (approach before a).getLast?⟩) :
    LieBefore before.length ((outliner n).before (t :: rest) Scope.start (approach before a)) := by
  intro e he
  obtain ⟨⟨b, hb, hbstart⟩, c, hc, hclose, hcstop⟩ := bounds_before (congrArg Scope.skip hreach) he
  rw [hbstart, hcstop]
  exact ⟨(mem_approach hb).1, (mem_approach hc).2 hclose⟩

theorem declarations_split {before text after : List UInt8} {d : Declaration}
    (hd : d ∈ declarations (before ++ (text ++ after))) (hstart : d.start = before.length)
    (hstop : d.stop = before.length + text.length) :
    ∃ ds d₀, LieBefore before.length ds ∧ d = d₀.shift before.length ∧ declarations text = [d₀] ∧
      declarations (before ++ (text ++ after)) =
        ds ++ d :: (declarations after).map (·.shift (before.length + text.length)) := by
  obtain ⟨x, y, a, t, rest, d₀, k, hxy, hx, hbegins, rfl, hseam, -, hprevious, hreach⟩ :=
    exists_beginsWith hd
  obtain ⟨rfl, rfl⟩ := List.append_inj hxy (hstart.symm.trans hx.symm)
  have hstop₀ : d₀.stop = text.length := by
    simp only [Declaration.shift] at hstop
    omega
  obtain ⟨rest', halone⟩ := hbegins.alone hstop₀
  rw [← List.append_nil text] at halone
  have hrest := halone.rest_eq hstop₀
  have hcons := halone.cons_eq
  rw [hrest, List.append_nil] at hcons
  exact ⟨_, d₀, lieBefore_approach hreach, rfl, hcons,
    hbegins.declarations_eq hstop₀ hseam hprevious hreach⟩

theorem declarations_replace {before text text' after : List UInt8} {d d' : Declaration}
    (hd : d ∈ declarations (before ++ (text ++ after))) (hstart : d.start = before.length)
    (hstop : d.stop = before.length + text.length) (hd' : d' ∈ declarations (text' ++ after))
    (hstart' : d'.start = 0) (hstop' : d'.stop = text'.length)
    (habstract : opensAbstract text = opensAbstract text') :
    ∃ ds, LieBefore before.length ds ∧
      declarations (before ++ (text ++ after)) =
        ds ++ d :: (declarations after).map (·.shift (before.length + text.length)) ∧
      declarations (before ++ (text' ++ after)) = ds ++ d'.shift before.length ::
        (declarations after).map (·.shift (before.length + text'.length)) := by
  obtain ⟨x, y, a, t, rest, d₀, k, hxy, hx, hbegins, rfl, hseam, hword, hprevious, hreach⟩ :=
    exists_beginsWith hd
  obtain ⟨rfl, rfl⟩ := List.append_inj hxy (hstart.symm.trans hx.symm)
  obtain ⟨a', t', rest', k', hbegins', hword'⟩ := exists_beginsWith_of_mem hd' hstart'
  have hstop₀ : d₀.stop = text.length := by
    simp only [Declaration.shift] at hstop
    omega
  have ha : a' = a := by
    obtain ⟨_, halone⟩ := hbegins.alone hstop₀
    obtain ⟨_, halone'⟩ := hbegins'.alone hstop'
    rw [← halone.opensAbstract_eq, habstract, halone'.opensAbstract_eq]
  subst ha
  obtain ⟨w, _, _, _, hw, -, -⟩ := words_of_declarationAt? hbegins.declares
  obtain ⟨hsame, hreach'⟩ := before_exchange (t := t.shift before.length) hw
    (congrArg Scope.skip hreach) (before ++ (text' ++ after)).length (t'.shift before.length)
    (rest'.map (·.shift before.length))
  have hold := hbegins.declarations_eq hstop₀ hseam hprevious hreach
  have hnew := hbegins'.declarations_eq hstop' (hseam.of_beginsWord hword hword') hprevious
    (hreach'.trans hreach)
  rw [List.map_cons, hsame] at hnew
  exact ⟨_, lieBefore_approach hreach, hold, hnew⟩

end ContractBuild.Source
