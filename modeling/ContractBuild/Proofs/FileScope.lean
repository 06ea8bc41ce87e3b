import ContractBuild.Proofs.Grammar

/-! Files that are units and texts between them. The scan of such a file finds its units where they
stand, and nothing else. -/

namespace ContractBuild.Source

open Text

inductive Item where
  | filler (f : Filler)
  | unit (u : UnitText) (legible : Legible [] u.pieces)

namespace Item

def pieces : Item → List Piece
  | .filler f => f.pieces
  | .unit u _ => u.pieces

def text (i : Item) : String := String.ofList (charsOf i.pieces)

def isFiller : Item → Bool
  | .filler _ => true
  | .unit _ _ => false

end Item

def declared (pos : Nat) : List Item → List Declaration
  | [] => []
  | .filler f :: items => declared (pos + (bytes (Item.filler f).text).length) items
  | .unit u h :: items =>
    let stop := pos + (bytes (Item.unit u h).text).length
    ⟨u.name.text, u.keyword.kind, u.bases, pos, stop⟩ :: declared stop items

/-! ### The scan of the tokens -/

def Passes (n depth : Nat) (ts : List Token) : Prop :=
  ∀ p rest, (outliner n).run ⟨0, depth, p⟩ (ts ++ rest) =
    (outliner n).run ⟨0, depth, ts.getLast?.or p⟩ rest

theorem kindOf?_eq_none {w : String} (h : w ∉ unitWords) (a : Bool) : kindOf? w a = none := by
  simp only [unitWords, List.mem_cons, List.not_mem_nil, or_false, not_or] at h
  rw [kindOf?, if_neg h.1, if_neg h.2.1, if_neg h.2.2]

section Passes

variable {n depth : Nat} {ts us : List Token}

theorem Passes.nil : Passes n depth [] := fun _ _ => rfl

theorem Passes.append (hts : Passes n depth ts) (hus : Passes n depth us) :
    Passes n depth (ts ++ us) := by
  intro p rest
  rw [List.append_assoc, hts, hus, List.getLast?_append, Option.or_assoc]

theorem passes_token {t : Token} (hopen : t.lexeme ≠ .mark openBrace)
    (hclose : t.lexeme ≠ .mark closeBrace)
    (hword : depth = 0 → ∀ w, t.lexeme = .word w → ∀ a, kindOf? w a = none) :
    Passes n depth [t] := by
  intro p rest
  have hstep : outliner n ⟨0, depth, p⟩ t rest = (none, ⟨0, depth, some t⟩) := by
    rw [outliner, if_neg hopen, if_neg hclose]
    by_cases hdepth : depth = 0
    · have hnone : declarationAt? n p t rest = none :=
        declarationAt?_eq_none_iff.2 fun w _ ht _ => hword hdepth w ht _
      rw [if_pos hdepth, hnone, hdepth]
    · rw [if_neg hdepth]
  rw [List.singleton_append, Scanner.run, hstep]
  rfl

theorem passes_piece {p : Piece} (hopen : p ≠ .openBrace) (hclose : p ≠ .closeBrace)
    (hword : depth = 0 → ∀ w ∈ unitWords, p.lexeme? ≠ some (.word w)) (pos : Nat) :
    Passes n depth (p.token? pos).toList := by
  rcases p.token?_cases pos with ⟨ht, -⟩ | ⟨t, ht, hp⟩
  · rw [ht]
    exact .nil
  · rw [ht]
    refine passes_token (p.lexeme_ne_openBrace hopen hp) (p.lexeme_ne_closeBrace hclose hp) ?_
    intro hdepth w hw
    exact kindOf?_eq_none fun hmem => hword hdepth w hmem (hw ▸ hp)

theorem Passes.braces {a c : Token} (ha : a.lexeme = .mark openBrace)
    (hc : c.lexeme = .mark closeBrace) (hts : Passes n (depth + 1) ts) (hus : Passes n depth us) :
    Passes n depth (a :: (ts ++ c :: us)) := by
  intro p rest
  have hopen : ∀ more, outliner n ⟨0, depth, p⟩ a more = (none, ⟨0, depth + 1, some a⟩) := by
    intro more
    rw [outliner, if_pos ha]
  have hclose : ∀ q more, outliner n ⟨0, depth + 1, q⟩ c more = (none, ⟨0, depth, some c⟩) := by
    intro q more
    rw [outliner, if_neg (by rw [hc]; decide), if_pos hc]
    rfl
  have hlast : (a :: (ts ++ c :: us)).getLast?.or p = us.getLast?.or (some c) := by
    rw [← List.cons_append, List.getLast?_append, List.getLast?_cons, Option.or_assoc]
    cases us.getLast? <;> rfl
  rw [hlast, List.cons_append, List.append_assoc, List.cons_append, Scanner.run, hopen,
    Option.toList_none, List.nil_append, hts, Scanner.run, hclose, Option.toList_none,
    List.nil_append, hus]

theorem Balanced.passes {ps : List Piece} (hps : Balanced .openBrace .closeBrace ps) (pos : Nat) :
    Passes n (depth + 1) (tokensAt pos ps) := by
  induction hps generalizing depth pos with
  | nil => exact .nil
  | other hopen hclose hrest ih =>
    exact (passes_piece hopen hclose (fun h => absurd h (Nat.succ_ne_zero _)) pos).append (ih _)
  | nested hinner hrest ihInner ihRest =>
    rw [tokensAt_braces rfl]
    exact Passes.braces rfl rfl (ihInner _) (ihRest _)

theorem Quiet.passes {ps : List Piece} (hps : Quiet ps) (pos : Nat) : Passes n 0 (tokensAt pos ps) := by
  induction hps generalizing pos with
  | nil => exact .nil
  | other hopen hclose hword hrest ih =>
    exact (passes_piece hopen hclose (fun _ => hword) pos).append (ih _)
  | block hinner hrest ih =>
    rw [tokensAt_braces rfl]
    exact Passes.braces rfl rfl (hinner.passes _) (ih _)

end Passes

theorem run_behind_keyword (u : UnitText) {n : Nat} {p : Option Token} {t : Token} {w : String}
    {kind : UnitKind} (ht : t.lexeme = .word w) (hkind : kindOf? w (isAbstract p) = some kind)
    (pos : Nat) (rest : List Token) :
    ∃ q, isAbstract q = false ∧
      (outliner n).run ⟨0, 0, p⟩ (t :: (tokensAt pos u.behindKeyword ++ rest)) =
        ⟨u.name.text, kind, u.bases, if isAbstract p then (p.map (·.start)).getD t.start else t.start,
          pos + (encode (charsOf u.behindKeyword)).length⟩ :: (outliner n).run ⟨0, 0, q⟩ rest := by
  have hunit := declarationAt?_unit u ht n pos p rest
  rw [hkind, Option.map_some] at hunit
  obtain ⟨inner, c, htokens, hc⟩ : ∃ inner c, tokensAt pos u.behindKeyword = inner ++ [c] ∧
      c.lexeme = .mark closeBrace := by
    rw [u.behindKeyword_eq, tokensAt_append]
    exact ⟨_, _, rfl, rfl⟩
  refine ⟨some c, ?_, ?_⟩
  · rw [isAbstract, Option.any_some, hc]
    rfl
  · rw [Scanner.run, outliner_eq hunit, htokens, List.append_assoc, List.singleton_append,
      List.length_append, List.length_singleton, run_skip]
    rfl

theorem Keyword.tokensAt_front (k : Keyword) (pos : Nat) :
    k.front = [] ∧ k.kind ≠ .abstractContract ∨
      k.kind = .abstractContract ∧ tokensAt pos k.front = [⟨.word "abstract", pos, pos + 8⟩] := by
  cases k with
  | abstractContract between =>
    refine Or.inr ⟨rfl, ?_⟩
    rw [Keyword.front, tokensAt, tokensAt_gaps]
    rfl
  | _ => exact Or.inl ⟨rfl, by decide⟩

theorem Keyword.passes (k : Keyword) (n pos : Nat) : Passes n 0 (tokensAt pos k.front) := by
  rcases k.tokensAt_front pos with ⟨hfront, -⟩ | ⟨-, htokens⟩
  · rw [hfront]
    exact .nil
  · rw [htokens]
    refine passes_token nofun nofun fun _ w hw a => ?_
    cases hw
    exact kindOf?_abstract a

theorem Keyword.kindOf?_word (k : Keyword) :
    kindOf? k.word.text (k.kind == .abstractContract) = some k.kind := by
  cases k with
  | abstractContract between => exact (by decide : kindOf? "contract" true = some .abstractContract)
  | _ => decide

theorem run_unit (u : UnitText) (n pos : Nat) {p : Option Token} (hp : isAbstract p = false)
    (rest : List Token) :
    ∃ q, isAbstract q = false ∧ (outliner n).run ⟨0, 0, p⟩ (tokensAt pos u.pieces ++ rest) =
      ⟨u.name.text, u.keyword.kind, u.bases, pos, pos + (encode (charsOf u.pieces)).length⟩ ::
        (outliner n).run ⟨0, 0, q⟩ rest := by
  have hkind := u.keyword.kindOf?_word
  have hstop : pos + (encode (charsOf u.pieces)).length =
      pos + (encode (charsOf u.keyword.front)).length + (encode u.keyword.word.chars).length +
        (encode (charsOf u.behindKeyword)).length := by
    simp only [UnitText.pieces, charsOf_append, charsOf_cons, Piece.chars, encode_append,
      List.length_append, Nat.add_assoc]
  have hword : ∀ k, tokensAt k (.word u.keyword.word :: u.behindKeyword) =
      ⟨.word u.keyword.word.text, k, k + (encode u.keyword.word.chars).length⟩ ::
        tokensAt (k + (encode u.keyword.word.chars).length) u.behindKeyword := fun _ => rfl
  rw [hstop, UnitText.pieces, tokensAt_append, hword, List.append_assoc, u.keyword.passes n pos,
    List.cons_append]
  rcases u.keyword.tokensAt_front pos with ⟨hfront, hne⟩ | ⟨heq, htokens⟩
  · rw [beq_eq_false_iff_ne.2 hne, ← hp] at hkind
    obtain ⟨q, hq, hrun⟩ := run_behind_keyword u (t := ⟨.word u.keyword.word.text, pos, _⟩) rfl hkind
      (pos + (encode u.keyword.word.chars).length) rest
    rw [hp] at hrun
    rw [hfront]
    exact ⟨q, hq, hrun⟩
  · rw [htokens]
    rw [beq_iff_eq.2 heq] at hkind
    exact run_behind_keyword u (p := some ⟨.word "abstract", pos, pos + 8⟩) rfl hkind _ rest

theorem bytes_text (i : Item) : bytes i.text = encode (charsOf i.pieces) := bytes_ofList _

theorem run_items (n : Nat) (items : List Item) (pos : Nat) {p : Option Token}
    (hp : isAbstract p = false) :
    (outliner n).run ⟨0, 0, p⟩ (tokensAt pos (items.flatMap Item.pieces)) = declared pos items := by
  induction items generalizing pos p with
  | nil => rfl
  | cons i items ih =>
    rw [List.flatMap_cons, tokensAt_append]
    cases i with
    | filler f =>
      -- the unit behind the filler is not taken for an abstract one
      have hlast : isAbstract ((tokensAt pos f.pieces).getLast?.or p) = false := by
        cases ht : (tokensAt pos f.pieces).getLast? with
        | none => exact hp
        | some t =>
          rw [Option.some_or, isAbstract, Option.any_some, beq_eq_false_iff_ne]
          intro hlexeme
          apply f.notAbstract
          rw [← lexemes_tokensAt pos, List.getLast?_map, ht, ← hlexeme]
          rfl
      rw [declared, bytes_text]
      exact (f.quiet.passes pos p _).trans (ih _ hlast)
    | unit u h =>
      obtain ⟨q, hq, hrun⟩ := run_unit u n pos hp
        (tokensAt (pos + (encode (charsOf u.pieces)).length) (items.flatMap Item.pieces))
      rw [declared, bytes_text]
      exact hrun.trans (congrArg _ (ih _ hq))

/-! ### The text of items -/

theorem Legible.before_word {ps : List Piece} (h : Legible [] ps)
    (hlast : (charsOf ps).getLast?.any isWordChar = false) {c : Char} (hc : isWordChar c = true)
    (rest : List Char) : Legible (c :: rest) ps := by
  rcases List.eq_nil_or_concat ps with rfl | ⟨ps, p, rfl⟩
  · trivial
  · rw [List.concat_eq_append, Legible.append] at h ⊢
    rw [List.concat_eq_append, charsOf_append, charsOf_cons, charsOf_nil, List.append_nil] at hlast
    have hp : charsOf [p] ≠ [] := by
      rw [charsOf_cons, charsOf_nil, List.append_nil]
      exact p.chars_ne_nil
    -- what stands in front of the last piece sees that piece and not the word
    have hhead : (charsOf [p] ++ []).head? = (charsOf [p] ++ c :: rest).head? := by
      rw [List.head?_append_of_ne_nil _ hp, List.head?_append_of_ne_nil _ hp]
    refine ⟨h.1.congr hhead, ?_, trivial⟩
    cases p with
    | gap g => trivial
    | literal quote hquote body => trivial
    | word w =>
      have hend : isWordChar (w.chars.getLast w.nonempty) = false := by
        rw [List.getLast?_append, Piece.chars, List.getLast?_eq_getLast_of_ne_nil w.nonempty] at hlast
        exact hlast
      rw [List.all_eq_true.1 w.isWord _ (List.getLast_mem w.nonempty)] at hend
      cases hend
    | mark d hd =>
      rintro -
      rw [charsOf_nil, List.nil_append, List.head?_cons, ne_eq, ne_eq, Option.some_inj,
        Option.some_inj]
      constructor <;> rintro rfl <;> exact absurd hc (by decide)

theorem UnitText.begins (u : UnitText) :
    ∃ c cs, charsOf u.pieces = c :: cs ∧ isWordChar c = true := by
  rw [UnitText.pieces]
  cases u.keyword with
  | _ => exact ⟨_, _, rfl, by decide⟩

theorem UnitText.legible_before (u : UnitText) (h : Legible [] u.pieces) (rest : List Char) :
    Legible rest u.pieces := by
  rw [UnitText.pieces, u.behindKeyword_eq, ← List.cons_append, ← List.append_assoc,
    Legible.append] at h ⊢
  exact ⟨h.1.congr (x := charsOf [.closeBrace] ++ []) rfl, fun heq => absurd heq (by decide), trivial⟩

theorem legible_items {items : List Item}
    (h : items.IsChain fun i j => i.isFiller = true → j.isFiller = false) :
    Legible [] (items.flatMap Item.pieces) := by
  induction items with
  | nil => trivial
  | cons i items ih =>
    rw [List.flatMap_cons, Legible.append, List.append_nil]
    refine ⟨?_, ih h.of_cons⟩
    cases i with
    | unit u hu => exact u.legible_before hu _
    | filler f =>
      cases items with
      | nil => exact f.legible
      | cons j items =>
        cases j with
        | filler g => cases (List.isChain_cons_cons.1 h).1 rfl
        | unit u hu =>
          obtain ⟨c, cs, hbegins, hc⟩ := u.begins
          rw [List.flatMap_cons, charsOf_append, Item.pieces, Item.pieces, hbegins]
          exact f.legible.before_word f.notInWord hc _

theorem join_text (items : List Item) :
    String.join (items.map Item.text) = String.ofList (charsOf (items.flatMap Item.pieces)) := by
  rw [← String.toList_inj, String.toList_join, String.toList_ofList, charsOf, List.flatMap_assoc,
    List.flatMap_map]
  simp only [Item.text, String.toList_ofList]
  rfl

/-- What a file declares is what it has been put together from. -/
theorem declarations_items {items : List Item}
    (h : items.IsChain fun i j => i.isFiller = true → j.isFiller = false) :
    declarations (bytes (String.join (items.map Item.text))) = declared 0 items := by
  have htext : bytes (String.join (items.map Item.text)) =
      encode (charsOf (items.flatMap Item.pieces)) := by
    rw [join_text, bytes_ofList]
    rfl
  rw [htext, declarations_eq_run, tokens_pieces (legible_items h)]
  exact run_items _ items 0 rfl

namespace SampleItems

def space : Gap := .blank ' ' (by decide)

def hidden : Gap := .lineComment "contract F \x7b".toList (by decide)

def hiddenBrace : Gap := .blockComment ['\x7d'] (by decide)

def named (s : String) (h : s.toList ≠ [] ∧ s.toList.all isWordChar = true) : Word :=
  .ofString s h.1 h.2

def quotedBrace : Piece :=
  .literal '"' (by decide) [.escaped '"', .plain '\x7d' (by decide) (by decide)]

theorem balanced_word (w : Word) : Balanced .openBrace .closeBrace [.word w] :=
  .other nofun nofun .nil

def header : Filler where
  pieces := [.gap hidden, .mark 'é' (by decide), quotedBrace, .openBrace,
    .word (named "library" (by decide)), .closeBrace, .word (named "abstract" (by decide)),
    .mark ';' (by decide)]
  legible := by decide
  quiet :=
    .other (by decide) (by decide) (by decide) <| .other (by decide) (by decide) (by decide) <|
      .other (by decide) (by decide) (by decide) <| .block (balanced_word _) <|
        .other (by decide) (by decide) (by decide) <| .other (by decide) (by decide) (by decide) .nil
  notAbstract := by decide
  notInWord := by decide

def between : Filler where
  pieces := [.gap space]
  legible := by decide
  quiet := .other (by decide) (by decide) (by decide) .nil
  notAbstract := by decide
  notInWord := by decide

def arguments : Arguments where
  inside := [.openBrace, .openParen, .literal '\'' (by decide) [.plain ')' (by decide) (by decide)],
    .closeParen, .comma]
  balanced :=
    .other (by decide) (by decide) <|
      .nested (.other (by decide) (by decide) .nil) (.other (by decide) (by decide) .nil)
  behind := [space]

def derived : UnitText where
  keyword := .abstractContract [space, hiddenBrace]
  front := [hidden]
  name := named "A" (by decide)
  behind := [space]
  inheritance := some
    { first := ⟨[space], named "B" (by decide), by decide, [], some arguments⟩
      others := [⟨[], named "contract" (by decide), by decide, [hidden], none⟩] }
  body := [quotedBrace, .openBrace, .word (named "interface" (by decide)), .closeBrace, .gap hidden]
  balanced :=
    .other (by decide) (by decide) <| .nested (balanced_word _) <|
      .other (by decide) (by decide) .nil

def plain (keyword : Keyword) : UnitText where
  keyword := keyword
  front := [space]
  name := named "is" (by decide)
  behind := []
  inheritance := none
  body := []
  balanced := .nil

def items : List Item :=
  [.filler header, .unit derived (by decide), .unit (plain .interface) (by decide), .filler between,
    .unit (plain .library) (by decide)]

def text : String :=
  "//contract F \x7b\né\"\\\"\x7d\"\x7blibrary\x7dabstract;" ++
  "abstract /*\x7d*/contract//contract F \x7b\nA is B(\x7b(')'),) ,contract//contract F \x7b\n" ++
  "\x7b\"\\\"\x7d\"\x7binterface\x7d//contract F \x7b\n\x7dinterface is\x7b\x7d library is\x7b\x7d"

end SampleItems

theorem declarations_items_nested :
    declarations (bytes SampleItems.text) =
      [⟨"A", .abstractContract, ["B", "contract"], 40, 150⟩, ⟨"is", .interface, [], 150, 164⟩,
        ⟨"is", .library, [], 165, 177⟩] := by
  have hitems : declarations (bytes (String.join (SampleItems.items.map Item.text))) =
      declared 0 SampleItems.items := declarations_items (by decide)
  have htext : String.join (SampleItems.items.map Item.text) = SampleItems.text := by decide +kernel
  have hdeclared : declared 0 SampleItems.items =
      [⟨"A", .abstractContract, ["B", "contract"], 40, 150⟩, ⟨"is", .interface, [], 150, 164⟩,
        ⟨"is", .library, [], 165, 177⟩] := by decide +kernel
  rw [← htext, hitems, hdeclared]

end ContractBuild.Source
