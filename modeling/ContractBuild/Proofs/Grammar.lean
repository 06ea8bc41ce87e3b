import ContractBuild.Proofs.Pieces

/-! Units as their authors write them, piece by piece, and texts between units. The scan of a unit
takes its name, its bases and its end from behind its keyword. -/

namespace ContractBuild.Source

open Text

namespace Piece

def openBrace : Piece := .mark '\x7b' (by decide)
def closeBrace : Piece := .mark '\x7d' (by decide)
def openParen : Piece := .mark '(' (by decide)
def closeParen : Piece := .mark ')' (by decide)
def comma : Piece := .mark ',' (by decide)

end Piece

inductive Balanced (opening closing : Piece) : List Piece → Prop
  | nil : Balanced opening closing []
  | other {p : Piece} {ps : List Piece} (hopen : p ≠ opening) (hclose : p ≠ closing)
      (hrest : Balanced opening closing ps) : Balanced opening closing (p :: ps)
  | nested {inner ps : List Piece} (hinner : Balanced opening closing inner)
      (hrest : Balanced opening closing ps) :
      Balanced opening closing (opening :: inner ++ closing :: ps)

def unitWords : List String := ["contract", "interface", "library"]

/-- Braces are balanced, and outside of them no word announces a unit. -/
inductive Quiet : List Piece → Prop
  | nil : Quiet []
  | other {p : Piece} {ps : List Piece} (hopen : p ≠ .openBrace) (hclose : p ≠ .closeBrace)
      (hword : ∀ w ∈ unitWords, p.lexeme? ≠ some (.word w))
      (hrest : Quiet ps) : Quiet (p :: ps)
  | block {inner ps : List Piece} (hinner : Balanced .openBrace .closeBrace inner)
      (hrest : Quiet ps) : Quiet (.openBrace :: inner ++ .closeBrace :: ps)

/-- It closes its comments, literals and braces, and what follows it is not read as part of it. -/
structure Filler where
  pieces : List Piece
  legible : Legible [] pieces
  quiet : Quiet pieces
  notAbstract : (pieces.filterMap Piece.lexeme?).getLast? ≠ some (.word "abstract")
  notInWord : (charsOf pieces).getLast?.any isWordChar = false

def Word.ofString (s : String) (hne : s.toList ≠ []) (h : s.toList.all isWordChar = true) : Word :=
  ⟨s.toList, hne, h⟩

def gaps (gs : List Gap) : List Piece := gs.map .gap

inductive Keyword where
  | contract
  | abstractContract (between : List Gap)
  | interface
  | library

namespace Keyword

def kind : Keyword → UnitKind
  | .contract => .contract
  | .abstractContract _ => .abstractContract
  | .interface => .interface
  | .library => .library

def word : Keyword → Word
  | .contract => .ofString "contract" (by decide) (by decide)
  | .abstractContract _ => .ofString "contract" (by decide) (by decide)
  | .interface => .ofString "interface" (by decide) (by decide)
  | .library => .ofString "library" (by decide) (by decide)

def front : Keyword → List Piece
  | .abstractContract between => .word (.ofString "abstract" (by decide) (by decide)) :: gaps between
  | _ => []

end Keyword

structure Arguments where
  inside : List Piece
  balanced : Balanced .openParen .closeParen inside
  behind : List Gap

def Arguments.pieces (a : Arguments) : List Piece :=
  .openParen :: a.inside ++ .closeParen :: gaps a.behind

structure Base where
  front : List Gap
  name : Word
  ne_is : name.text ≠ "is"
  behind : List Gap
  arguments : Option Arguments

def Base.pieces (b : Base) : List Piece :=
  gaps b.front ++ .word b.name :: gaps b.behind ++ (b.arguments.map Arguments.pieces).getD []

structure Inheritance where
  first : Base
  others : List Base

def Inheritance.pieces (i : Inheritance) : List Piece :=
  .word (.ofString "is" (by decide) (by decide)) :: i.first.pieces ++
    i.others.flatMap fun b => .comma :: b.pieces

def Inheritance.names (i : Inheritance) : List String :=
  i.first.name.text :: i.others.map (·.name.text)

structure UnitText where
  keyword : Keyword
  front : List Gap
  name : Word
  behind : List Gap
  inheritance : Option Inheritance
  body : List Piece
  balanced : Balanced .openBrace .closeBrace body

namespace UnitText

def heading (u : UnitText) : List Piece :=
  gaps u.behind ++ (u.inheritance.map Inheritance.pieces).getD []

def rest (u : UnitText) : List Piece := u.heading ++ (.openBrace :: u.body ++ [.closeBrace])

def behindKeyword (u : UnitText) : List Piece := gaps u.front ++ .word u.name :: u.rest

def pieces (u : UnitText) : List Piece :=
  u.keyword.front ++ .word u.keyword.word :: u.behindKeyword

def bases (u : UnitText) : List String := (u.inheritance.map Inheritance.names).getD []

theorem behindKeyword_eq (u : UnitText) : u.behindKeyword =
    gaps u.front ++ .word u.name :: (u.heading ++ .openBrace :: u.body) ++ [.closeBrace] := by
  simp only [behindKeyword, rest, List.append_assoc, List.cons_append]

end UnitText

/-! ### Tokens of pieces -/

theorem tokensAt_gaps (pos : Nat) (gs : List Gap) : tokensAt pos (gaps gs) = [] := by
  induction gs generalizing pos with
  | nil => rfl
  | cons g gs ih => exact ih _

theorem Piece.lexeme_ne_mark {p : Piece} {a : Char} (ha : a.toNat < 128) (hmark : isMarkChar a = true)
    (hne : p ≠ .mark a hmark) {l : Lexeme} (hp : p.lexeme? = some l) : l ≠ .mark (leadByte a) := by
  rintro rfl
  cases p with
  | gap g => cases hp
  | word w => cases hp
  | literal quote hquote body =>
    have hlead : leadByte '"' = leadByte a := Lexeme.mark.inj (Option.some_inj.1 hp)
    obtain rfl := (leadByte_eq_iff ha).1 hlead
    exact absurd hmark (by decide)
  | mark c hc =>
    obtain rfl := (leadByte_eq_iff ha).1 (Lexeme.mark.inj (Option.some_inj.1 hp))
    exact hne rfl

theorem Piece.lexeme_ne_openBrace {p : Piece} (hne : p ≠ .openBrace) {l : Lexeme}
    (hp : p.lexeme? = some l) : l ≠ .mark Source.openBrace := p.lexeme_ne_mark (by decide) _ hne hp

theorem Piece.lexeme_ne_closeBrace {p : Piece} (hne : p ≠ .closeBrace) {l : Lexeme}
    (hp : p.lexeme? = some l) : l ≠ .mark Source.closeBrace := p.lexeme_ne_mark (by decide) _ hne hp

theorem Piece.token?_cases (pos : Nat) (p : Piece) :
    p.token? pos = none ∧ p.lexeme? = none ∨
      ∃ t, p.token? pos = some t ∧ p.lexeme? = some t.lexeme := by
  rw [Piece.token?]
  cases p.lexeme? with
  | none => exact Or.inl ⟨rfl, rfl⟩
  | some lexeme => exact Or.inr ⟨_, rfl, rfl⟩

theorem lexemes_tokensAt (pos : Nat) (ps : List Piece) :
    (tokensAt pos ps).map (·.lexeme) = ps.filterMap Piece.lexeme? := by
  induction ps generalizing pos with
  | nil => rfl
  | cons p ps ih =>
    rw [tokensAt, List.map_append, ih]
    rcases p.token?_cases pos with ⟨ht, hp⟩ | ⟨t, ht, hp⟩
    · rw [ht, List.filterMap_cons_none hp]
      rfl
    · rw [ht, List.filterMap_cons_some hp]
      rfl

theorem tokensAt_braces {pos q : Nat} {inner : List Piece}
    (hq : pos + 1 + (encode (charsOf inner)).length = q) (ps : List Piece) :
    tokensAt pos (.openBrace :: inner ++ .closeBrace :: ps) =
      ⟨.mark openBrace, pos, pos + 1⟩ ::
        (tokensAt (pos + 1) inner ++ ⟨.mark closeBrace, q, q + 1⟩ :: tokensAt (q + 1) ps) := by
  subst hq
  rw [List.cons_append, tokensAt, tokensAt_append]
  rfl

theorem length_braces (inner : List Piece) :
    (encode (charsOf (.openBrace :: inner ++ [.closeBrace]))).length =
      1 + (encode (charsOf inner)).length + 1 := by
  rw [charsOf_append, charsOf_cons, encode_append, encode_append, List.length_append,
    List.length_append]
  rfl

/-! ### Bodies -/

theorem bodyEnd_closeBrace (n depth count start stop : Nat) (rest : List Token) :
    bodyEnd n depth count (⟨.mark closeBrace, start, stop⟩ :: rest) =
      if depth ≤ 1 then ⟨stop, count + 1⟩ else bodyEnd n (depth - 1) (count + 1) rest := rfl

theorem bodyEnd_balanced {ps : List Piece} (h : Balanced .openBrace .closeBrace ps)
    (n depth count pos : Nat) (rest : List Token) :
    bodyEnd n (depth + 1) count (tokensAt pos ps ++ rest) =
      bodyEnd n (depth + 1) (count + (tokensAt pos ps).length) rest := by
  induction h generalizing depth count pos rest with
  | nil => rfl
  | @other p ps hopen hclose hrest ih =>
    rw [tokensAt, List.append_assoc]
    rcases p.token?_cases pos with ⟨ht, -⟩ | ⟨t, ht, hp⟩
    · rw [ht]
      exact ih ..
    · rw [ht, Option.toList_some, List.singleton_append, bodyEnd,
        if_neg (p.lexeme_ne_openBrace hopen hp), if_neg (p.lexeme_ne_closeBrace hclose hp), ih,
        List.singleton_append, List.length_cons, Nat.add_assoc, Nat.add_comm 1]
  | @nested inner ps hinner hrest ihInner ihRest =>
    -- the inner braces stand deeper, so the one that closes them does not end the body
    have hdepth : ¬ depth + 1 + 1 ≤ 1 := by omega
    rw [tokensAt_braces rfl, List.cons_append, List.append_assoc, List.cons_append, bodyEnd, if_pos rfl,
      ihInner, bodyEnd_closeBrace, if_neg hdepth, Nat.add_sub_cancel, ihRest]
    congr 1
    simp only [List.length_append, List.length_cons]
    omega

/-! ### Headings -/

def Carries (ps : List Piece) (h h' : Heading) : Prop :=
  ∀ n count pos rest, headingAndBody n h count (tokensAt pos ps ++ rest) =
    headingAndBody n h' (count + (tokensAt pos ps).length) rest

section Carries

variable {ps qs : List Piece} {h h' h'' : Heading}

theorem Carries.nil (h : Heading) : Carries [] h h := fun _ _ _ _ => rfl

theorem Carries.append (hps : Carries ps h h') (hqs : Carries qs h' h'') :
    Carries (ps ++ qs) h h'' := by
  intro n count pos rest
  rw [tokensAt_append, List.append_assoc, hps, hqs, List.length_append, Nat.add_assoc]

theorem carries_gaps (gs : List Gap) (h : Heading) : Carries (gaps gs) h h := by
  intro n count pos rest
  rw [tokensAt_gaps]
  rfl

theorem carries_token {p : Piece} {l : Lexeme} (hp : p.lexeme? = some l)
    (hbrace : ¬ (l = .mark openBrace ∧ h.parens = 0)) : Carries [p] h (h.take l) := by
  intro n count pos rest
  have htokens : tokensAt pos [p] = [⟨l, pos, pos + p.width⟩] := by
    rw [tokensAt, Piece.token?, hp]
    rfl
  rw [htokens, List.singleton_append, headingAndBody, if_neg hbrace]
  rfl

theorem carries_word (w : Word) : Carries [.word w] h (h.take (.word w.text)) :=
  carries_token rfl nofun

theorem Carries.parens
    (hps : Carries ps { h with parens := h.parens + 1 } { h with parens := h.parens + 1 })
    (hqs : Carries qs h h') : Carries (.openParen :: ps ++ .closeParen :: qs) h h' := by
  have hopen : Carries [.openParen] h { h with parens := h.parens + 1 } :=
    carries_token (l := .mark openParen) rfl fun hbrace => absurd hbrace.1 (by decide)
  have hclose : Carries [.closeParen] { h with parens := h.parens + 1 } h :=
    carries_token (l := .mark closeParen) rfl fun hbrace => absurd hbrace.1 (by decide)
  exact hopen.append (hps.append (hclose.append hqs))

theorem Balanced.carries (hps : Balanced .openParen .closeParen ps) (hpos : h.parens ≠ 0) :
    Carries ps h h := by
  induction hps generalizing h with
  | nil => exact .nil h
  | @other p ps hopen hclose hrest ih =>
    have hp : Carries [p] h h := by
      cases hlexeme : p.lexeme? with
      | none =>
        intro n count pos rest
        rw [tokensAt, Piece.token?, hlexeme]
        rfl
      | some l =>
        -- Inside of parentheses only parentheses count.
        have hstays : h.take l = h := by
          cases l with
          | word w => exact if_pos hpos
          | mark b =>
            have hnotOpen : b ≠ openParen := fun hb =>
              p.lexeme_ne_mark (by decide) _ hopen hlexeme (congrArg _ hb)
            have hnotClose : b ≠ closeParen := fun hb =>
              p.lexeme_ne_mark (by decide) _ hclose hlexeme (congrArg _ hb)
            rw [Heading.take, if_neg hnotOpen, if_neg hnotClose, if_neg fun hcomma => hpos hcomma.2]
        have hcarries := carries_token hlexeme (h := h) fun hbrace => hpos hbrace.2
        rw [hstays] at hcarries
        exact hcarries
    exact hp.append (ih hpos)
  | @nested inner ps hinner hrest ihInner ihRest =>
    exact (ihInner (Nat.succ_ne_zero _)).parens (ihRest hpos)

theorem Arguments.carries (a : Arguments) : Carries a.pieces h h :=
  (a.balanced.carries (Nat.succ_ne_zero _)).parens (carries_gaps a.behind h)

theorem Base.carries (b : Base) (names : List String) :
    Carries b.pieces ⟨names, 0, true⟩ ⟨b.name.text :: names, 0, false⟩ := by
  have hname : Carries [.word b.name] ⟨names, 0, true⟩ ⟨b.name.text :: names, 0, false⟩ := by
    have htake : Heading.take ⟨names, 0, true⟩ (.word b.name.text) =
        ⟨b.name.text :: names, 0, false⟩ := by
      rw [Heading.take, if_neg (not_not.2 rfl), if_neg fun h => b.ne_is h.1]
      rfl
    rw [← htake]
    exact carries_word b.name
  have harguments : ∀ h, Carries ((b.arguments.map Arguments.pieces).getD []) h h := by
    intro h
    cases b.arguments with
    | none => exact .nil h
    | some a => exact a.carries
  exact ((carries_gaps b.front _).append (hname.append (carries_gaps b.behind _))).append
    (harguments _)

theorem carries_bases (bs : List Base) (names : List String) :
    Carries (bs.flatMap fun b => .comma :: b.pieces) ⟨names, 0, false⟩
      ⟨(bs.map (·.name.text)).reverse ++ names, 0, false⟩ := by
  induction bs generalizing names with
  | nil => exact .nil _
  | cons b bs ih =>
    have hcomma : Carries [.comma] ⟨names, 0, false⟩ ⟨names, 0, true⟩ :=
      carries_token (l := .mark comma) rfl fun hbrace => absurd hbrace.1 (by decide)
    rw [List.map_cons, List.reverse_cons, List.append_assoc, List.singleton_append]
    exact (hcomma.append (b.carries names)).append (ih (b.name.text :: names))

theorem Inheritance.carries (i : Inheritance) :
    Carries i.pieces .empty ⟨i.names.reverse, 0, false⟩ := by
  have his : Carries [.word (.ofString "is" (by decide) (by decide))] .empty ⟨[], 0, true⟩ :=
    carries_word _
  rw [Inheritance.names, List.reverse_cons]
  exact (his.append (i.first.carries [])).append (carries_bases i.others [i.first.name.text])

theorem UnitText.carries (u : UnitText) : Carries u.heading .empty ⟨u.bases.reverse, 0, false⟩ := by
  refine (carries_gaps u.behind .empty).append ?_
  rw [UnitText.bases]
  cases u.inheritance with
  | none => exact .nil .empty
  | some i => exact i.carries

end Carries

/-! ### Units -/

theorem headingAndBody_rest (u : UnitText) (n count pos : Nat) (rest : List Token) :
    headingAndBody n .empty count (tokensAt pos u.rest ++ rest) =
      (⟨u.bases.reverse, 0, false⟩,
        ⟨pos + (encode (charsOf u.rest)).length, count + (tokensAt pos u.rest).length⟩) := by
  have hbody := bodyEnd_balanced u.balanced n 0
  rw [UnitText.rest, charsOf_append, encode_append, List.length_append, length_braces, tokensAt_append,
    tokensAt_braces rfl, List.append_assoc, u.carries, List.cons_append, headingAndBody,
    if_pos ⟨rfl, rfl⟩, List.append_assoc, hbody, List.cons_append, bodyEnd_closeBrace,
    if_pos (by decide)]
  simp only [List.length_append, List.length_cons, tokensAt, List.length_nil, Prod.mk.injEq,
    BodyEnd.mk.injEq, true_and]
  omega

theorem declarationAt?_unit (u : UnitText) {t : Token} {w : String} (ht : t.lexeme = .word w)
    (n pos : Nat) (p : Option Token) (rest : List Token) :
    declarationAt? n p t (tokensAt pos u.behindKeyword ++ rest) =
      (kindOf? w (isAbstract p)).map fun kind =>
        (⟨u.name.text, kind, u.bases, if isAbstract p then (p.map (·.start)).getD t.start else t.start,
          pos + (encode (charsOf u.behindKeyword)).length⟩,
          (tokensAt pos u.behindKeyword).length) := by
  have hcons : ∀ q, tokensAt q (.word u.name :: u.rest) =
      ⟨.word u.name.text, q, q + (encode u.name.chars).length⟩ ::
        tokensAt (q + (encode u.name.chars).length) u.rest := fun _ => rfl
  rw [UnitText.behindKeyword, tokensAt_append, tokensAt_gaps, List.nil_append, hcons,
    List.cons_append, declarationAt?_cons ht rfl, headingAndBody_rest, List.reverse_reverse]
  congr 1
  funext kind
  simp only [charsOf_append, charsOf_cons, encode_append, List.length_append, List.length_cons,
    Nat.add_assoc, Nat.add_comm 1]
  rfl

end ContractBuild.Source
