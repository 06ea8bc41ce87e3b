import ContractBuild.Source.Token

/-! The units that a source declares at file scope: contracts, interfaces and libraries, each with
its base names and its place, from the first keyword to the closing brace. -/

namespace ContractBuild.Source

inductive UnitKind where
  | contract
  | abstractContract
  | interface
  | library
  deriving DecidableEq, Repr

def UnitKind.label : UnitKind → String
  | .contract => "contract"
  | .abstractContract => "abstract contract"
  | .interface => "interface"
  | .library => "library"

structure Declaration where
  name : String
  kind : UnitKind
  bases : List String
  start : Nat
  stop : Nat
  deriving DecidableEq, Repr

def openBrace : UInt8 := 0x7B
def closeBrace : UInt8 := 0x7D
def openParen : UInt8 := 0x28
def closeParen : UInt8 := 0x29
def comma : UInt8 := 0x2C

def isAbstract (t : Option Token) : Bool :=
  t.any (·.lexeme == .word "abstract")

def kindOf? (keyword : String) (isAbstract : Bool) : Option UnitKind :=
  if keyword = "contract" then some (if isAbstract then .abstractContract else .contract)
  else if keyword = "interface" then some .interface
  else if keyword = "library" then some .library
  else none

/-- `bases` is the last one first. -/
structure Heading where
  bases : List String
  parens : Nat
  expectsBase : Bool

def Heading.empty : Heading := ⟨[], 0, false⟩

def Heading.take (h : Heading) : Lexeme → Heading
  | .mark b =>
    if b = openParen then { h with parens := h.parens + 1 }
    else if b = closeParen then { h with parens := h.parens - 1 }
    else if b = comma ∧ h.parens = 0 then { h with expectsBase := true }
    else h
  | .word w =>
    if h.parens ≠ 0 then h
    else if w = "is" ∧ h.bases = [] then { h with expectsBase := true }
    else if h.expectsBase then { h with bases := w :: h.bases, expectsBase := false }
    else h

structure BodyEnd where
  stop : Nat
  count : Nat

def bodyEnd (textLength depth count : Nat) : List Token → BodyEnd
  | [] => ⟨textLength, count⟩
  | t :: rest =>
    if t.lexeme = .mark openBrace then bodyEnd textLength (depth + 1) (count + 1) rest
    else if t.lexeme = .mark closeBrace then
      if depth ≤ 1 then ⟨t.stop, count + 1⟩ else bodyEnd textLength (depth - 1) (count + 1) rest
    else bodyEnd textLength depth (count + 1) rest

def headingAndBody (textLength : Nat) (h : Heading) (count : Nat) :
    List Token → Heading × BodyEnd
  | [] => (h, ⟨textLength, count⟩)
  | t :: rest =>
    if t.lexeme = .mark openBrace ∧ h.parens = 0 then (h, bodyEnd textLength 1 (count + 1) rest)
    else headingAndBody textLength (h.take t.lexeme) (count + 1) rest

/-- The count is that of the tokens behind the keyword `t`. -/
def declarationAt? (textLength : Nat) (previous : Option Token) (t : Token) (rest : List Token) :
    Option (Declaration × Nat) :=
  match t.lexeme, rest with
  | .word keyword, ⟨.word name, _, _⟩ :: more =>
    match kindOf? keyword (isAbstract previous) with
    | none => none
    | some kind =>
      let (h, body) := headingAndBody textLength .empty 1 more
      let start :=
        match previous with
        | some p => if isAbstract previous then p.start else t.start
        | none => t.start
      some (⟨name, kind, h.bases.reverse, start, body.stop⟩, body.count)
  | _, _ => none

def declarationsOnto (textLength : Nat) (found : List Declaration) (skip depth : Nat)
    (previous : Option Token) : List Token → List Declaration
  | [] => found.reverse
  | t :: rest =>
    match skip with
    | skip + 1 => declarationsOnto textLength found skip depth (some t) rest
    | 0 =>
      if t.lexeme = .mark openBrace then
        declarationsOnto textLength found 0 (depth + 1) (some t) rest
      else if t.lexeme = .mark closeBrace then
        declarationsOnto textLength found 0 (depth - 1) (some t) rest
      else if depth = 0 then
        match declarationAt? textLength previous t rest with
        | some (d, n) => declarationsOnto textLength (d :: found) n 0 (some t) rest
        | none => declarationsOnto textLength found 0 0 (some t) rest
      else declarationsOnto textLength found 0 depth (some t) rest

def declarations (text : List UInt8) : List Declaration :=
  declarationsOnto text.length [] 0 0 none (tokens text)

end ContractBuild.Source
