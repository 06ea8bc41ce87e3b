import ContractBuild.Proofs.JsonDigits
import ContractBuild.Proofs.JsonStrings

/-! What the indented text of a JSON value reads as. Reading goes wrong only for numbers whose texts are
not read back, and in texts that are too deep; what it makes of a value is found without its text. -/

namespace ContractBuild.Json

def numberFront : List Char → Option (Json × List Char)
  | '-' :: rest => number? true rest
  | s => number? false s

def numberOf? (s : List Char) : Option Json :=
  match numberFront s with
  | some (v, []) => some v
  | _ => none

mutual

/-- What the text of a value reads as, in a reader that goes deep enough. -/
def reread : Json → Option Json
  | .integer n => numberOf? (toString n).toList
  | .real d => numberOf? (realText d).toList
  | .array items => (rereadItems items).map .array
  | .object members => (rereadMembers members).map fun ms => .object (NameMap.ofList ms).entries
  | v => some v

def rereadItems : List Json → Option (List Json)
  | [] => some []
  | x :: xs =>
    match reread x, rereadItems xs with
    | some y, some ys => some (y :: ys)
    | _, _ => none

def rereadMembers : List (String × Json) → Option (List (String × Json))
  | [] => some []
  | (k, x) :: xs =>
    match reread x, rereadMembers xs with
    | some y, some ys => some ((k, y) :: ys)
    | _, _ => none

end

mutual

def steps : Json → Nat
  | .array items => 1 + stepsItems items
  | .object members => 1 + stepsMembers members
  | _ => 1

def stepsItems : List Json → Nat
  | [] => 0
  | x :: xs => 1 + max (steps x) (stepsItems xs)

def stepsMembers : List (String × Json) → Nat
  | [] => 0
  | (_, x) :: xs => 1 + max (steps x) (stepsMembers xs)

end

section Blanks

theorem skipBlanks_of_head {c : Char} (h : isBlank c = false) (s : List Char) :
    skipBlanks (c :: s) = c :: s := by
  rw [skipBlanks, List.dropWhile_cons, h, if_neg Bool.false_ne_true]

theorem skipBlanks_blank {c : Char} (h : isBlank c = true) (s : List Char) :
    skipBlanks (c :: s) = skipBlanks s := by
  rw [skipBlanks, List.dropWhile_cons, h, if_pos rfl, skipBlanks]

theorem skipBlanks_newline (level : Nat) (s : List Char) :
    skipBlanks ((newline level).toList ++ s) = skipBlanks s := by
  simp only [newline, String.toList_append, String.toList_ofList, List.append_assoc]
  show skipBlanks ('\n' :: (List.replicate (2 * level) ' ' ++ s)) = _
  rw [skipBlanks_blank rfl]
  induction 2 * level with
  | zero => rfl
  | succ n ih => rw [List.replicate_succ, List.cons_append, skipBlanks_blank rfl, ih]

theorem skipBlanks_skipBlanks (s : List Char) : skipBlanks (skipBlanks s) = skipBlanks s := by
  induction s with
  | nil => rfl
  | cons c s ih =>
    cases hc : isBlank c with
    | true => rw [skipBlanks_blank hc, ih]
    | false => rw [skipBlanks_of_head hc, skipBlanks_of_head hc]

theorem value?_skipBlanks (n depth : Nat) (s : List Char) :
    value? n depth (skipBlanks s) = value? n depth s := by
  cases n with
  | zero => rfl
  | succ n => rw [value?, value?, skipBlanks_skipBlanks]

theorem endsNumber_newline (level : Nat) (s : List Char) :
    EndsNumber ((newline level).toList ++ s) := by
  rw [newline, String.toList_append, List.append_assoc]
  exact endsNumber_cons rfl

end Blanks

section Settled

def isSettled (s : List Char) : Bool :=
  match skipBlanks s with
  | [] => true
  | c :: _ => c == ',' || c == ']' || c == '\x7d'

/-- Only what a reader of arrays, of objects or of whole texts would go on with. -/
def settled (found : Option (Json × List Char)) : Option (Json × List Char) :=
  found.filter fun r => isSettled r.2

structure Ends (rest : List Char) : Prop where
  number : EndsNumber rest
  settled : isSettled rest = true

theorem settled_some {rest : List Char} (h : Ends rest) (v : Json) :
    settled (some (v, rest)) = some (v, rest) := by
  rw [Json.settled, Option.filter_some, if_pos h.settled]

theorem not_isSettled_of_number {c : Char} (h : isNumberChar c = true) (s : List Char) :
    isSettled (c :: s) = false := by
  have hne : ∀ d, isNumberChar d = false → c ≠ d := by
    rintro d hd rfl
    rw [h] at hd
    cases hd
  have hblank : isBlank c = false := by
    simp [isBlank, hne ' ' rfl, hne '\n' rfl, hne '\t' rfl, hne '\r' rfl]
  rw [isSettled, skipBlanks_of_head hblank]
  simp [hne ',' rfl, hne ']' rfl, hne '\x7d' rfl]

end Settled

section Numbers

variable {s rest : List Char}

theorem numberFront_unsigned (h : Unsigned s) : numberFront s = number? false s := by
  obtain ⟨c, more, rfl, hc⟩ := h.head
  unfold numberFront
  split
  · rename_i he
    cases he
    exact absurd hc (by decide)
  · rfl

theorem numberFront_append (hs : NumberText s) (h : EndsNumber rest) :
    numberFront (s ++ rest) = extend rest (numberFront s) := by
  rcases hs with hs | ⟨more, rfl, hmore⟩
  · obtain ⟨c, more, he, hc⟩ := hs.head
    have happend : numberFront (s ++ rest) = number? false (s ++ rest) := by
      subst he
      rw [List.cons_append]
      unfold numberFront
      split
      · rename_i he
        cases he
        exact absurd hc (by decide)
      · rfl
    rw [happend, numberFront_unsigned hs]
    exact number?_append _ h (he ▸ List.cons_ne_nil _ _)
  · obtain ⟨c, tail, he, -⟩ := hmore.head
    exact number?_append true h (he ▸ List.cons_ne_nil _ _)

theorem numberFront_suffix {v : Json} {r : List Char} (h : numberFront s = some (v, r)) : r <:+ s := by
  unfold numberFront at h
  split at h
  · exact (number?_suffix h).trans (List.suffix_cons _ _)
  · exact number?_suffix h

theorem NumberText.chars (hs : NumberText s) : ∀ c ∈ s, isNumberChar c = true := by
  rcases hs with hs | ⟨more, rfl, hmore⟩
  · exact hs.chars
  · intro c hc
    rcases List.mem_cons.1 hc with rfl | hc
    · rfl
    · exact hmore.chars c hc

theorem NumberText.head (hs : NumberText s) :
    ∃ c more, s = c :: more ∧ (isDigit c = true ∨ c = '-') := by
  rcases hs with hs | ⟨more, rfl, -⟩
  · obtain ⟨c, more, he, hc⟩ := hs.head
    exact ⟨c, more, he, Or.inl hc⟩
  · exact ⟨'-', more, rfl, Or.inr rfl⟩

theorem value?_digit {c : Char} (hc : isDigit c = true) (n depth : Nat) (more : List Char) :
    value? (n + 1) depth (c :: more) = number? false (c :: more) := by
  have hne : ∀ d, isDigit d = false → c ≠ d := by
    rintro d hd rfl
    rw [hc] at hd
    cases hd
  have hblank : isBlank c = false := by
    simp [isBlank, hne ' ' rfl, hne '\n' rfl, hne '\t' rfl, hne '\r' rfl]
  have hcons : ∀ {d : Char} {s : List Char}, c :: more = d :: s → isDigit d = false → False :=
    fun he hd => hne _ hd (List.cons.inj he).1
  rw [value?, skipBlanks_of_head hblank]
  -- All other values begin with something that is no digit.
  split <;> first | exact (hcons ‹_› rfl).elim | rfl

theorem value?_number (hs : NumberText s) (n depth : Nat) (rest : List Char) :
    value? (n + 1) depth (s ++ rest) = numberFront (s ++ rest) := by
  rcases hs with hs | ⟨more, rfl, -⟩
  · obtain ⟨c, more, rfl, hc⟩ := hs.head
    rw [List.cons_append, value?_digit hc]
    unfold numberFront
    split
    · rename_i he
      cases he
      exact absurd hc (by decide)
    · rfl
  · rw [List.cons_append, value?, skipBlanks_of_head rfl]
    rfl

theorem settled_number (hs : NumberText s) (h : Ends rest) (n depth : Nat) :
    settled (value? (n + 1) depth (s ++ rest)) = (numberOf? s).map (·, rest) := by
  rw [value?_number hs, numberFront_append hs h.number, numberOf?]
  rcases hf : numberFront s with _ | ⟨v, _ | ⟨c, r⟩⟩
  · rfl
  · exact settled_some h v
  · have hc := hs.chars c ((numberFront_suffix hf).subset List.mem_cons_self)
    show settled (some (v, c :: (r ++ rest))) = none
    rw [settled, Option.filter_some, not_isSettled_of_number hc, if_neg Bool.false_ne_true]

end Numbers

section Lines

def lines (level : Nat) (ls : List String) : List Char :=
  (("," ++ newline level).intercalate ls).toList

theorem lines_singleton (level : Nat) (a : String) : lines level [a] = a.toList := by
  rw [lines, String.intercalate_singleton]

theorem lines_cons (level : Nat) (a b : String) (ls : List String) : lines level (a :: b :: ls) =
    a.toList ++ ',' :: ((newline level).toList ++ lines level (b :: ls)) := by
  rw [lines, lines, String.toList_intercalate, String.toList_intercalate, List.map_cons, List.map_cons,
    List.intercalate_cons_cons, String.toList_append, List.append_assoc, List.append_assoc]
  rfl

theorem toList_bracketed (opening closing : String) (level : Nat) {ls : List String} (h : ls ≠ []) :
    (bracketed opening closing level ls).toList = opening.toList ++ ((newline (level + 1)).toList ++
      (lines (level + 1) ls ++ ((newline level).toList ++ closing.toList))) := by
  rw [bracketed]
  · simp only [String.toList_append, List.append_assoc, lines]
  · exact h

theorem toList_indented_array (level : Nat) (x : Json) (xs : List Json) :
    (indented level (.array (x :: xs))).toList = '[' :: ((newline (level + 1)).toList ++
      (lines (level + 1) (indentedItems (level + 1) (x :: xs)) ++ ((newline level).toList ++ [']']))) := by
  rw [indented, toList_bracketed]
  · rfl
  · rw [indentedItems]
    exact List.cons_ne_nil _ _

theorem toList_indented_object (level : Nat) (m : String × Json) (ms : List (String × Json)) :
    (indented level (.object (m :: ms))).toList = '\x7b' :: ((newline (level + 1)).toList ++
      (lines (level + 1) (indentedMembers (level + 1) (m :: ms)) ++
        ((newline level).toList ++ ['\x7d']))) := by
  obtain ⟨k, x⟩ := m
  rw [indented, toList_bracketed]
  · rfl
  · rw [indentedMembers]
    exact List.cons_ne_nil _ _

theorem toList_member (level : Nat) (k : String) (x : Json) :
    (stringText k ++ ": " ++ indented level x).toList =
      '"' :: (k.toList.flatMap (fun c => (escapedChar c).toList) ++
        '"' :: ':' :: ' ' :: (indented level x).toList) := by
  rw [String.toList_append, String.toList_append, toList_stringText, List.cons_append,
    List.cons_append, List.append_assoc, List.append_assoc]
  rfl

theorem toList_indented_null (level : Nat) : (indented level .null).toList = ['n', 'u', 'l', 'l'] := by
  rw [indented]
  decide

theorem toList_indented_true (level : Nat) :
    (indented level (.bool true)).toList = ['t', 'r', 'u', 'e'] := by
  rw [indented]
  decide

theorem toList_indented_false (level : Nat) :
    (indented level (.bool false)).toList = ['f', 'a', 'l', 's', 'e'] := by
  rw [indented]
  decide

theorem toList_indented_nil (level : Nat) : (indented level (.array [])).toList = ['[', ']'] := by
  rw [indented, indentedItems, bracketed]
  decide

theorem toList_indented_empty (level : Nat) :
    (indented level (.object [])).toList = ['\x7b', '\x7d'] := by
  rw [indented, indentedMembers, bracketed]
  decide

theorem indented_head (level : Nat) (v : Json) :
    ∃ c more, (indented level v).toList = c :: more ∧ isBlank c = false ∧ c ≠ ']' := by
  have hnumber : ∀ {s : List Char}, NumberText s →
      ∃ c more, s = c :: more ∧ isBlank c = false ∧ c ≠ ']' := by
    intro s hs
    obtain ⟨c, more, he, hc⟩ := hs.head
    refine ⟨c, more, he, ?_⟩
    rcases hc with hc | rfl
    · have hne : ∀ d, isDigit d = false → c ≠ d := by
        rintro d hd rfl
        rw [hc] at hd
        cases hd
      simp [isBlank, hne ' ' rfl, hne '\n' rfl, hne '\t' rfl, hne '\r' rfl, hne ']' rfl]
    · decide
  cases v with
  | null => exact ⟨'n', _, toList_indented_null level, rfl, by decide⟩
  | bool b =>
    cases b with
    | true => exact ⟨'t', _, toList_indented_true level, rfl, by decide⟩
    | false => exact ⟨'f', _, toList_indented_false level, rfl, by decide⟩
  | integer n => exact hnumber (numberText_integer n)
  | real d => exact hnumber (numberText_real d)
  | string s => exact ⟨'"', _, toList_stringText s, rfl, by decide⟩
  | array items =>
    cases items with
    | nil => exact ⟨'[', _, toList_indented_nil level, rfl, by decide⟩
    | cons x xs => exact ⟨'[', _, toList_indented_array level x xs, rfl, by decide⟩
  | object members =>
    cases members with
    | nil => exact ⟨'\x7b', _, toList_indented_empty level, rfl, by decide⟩
    | cons m ms => exact ⟨'\x7b', _, toList_indented_object level m ms, rfl, by decide⟩

end Lines

section OneStep

variable {n depth : Nat} {s r rest : List Char} {v : Json}

theorem eq_some_of_settled {found : Option (Json × List Char)} (h : settled found = some (v, r)) :
    found = some (v, r) := (Option.filter_eq_some_iff.1 h).1

theorem isSettled_of_next {c : Char} {more : List Char} (h : skipBlanks s = c :: more)
    (hc : c = ',' ∨ c = ']' ∨ c = '\x7d') : isSettled s = true := by
  rw [isSettled, h]
  rcases hc with rfl | rfl | rfl
  · rfl
  · rfl
  · rfl

theorem items?_none (h : settled (value? n depth s) = none) (done : List Json) :
    items? (n + 1) depth done s = none := by
  rw [items?]
  cases hv : value? n depth s with
  | none => rfl
  | some found =>
    obtain ⟨v, r⟩ := found
    rw [hv] at h
    dsimp only
    split
    · rename_i hnext
      rw [settled, Option.filter_some, isSettled_of_next hnext (Or.inl rfl)] at h
      cases h
    · rename_i hnext
      rw [settled, Option.filter_some, isSettled_of_next hnext (Or.inr (Or.inl rfl))] at h
      cases h
    · rfl

theorem items?_comma (h : settled (value? n depth s) = some (v, r))
    (hr : skipBlanks r = ',' :: rest) (done : List Json) :
    items? (n + 1) depth done s = items? n depth (v :: done) rest := by
  rw [items?, eq_some_of_settled h]
  dsimp only
  rw [hr]
  rfl

theorem items?_close (h : settled (value? n depth s) = some (v, r))
    (hr : skipBlanks r = ']' :: rest) (done : List Json) :
    items? (n + 1) depth done s = some (.array (v :: done).reverse, rest) := by
  rw [items?, eq_some_of_settled h]
  dsimp only
  rw [hr]
  rfl

def memberFront (k : String) (s : List Char) : List Char :=
  '"' :: (k.toList.flatMap (fun c => (escapedChar c).toList) ++ '"' :: ':' :: ' ' :: s)

theorem members?_front (k : String) (s : List Char) (done : List (String × Json)) :
    members? (n + 1) depth done (memberFront k s) =
      match value? n depth s with
      | none => none
      | some (v, rest) =>
        match skipBlanks rest with
        | ',' :: rest => members? n depth ((k, v) :: done) rest
        | '\x7d' :: rest => some (.object (sortedMembers ((k, v) :: done)), rest)
        | _ => none := by
  have hblank : value? n depth (' ' :: s) = value? n depth s := by
    rw [← value?_skipBlanks, skipBlanks_blank rfl, value?_skipBlanks]
  have hcolon : skipBlanks (':' :: ' ' :: s) = ':' :: ' ' :: s := skipBlanks_of_head rfl _
  rw [members?, memberFront, skipBlanks_of_head rfl]
  simp only [string?_escaped, hcolon]
  exact hblank ▸ rfl

theorem members?_none (h : settled (value? n depth s) = none) (k : String)
    (done : List (String × Json)) : members? (n + 1) depth done (memberFront k s) = none := by
  rw [members?_front]
  cases hv : value? n depth s with
  | none => rfl
  | some found =>
    obtain ⟨v, r⟩ := found
    rw [hv] at h
    dsimp only
    split
    · rename_i hnext
      rw [settled, Option.filter_some, isSettled_of_next hnext (Or.inl rfl)] at h
      cases h
    · rename_i hnext
      rw [settled, Option.filter_some, isSettled_of_next hnext (Or.inr (Or.inr rfl))] at h
      cases h
    · rfl

theorem members?_comma (h : settled (value? n depth s) = some (v, r))
    (hr : skipBlanks r = ',' :: rest) (k : String) (done : List (String × Json)) :
    members? (n + 1) depth done (memberFront k s) = members? n depth ((k, v) :: done) rest := by
  rw [members?_front, eq_some_of_settled h]
  dsimp only
  rw [hr]
  rfl

theorem members?_close (h : settled (value? n depth s) = some (v, r))
    (hr : skipBlanks r = '\x7d' :: rest) (k : String) (done : List (String × Json)) :
    members? (n + 1) depth done (memberFront k s) =
      some (.object (sortedMembers ((k, v) :: done)), rest) := by
  rw [members?_front, eq_some_of_settled h]
  dsimp only
  rw [hr]
  rfl

end OneStep

section Texts

theorem ends_comma (s : List Char) : Ends (',' :: s) := ⟨endsNumber_cons rfl, rfl⟩

theorem settled_leaf {v w : Json} {n depth : Nat} {s rest : List Char} (hdepth : v.depth = 0)
    (hv : reread v = some w) (h : Ends rest) (hread : value? n depth s = some (w, rest)) :
    settled (value? n depth s) = if v.depth ≤ depth then (reread v).map (·, rest) else none := by
  rw [hread, hv, hdepth, if_pos (Nat.zero_le _)]
  exact settled_some h w

theorem value?_array {n depth : Nat} {c : Char} {s : List Char} (hc : isBlank c = false)
    (hne : c ≠ ']') (level : Nat) :
    value? (n + 1) (depth + 1) ('[' :: ((newline level).toList ++ c :: s)) =
      items? n depth [] (c :: s) := by
  rw [value?, skipBlanks_of_head rfl]
  simp only [skipBlanks_newline, skipBlanks_of_head hc]
  split
  · rename_i he
    exact absurd (List.cons.inj he).1 hne
  · rfl

theorem value?_object {n depth : Nat} (k : String) (s : List Char) (level : Nat) :
    value? (n + 1) (depth + 1) ('\x7b' :: ((newline level).toList ++ memberFront k s)) =
      members? n depth [] (memberFront k s) := by
  have hquote : skipBlanks (memberFront k s) = memberFront k s := skipBlanks_of_head rfl _
  rw [value?, skipBlanks_of_head rfl]
  simp only [skipBlanks_newline, hquote]
  rfl

theorem value?_tooDeep (c : Char) (hc : c = '[' ∨ c = '\x7b') (n : Nat) (s : List Char) :
    value? (n + 1) 0 (c :: s) = none := by
  rcases hc with rfl | rfl
  · rw [value?, skipBlanks_of_head rfl]
    rfl
  · rw [value?, skipBlanks_of_head rfl]
    rfl

theorem settled_nested {α : Type} {rest : List Char} (h : Ends rest) (inner depth : Nat)
    (found : Option α) (f : α → Json) :
    settled (if inner ≤ depth then found.map fun y => (f y, rest) else none) =
      if 1 + inner ≤ depth + 1 then (found.map f).map (·, rest) else none := by
  by_cases hd : inner ≤ depth
  · rw [if_pos hd, if_pos (by omega)]
    cases found with
    | none => rfl
    | some y => exact settled_some h (f y)
  · rw [if_neg hd, if_neg (by omega)]
    rfl

theorem items?_newline (n depth level : Nat) (done : List Json) (s : List Char) :
    items? n depth done ((newline level).toList ++ s) = items? n depth done s := by
  cases n with
  | zero => rfl
  | succ n => rw [items?, items?, ← value?_skipBlanks, skipBlanks_newline, value?_skipBlanks]

theorem members?_newline (n depth level : Nat) (done : List (String × Json)) (s : List Char) :
    members? n depth done ((newline level).toList ++ s) = members? n depth done s := by
  cases n with
  | zero => rfl
  | succ n => rw [members?, members?, skipBlanks_newline]

theorem toList_member_append (level : Nat) (k : String) (x : Json) (s : List Char) :
    (stringText k ++ ": " ++ indented level x).toList ++ s =
      memberFront k ((indented level x).toList ++ s) := by
  rw [toList_member, memberFront]
  simp

theorem lines_head (level : Nat) (x : Json) (xs : List Json) :
    ∃ c more, lines level (indentedItems level (x :: xs)) = c :: more ∧ isBlank c = false ∧
      c ≠ ']' := by
  obtain ⟨c, more, he, hc⟩ := indented_head level x
  cases xs with
  | nil =>
    rw [indentedItems, indentedItems, lines_singleton]
    exact ⟨c, more, he, hc⟩
  | cons y ys =>
    rw [indentedItems, indentedItems, lines_cons, he, List.cons_append]
    exact ⟨c, _, rfl, hc⟩

theorem lines_front (level : Nat) (m : String × Json) (ms : List (String × Json))
    (tail : List Char) :
    ∃ s, lines level (indentedMembers level (m :: ms)) ++ tail = memberFront m.1 s := by
  obtain ⟨k, x⟩ := m
  cases ms with
  | nil =>
    rw [indentedMembers, indentedMembers, lines_singleton, toList_member_append]
    exact ⟨_, rfl⟩
  | cons m ms =>
    obtain ⟨k', x'⟩ := m
    rw [indentedMembers, indentedMembers, lines_cons, List.append_assoc, toList_member_append]
    exact ⟨_, rfl⟩

theorem skipBlanks_lastLine (level : Nat) {c : Char} (hc : isBlank c = false) (rest : List Char) :
    skipBlanks ((newline level).toList ++ c :: rest) = c :: rest := by
  rw [skipBlanks_newline, skipBlanks_of_head hc]

section Nested

variable {level n : Nat} {rest : List Char}

theorem settled_array {x : Json} {xs : List Json} (h : Ends rest)
    (hitems : ∀ depth, items? n depth [] (lines (level + 1) (indentedItems (level + 1) (x :: xs)) ++
        ((newline level).toList ++ ']' :: rest)) =
      if depthItems (x :: xs) ≤ depth then
        (rereadItems (x :: xs)).map fun ys => (.array ys, rest)
      else none) (depth : Nat) :
    settled (value? (n + 1) depth ((indented level (.array (x :: xs))).toList ++ rest)) =
      if (Json.array (x :: xs)).depth ≤ depth then (reread (.array (x :: xs))).map (·, rest)
      else none := by
  rw [toList_indented_array, Json.depth]
  cases depth with
  | zero =>
    rw [List.cons_append, value?_tooDeep '[' (Or.inl rfl), if_neg (by omega)]
    rfl
  | succ depth =>
    have hinner := hitems depth
    obtain ⟨c, more, he, hblank, hne⟩ := lines_head (level + 1) x xs
    have htext : '[' :: ((newline (level + 1)).toList ++
        (lines (level + 1) (indentedItems (level + 1) (x :: xs)) ++
          ((newline level).toList ++ [']']))) ++ rest =
        '[' :: ((newline (level + 1)).toList ++ c :: (more ++
          ((newline level).toList ++ ']' :: rest))) := by
      rw [he]
      simp
    rw [he, List.cons_append] at hinner
    rw [htext, value?_array hblank hne, hinner, reread]
    exact settled_nested h _ _ _ _

theorem settled_object {m : String × Json} {ms : List (String × Json)} (h : Ends rest)
    (hmembers : ∀ depth, members? n depth []
        (lines (level + 1) (indentedMembers (level + 1) (m :: ms)) ++
          ((newline level).toList ++ '\x7d' :: rest)) =
      if depthMembers (m :: ms) ≤ depth then
        (rereadMembers (m :: ms)).map fun ys => (.object (NameMap.ofList ys).entries, rest)
      else none) (depth : Nat) :
    settled (value? (n + 1) depth ((indented level (.object (m :: ms))).toList ++ rest)) =
      if (Json.object (m :: ms)).depth ≤ depth then (reread (.object (m :: ms))).map (·, rest)
      else none := by
  rw [toList_indented_object, Json.depth]
  cases depth with
  | zero =>
    rw [List.cons_append, value?_tooDeep '\x7b' (Or.inr rfl), if_neg (by omega)]
    rfl
  | succ depth =>
    have hinner := hmembers depth
    obtain ⟨s, he⟩ := lines_front (level + 1) m ms ((newline level).toList ++ '\x7d' :: rest)
    have htext : '\x7b' :: ((newline (level + 1)).toList ++
        (lines (level + 1) (indentedMembers (level + 1) (m :: ms)) ++
          ((newline level).toList ++ ['\x7d']))) ++ rest =
        '\x7b' :: ((newline (level + 1)).toList ++ memberFront m.1 s) := by
      rw [← he]
      simp
    rw [he] at hinner
    rw [htext, value?_object, hinner, reread]
    exact settled_nested h _ _ _ _

end Nested

mutual

-- By induction on the value, as the parser goes: the steps that are left are those of what is nested.
theorem settled_value? : (v : Json) → ∀ (level n depth : Nat) (rest : List Char), v.steps ≤ n →
    Ends rest → settled (value? n depth ((indented level v).toList ++ rest)) =
      if v.depth ≤ depth then (reread v).map (·, rest) else none
  | .null, level, n + 1, depth, rest, _, h => by
    refine settled_leaf (by simp [Json.depth]) rfl h ?_
    rw [toList_indented_null, value?]
    rfl
  | .bool true, level, n + 1, depth, rest, _, h => by
    refine settled_leaf (by simp [Json.depth]) rfl h ?_
    rw [toList_indented_true, value?]
    rfl
  | .bool false, level, n + 1, depth, rest, _, h => by
    refine settled_leaf (by simp [Json.depth]) rfl h ?_
    rw [toList_indented_false, value?]
    rfl
  | .integer k, level, n + 1, depth, rest, _, h => by
    rw [indented, settled_number (numberText_integer k) h n depth, if_pos]
    · rfl
    · simp [Json.depth]
  | .real d, level, n + 1, depth, rest, _, h => by
    rw [indented, settled_number (numberText_real d) h n depth, if_pos]
    · rfl
    · simp [Json.depth]
  | .string s, level, n + 1, depth, rest, _, h => by
    refine settled_leaf (by simp [Json.depth]) rfl h ?_
    rw [indented, toList_stringText, List.cons_append, List.append_assoc, value?,
      skipBlanks_of_head rfl]
    show (string? (_ ++ '"' :: rest)).map _ = _
    rw [string?_escaped]
    rfl
  | .array [], level, n + 1, depth, rest, _, h => by
    rw [toList_indented_nil, Json.depth, depthItems]
    cases depth with
    | zero => rfl
    | succ depth =>
      rw [if_pos (Nat.le_add_left _ _), value?]
      exact settled_some h _
  | .array (x :: xs), level, 0, _, _, hn, _ => by
    rw [steps] at hn
    omega
  | .array (x :: xs), level, n + 1, depth, rest, hn, h => by
    rw [steps] at hn
    refine settled_array h (fun depth => ?_) depth
    exact items?_lines x xs (level + 1) n depth [] _ rest (by omega) (endsNumber_newline level _)
      (skipBlanks_lastLine level rfl rest)
  | .object [], level, n + 1, depth, rest, _, h => by
    rw [toList_indented_empty, Json.depth, depthMembers]
    cases depth with
    | zero => rfl
    | succ depth =>
      rw [if_pos (Nat.le_add_left _ _), value?]
      exact settled_some h _
  | .object (m :: ms), level, 0, _, _, hn, _ => by
    rw [steps] at hn
    omega
  | .object (m :: ms), level, n + 1, depth, rest, hn, h => by
    rw [steps] at hn
    refine settled_object h (fun depth => ?_) depth
    exact members?_lines m ms (level + 1) n depth [] _ rest (by omega)
      (endsNumber_newline level _) (skipBlanks_lastLine level rfl rest)
termination_by v => sizeOf v

theorem items?_lines : (x : Json) → (xs : List Json) → ∀ (level n depth : Nat) (done : List Json)
    (tail rest : List Char), stepsItems (x :: xs) ≤ n → EndsNumber tail →
    skipBlanks tail = ']' :: rest →
    items? n depth done (lines level (indentedItems level (x :: xs)) ++ tail) =
      if depthItems (x :: xs) ≤ depth then
        (rereadItems (x :: xs)).map fun ys => (.array (done.reverse ++ ys), rest)
      else none
  | x, [], level, n, depth, done, tail, rest, hn, hnumber, htail => by
    rw [stepsItems, stepsItems] at hn
    obtain ⟨n, rfl⟩ : ∃ m, n = m + 1 := ⟨n - 1, by omega⟩
    have hx := settled_value? x level n depth tail (by omega)
      ⟨hnumber, isSettled_of_next htail (Or.inr (Or.inl rfl))⟩
    rw [indentedItems, indentedItems, lines_singleton, depthItems, depthItems, Nat.max_zero,
      rereadItems, rereadItems]
    by_cases hd : x.depth ≤ depth
    · rw [if_pos hd] at hx ⊢
      cases hr : reread x with
      | none =>
        rw [hr] at hx
        exact items?_none hx done
      | some y =>
        rw [hr] at hx
        rw [items?_close hx htail, List.reverse_cons]
        rfl
    · rw [if_neg hd] at hx ⊢
      exact items?_none hx done
  | x, y :: ys, level, n, depth, done, tail, rest, hn, hnumber, htail => by
    rw [stepsItems] at hn
    obtain ⟨n, rfl⟩ : ∃ m, n = m + 1 := ⟨n - 1, by omega⟩
    have hx := settled_value? x level n depth
      (',' :: ((newline level).toList ++ (lines level (indentedItems level (y :: ys)) ++ tail)))
      (by omega) (ends_comma _)
    have hrest := fun z => items?_lines y ys level n depth (z :: done) tail rest (by omega) hnumber htail
    have htext : lines level (indentedItems level (x :: y :: ys)) ++ tail =
        (indented level x).toList ++ ',' :: ((newline level).toList ++
          (lines level (indentedItems level (y :: ys)) ++ tail)) := by
      rw [indentedItems, indentedItems, lines_cons]
      simp
    rw [htext, depthItems, rereadItems]
    -- An item that is too deep or is not read back ends the reading; another one leads to the rest.
    by_cases hd : x.depth ≤ depth
    · rw [if_pos hd] at hx
      cases hr : reread x with
      | none =>
        rw [hr] at hx
        rw [items?_none hx done]
        exact (ite_self _).symm
      | some z =>
        rw [hr] at hx
        rw [items?_comma hx (skipBlanks_of_head rfl _), items?_newline, hrest]
        simp only [Nat.max_le, and_iff_right hd]
        cases rereadItems (y :: ys) with
        | none => rfl
        | some zs => simp
    · rw [if_neg hd] at hx
      rw [items?_none hx done, if_neg (fun h => hd (Nat.max_le.1 h).1)]
termination_by x xs => sizeOf (x :: xs)

theorem members?_lines : (m : String × Json) → (ms : List (String × Json)) →
    ∀ (level n depth : Nat) (done : List (String × Json)) (tail rest : List Char),
    stepsMembers (m :: ms) ≤ n → EndsNumber tail → skipBlanks tail = '\x7d' :: rest →
    members? n depth done (lines level (indentedMembers level (m :: ms)) ++ tail) =
      if depthMembers (m :: ms) ≤ depth then
        (rereadMembers (m :: ms)).map fun ys =>
          (.object (NameMap.ofList (done.reverse ++ ys)).entries, rest)
      else none
  | (k, x), [], level, n, depth, done, tail, rest, hn, hnumber, htail => by
    rw [stepsMembers, stepsMembers] at hn
    obtain ⟨n, rfl⟩ : ∃ m, n = m + 1 := ⟨n - 1, by omega⟩
    have hx := settled_value? x level n depth tail (by omega)
      ⟨hnumber, isSettled_of_next htail (Or.inr (Or.inr rfl))⟩
    rw [indentedMembers, indentedMembers, lines_singleton, toList_member_append, depthMembers,
      depthMembers, Nat.max_zero, rereadMembers, rereadMembers]
    by_cases hd : x.depth ≤ depth
    · rw [if_pos hd] at hx ⊢
      cases hr : reread x with
      | none =>
        rw [hr] at hx
        exact members?_none hx k done
      | some y =>
        rw [hr] at hx
        rw [members?_close hx htail, sortedMembers, List.reverse_cons]
        rfl
    · rw [if_neg hd] at hx ⊢
      exact members?_none hx k done
  | (k, x), m :: ms, level, n, depth, done, tail, rest, hn, hnumber, htail => by
    rw [stepsMembers] at hn
    obtain ⟨n, rfl⟩ : ∃ m, n = m + 1 := ⟨n - 1, by omega⟩
    have hx := settled_value? x level n depth
      (',' :: ((newline level).toList ++ (lines level (indentedMembers level (m :: ms)) ++ tail)))
      (by omega) (ends_comma _)
    have hrest := fun z => members?_lines m ms level n depth ((k, z) :: done) tail rest (by omega)
      hnumber htail
    have htext : lines level (indentedMembers level ((k, x) :: m :: ms)) ++ tail =
        memberFront k ((indented level x).toList ++ ',' :: ((newline level).toList ++
          (lines level (indentedMembers level (m :: ms)) ++ tail))) := by
      rw [← toList_member_append, indentedMembers]
      obtain ⟨k', x'⟩ := m
      rw [indentedMembers, lines_cons]
      simp
    rw [htext, depthMembers, rereadMembers]
    by_cases hd : x.depth ≤ depth
    · rw [if_pos hd] at hx
      cases hr : reread x with
      | none =>
        rw [hr] at hx
        rw [members?_none hx k done]
        exact (ite_self _).symm
      | some z =>
        rw [hr] at hx
        rw [members?_comma hx (skipBlanks_of_head rfl _), members?_newline, hrest]
        simp only [Nat.max_le, and_iff_right hd]
        cases rereadMembers (m :: ms) with
        | none => rfl
        | some zs => simp
    · rw [if_neg hd] at hx
      rw [members?_none hx k done, if_neg (fun h => hd (Nat.max_le.1 h).1)]
termination_by m ms => sizeOf (m :: ms)

end

end Texts

section Whole

theorem indented_length_pos (level : Nat) (v : Json) : 1 ≤ (indented level v).toList.length := by
  obtain ⟨c, more, he, -⟩ := indented_head level v
  rw [he, List.length_cons]
  omega

mutual

theorem steps_le : (v : Json) → ∀ level : Nat, v.steps ≤ (indented level v).toList.length
  | .null, level => indented_length_pos level .null
  | .bool b, level => indented_length_pos level (.bool b)
  | .integer n, level => indented_length_pos level (.integer n)
  | .real d, level => indented_length_pos level (.real d)
  | .string s, level => indented_length_pos level (.string s)
  | .array [], level => indented_length_pos level (.array [])
  | .array (x :: xs), level => by
    have h := stepsItems_le x xs (level + 1)
    rw [toList_indented_array, steps]
    simp only [List.length_cons, List.length_append]
    omega
  | .object [], level => indented_length_pos level (.object [])
  | .object (m :: ms), level => by
    have h := stepsMembers_le m ms (level + 1)
    rw [toList_indented_object, steps]
    simp only [List.length_cons, List.length_append]
    omega
termination_by v => sizeOf v

theorem stepsItems_le : (x : Json) → (xs : List Json) → ∀ level : Nat,
    stepsItems (x :: xs) ≤ (lines level (indentedItems level (x :: xs))).length + 1
  | x, [], level => by
    have h := steps_le x level
    rw [indentedItems, indentedItems, lines_singleton, stepsItems, stepsItems]
    omega
  | x, y :: ys, level => by
    have h := steps_le x level
    have hrest := stepsItems_le y ys level
    rw [indentedItems] at hrest
    rw [indentedItems, indentedItems, lines_cons, stepsItems]
    simp only [List.length_cons, List.length_append]
    omega
termination_by x xs => sizeOf (x :: xs)

theorem stepsMembers_le : (m : String × Json) → (ms : List (String × Json)) → ∀ level : Nat,
    stepsMembers (m :: ms) ≤ (lines level (indentedMembers level (m :: ms))).length + 1
  | (k, x), [], level => by
    have h := steps_le x level
    rw [indentedMembers, indentedMembers, lines_singleton, toList_member, stepsMembers, stepsMembers]
    simp only [List.length_cons, List.length_append]
    omega
  | (k, x), (k', x') :: ms, level => by
    have h := steps_le x level
    have hrest := stepsMembers_le (k', x') ms level
    rw [indentedMembers] at hrest
    rw [indentedMembers, indentedMembers, lines_cons, toList_member, stepsMembers]
    simp only [List.length_cons, List.length_append]
    omega
termination_by m ms => sizeOf (m :: ms)

end

theorem parseWithin?_indented (v : Json) (level depth : Nat) (blanks : String)
    (hblanks : skipBlanks blanks.toList = []) (hnumber : EndsNumber blanks.toList) :
    parseWithin? depth (indented level v ++ blanks) =
      if v.depth ≤ depth then reread v else none := by
  have hends : Ends blanks.toList := ⟨hnumber, by rw [isSettled, hblanks]⟩
  have hlength : (indented level v ++ blanks).toList.length =
      (indented level v).toList.length + blanks.toList.length := by
    rw [String.toList_append, List.length_append]
  have hsteps := steps_le v level
  have h := settled_value? v level (2 * (indented level v ++ blanks).toList.length + 2) depth
    blanks.toList (by omega) hends
  have hresult : settled (value? (2 * (indented level v ++ blanks).toList.length + 2) depth
      (indented level v ++ blanks).toList) =
      (if v.depth ≤ depth then reread v else none).map (·, blanks.toList) := by
    rw [String.toList_append] at h ⊢
    rw [h]
    split
    · rfl
    · rfl
  rw [parseWithin?]
  generalize (if v.depth ≤ depth then reread v else none) = result at hresult ⊢
  cases hv : value? (2 * (indented level v ++ blanks).toList.length + 2) depth
      (indented level v ++ blanks).toList with
  | none =>
    rw [hv] at hresult
    exact (Option.map_eq_none_iff.1 hresult.symm).symm
  | some found =>
    obtain ⟨w, r⟩ := found
    rw [hv, settled, Option.filter_some] at hresult
    cases result with
    | some u =>
      split at hresult
      · cases hresult
        show (if (skipBlanks blanks.toList).isEmpty then some w else none) = some w
        rw [hblanks]
        rfl
      · cases hresult
    | none =>
      -- The text goes on with something that no value is followed by.
      have hrest : (skipBlanks r).isEmpty = false := by
        cases hr : skipBlanks r with
        | nil =>
          rw [isSettled, hr, if_pos rfl] at hresult
          cases hresult
        | cons c more => rfl
      show (if (skipBlanks r).isEmpty then some w else none) = none
      rw [hrest, if_neg Bool.false_ne_true]

end Whole

end ContractBuild.Json
