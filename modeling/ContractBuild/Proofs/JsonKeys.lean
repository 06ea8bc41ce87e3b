import ContractBuild.Proofs.Characters
import ContractBuild.Proofs.JsonText

/-! The keys of the objects in a JSON text, found by looking at quotes, colons and brackets only. In an
indented text they are the keys of the objects in its value, in their order. -/

namespace ContractBuild

namespace Json

mutual

/-- The keys of each object in a value; an object comes after those that are in it. -/
def objectKeys : Json → List (List String)
  | .array items => objectKeysItems items
  | .object members => objectKeysMembers members ++ [members.map Prod.fst]
  | .null | .bool _ | .integer _ | .real _ | .string _ => []

def objectKeysItems : List Json → List (List String)
  | [] => []
  | x :: xs => objectKeys x ++ objectKeysItems xs

def objectKeysMembers : List (String × Json) → List (List String)
  | [] => []
  | (_, x) :: xs => objectKeys x ++ objectKeysMembers xs

end

def quotedKey? (s : List Char) : Option String :=
  match string? s with
  | some (k, rest) =>
    match skipBlanks rest with
    | ':' :: _ => some k
    | _ => none
  | none => none

def withKey (key? : Option String) (unclosed : List (List String)) : List (List String) :=
  match key?, unclosed with
  | some k, keys :: outer => (keys ++ [k]) :: outer
  | _, _ => unclosed

/-- The keys of each object in a text, as they stand there; an object comes when it is closed. -/
def keyLists : (quoted : Bool) → (unclosed : List (List String)) → List Char → List (List String)
  | _, unclosed, [] => unclosed
  | true, unclosed, '"' :: rest => keyLists false unclosed rest
  | true, unclosed, '\\' :: _ :: rest => keyLists true unclosed rest
  | true, unclosed, _ :: rest => keyLists true unclosed rest
  | false, unclosed, '"' :: rest => keyLists true (withKey (quotedKey? rest) unclosed) rest
  | false, unclosed, '\x7b' :: rest => keyLists false ([] :: unclosed) rest
  | false, unclosed, '[' :: rest => keyLists false ([] :: unclosed) rest
  | false, unclosed, '\x7d' :: rest => unclosed.take 1 ++ keyLists false unclosed.tail rest
  | false, unclosed, ']' :: rest => keyLists false unclosed.tail rest
  | false, unclosed, _ :: rest => keyLists false unclosed rest

example : keyLists false [] "\x7b\"a\": [\x7b\"c\": \"d\"\x7d], \"b\\n\": 1\x7d".toList =
    [["c"], ["a", "b\n"]] := by decide

section Scanning

variable {unclosed : List (List String)} {rest : List Char}

def isPlain (c : Char) : Bool :=
  c != '"' && c != '\x7b' && c != '[' && c != '\x7d' && c != ']'

theorem keyLists_plain {s : List Char} (h : ∀ c ∈ s, isPlain c = true) :
    keyLists false unclosed (s ++ rest) = keyLists false unclosed rest := by
  induction s with
  | nil => rfl
  | cons c s ih =>
    have hc := h c List.mem_cons_self
    simp only [isPlain, Bool.and_eq_true, bne_iff_ne] at hc
    obtain ⟨⟨⟨⟨hquote, hbrace⟩, hbracket⟩, hbrace'⟩, hbracket'⟩ := hc
    rw [List.cons_append, keyLists, ih fun x hx => h x (List.mem_cons_of_mem c hx)]
    · exact hquote
    · exact hbrace
    · exact hbracket
    · exact hbrace'
    · exact hbracket'

theorem keyLists_newline (level : Nat) :
    keyLists false unclosed ((newline level).toList ++ rest) = keyLists false unclosed rest := by
  refine keyLists_plain fun c hc => ?_
  simp only [newline, String.toList_append, String.toList_ofList, List.mem_append] at hc
  rcases hc with hc | hc
  · rw [List.mem_singleton.1 (hc : c ∈ ['\n'])]
    rfl
  · rw [List.eq_of_mem_replicate hc]
    rfl

theorem keyLists_comma (level : Nat) :
    keyLists false unclosed (',' :: ((newline level).toList ++ rest)) =
      keyLists false unclosed rest := by
  have hcomma : ∀ c ∈ [','], isPlain c = true := List.all_eq_true.1 rfl
  exact (keyLists_plain hcomma).trans (keyLists_newline level)

theorem isPlain_of_isNumberChar {c : Char} (h : isNumberChar c = true) : isPlain c = true := by
  have hne : ∀ d, isNumberChar d = false → c ≠ d := by
    rintro d hd rfl
    rw [h] at hd
    cases hd
  simp [isPlain, hne '"' rfl, hne '\x7b' rfl, hne '[' rfl, hne '\x7d' rfl, hne ']' rfl]

theorem keyLists_quoted {c : Char} (hquote : c ≠ '"') (hbackslash : c ≠ '\\') :
    keyLists true unclosed (c :: rest) = keyLists true unclosed rest := by
  rw [keyLists]
  · exact hquote
  · exact fun _ _ h => absurd h hbackslash

theorem keyLists_escapedChar (c : Char) :
    keyLists true unclosed ((escapedChar c).toList ++ rest) = keyLists true unclosed rest := by
  have hdigit : ∀ n, n < 16 → Nat.digitChar n ≠ '"' ∧ Nat.digitChar n ≠ '\\' := by decide
  have hspec := escapedChar_spec c
  generalize (escapedChar c).toList = text at hspec ⊢
  cases hspec with
  | short _ _ => rfl
  | control hn =>
    have hhigh := hdigit (c.toNat / 16) (by omega)
    have hlow := hdigit (c.toNat % 16) (by omega)
    show keyLists true unclosed ('0' :: '0' :: Nat.digitChar (c.toNat / 16) ::
      Nat.digitChar (c.toNat % 16) :: rest) = _
    rw [keyLists_quoted (by decide) (by decide), keyLists_quoted (by decide) (by decide),
      keyLists_quoted hhigh.1 hhigh.2, keyLists_quoted hlow.1 hlow.2]
  | plain hquote hbackslash _ => exact keyLists_quoted hquote hbackslash

theorem keyLists_escaped (s : List Char) :
    keyLists true unclosed (s.flatMap (fun c => (escapedChar c).toList) ++ '"' :: rest) =
      keyLists false unclosed rest := by
  induction s with
  | nil => rfl
  | cons c s ih => rw [List.flatMap_cons, List.append_assoc, keyLists_escapedChar, ih]

theorem keyLists_string (s : List Char) (rest : List Char) :
    keyLists false unclosed ('"' :: (s.flatMap (fun c => (escapedChar c).toList) ++ '"' :: rest)) =
      keyLists false (withKey (match skipBlanks rest with
        | ':' :: _ => some (String.ofList s)
        | _ => none) unclosed) rest := by
  have h := string?_escaped (String.ofList s) rest
  rw [String.toList_ofList] at h
  rw [keyLists, keyLists_escaped, quotedKey?, h]

theorem keyLists_value (s : List Char) (h : isSettled rest = true) :
    keyLists false unclosed ('"' :: (s.flatMap (fun c => (escapedChar c).toList) ++ '"' :: rest)) =
      keyLists false unclosed rest := by
  rw [keyLists_string]
  -- No colon follows a value.
  rw [isSettled] at h
  split
  · rename_i he
    rw [he] at h
    cases h
  · rfl

theorem keyLists_member (k : String) (keys : List String) :
    keyLists false (keys :: unclosed) (memberFront k rest) =
      keyLists false ((keys ++ [k]) :: unclosed) rest := by
  have hblank : ∀ c ∈ [':', ' '], isPlain c = true := List.all_eq_true.1 rfl
  have hcolon : skipBlanks (':' :: ' ' :: rest) = ':' :: ' ' :: rest := skipBlanks_of_head rfl _
  rw [memberFront, keyLists_string, hcolon, String.ofList_toList]
  exact keyLists_plain hblank

end Scanning

section Texts

mutual

theorem keyLists_indented : (v : Json) → ∀ (level : Nat) (unclosed : List (List String))
    (rest : List Char), isSettled rest = true →
    keyLists false unclosed ((indented level v).toList ++ rest) =
      objectKeys v ++ keyLists false unclosed rest
  | .null, level, unclosed, rest, _ => by
    rw [toList_indented_null, objectKeys]
    rfl
  | .bool true, level, unclosed, rest, _ => by
    rw [toList_indented_true, objectKeys]
    rfl
  | .bool false, level, unclosed, rest, _ => by
    rw [toList_indented_false, objectKeys]
    rfl
  | .integer n, level, unclosed, rest, _ => by
    rw [indented, objectKeys]
    exact keyLists_plain fun c hc => isPlain_of_isNumberChar ((numberText_integer n).chars c hc)
  | .real d, level, unclosed, rest, _ => by
    rw [indented, objectKeys]
    exact keyLists_plain fun c hc => isPlain_of_isNumberChar ((numberText_real d).chars c hc)
  | .string s, level, unclosed, rest, h => by
    rw [indented, toList_stringText, List.cons_append, List.append_assoc, objectKeys]
    exact keyLists_value s.toList h
  | .array [], level, unclosed, rest, _ => by
    rw [toList_indented_nil, objectKeys, objectKeysItems]
    rfl
  | .array (x :: xs), level, unclosed, rest, _ => by
    have htail : isSettled ((newline level).toList ++ ']' :: rest) = true := by
      rw [isSettled, skipBlanks_newline, skipBlanks_of_head rfl]
      rfl
    have hitems := keyLists_items x xs (level + 1) ([] :: unclosed) _ htail
    rw [keyLists_newline, keyLists] at hitems
    rw [toList_indented_array, List.cons_append, keyLists, List.append_assoc, List.append_assoc,
      List.append_assoc, keyLists_newline, objectKeys]
    exact hitems
  | .object [], level, unclosed, rest, _ => by
    rw [toList_indented_empty, objectKeys, objectKeysMembers]
    rfl
  | .object (m :: ms), level, unclosed, rest, _ => by
    have htail : isSettled ((newline level).toList ++ '\x7d' :: rest) = true := by
      rw [isSettled, skipBlanks_newline, skipBlanks_of_head rfl]
      rfl
    have hmembers := keyLists_members m ms (level + 1) [] unclosed _ htail
    rw [keyLists_newline, keyLists] at hmembers
    -- The object's own keys are given out at its closing brace, behind those of its members.
    rw [toList_indented_object, List.cons_append, keyLists, List.append_assoc, List.append_assoc,
      List.append_assoc, keyLists_newline, objectKeys, List.append_assoc]
    exact hmembers
termination_by v => sizeOf v

theorem keyLists_items : (x : Json) → (xs : List Json) → ∀ (level : Nat)
    (unclosed : List (List String)) (tail : List Char), isSettled tail = true →
    keyLists false unclosed (lines level (indentedItems level (x :: xs)) ++ tail) =
      objectKeysItems (x :: xs) ++ keyLists false unclosed tail
  | x, [], level, unclosed, tail, h => by
    rw [indentedItems, indentedItems, lines_singleton, keyLists_indented x level unclosed tail h,
      objectKeysItems, objectKeysItems, List.append_nil]
  | x, y :: ys, level, unclosed, tail, h => by
    have hrest := keyLists_items y ys level unclosed tail h
    rw [indentedItems] at hrest
    rw [indentedItems, indentedItems, lines_cons, List.append_assoc, List.cons_append,
      List.append_assoc, keyLists_indented x level unclosed _ rfl, keyLists_comma, hrest,
      objectKeysItems.eq_def (x :: _), List.append_assoc]
termination_by x xs => sizeOf (x :: xs)

theorem keyLists_members : (m : String × Json) → (ms : List (String × Json)) → ∀ (level : Nat)
    (keys : List String) (unclosed : List (List String)) (tail : List Char), isSettled tail = true →
    keyLists false (keys :: unclosed) (lines level (indentedMembers level (m :: ms)) ++ tail) =
      objectKeysMembers (m :: ms) ++
        keyLists false ((keys ++ (m :: ms).map Prod.fst) :: unclosed) tail
  | (k, x), [], level, keys, unclosed, tail, h => by
    rw [indentedMembers, indentedMembers, lines_singleton, toList_member_append, keyLists_member,
      keyLists_indented x level _ tail h, objectKeysMembers, objectKeysMembers, List.append_nil]
    rfl
  | (k, x), m :: ms, level, keys, unclosed, tail, h => by
    have hrest := keyLists_members m ms level (keys ++ [k]) unclosed tail h
    obtain ⟨k', x'⟩ := m
    rw [indentedMembers] at hrest
    rw [indentedMembers, indentedMembers, lines_cons, List.append_assoc, List.cons_append,
      List.append_assoc, toList_member_append, keyLists_member, keyLists_indented x level _ _ rfl,
      keyLists_comma, hrest, objectKeysMembers.eq_def ((k, x) :: _), List.append_assoc,
      List.append_assoc]
    rfl
termination_by m ms => sizeOf (m :: ms)

end

end Texts

end Json
end ContractBuild
