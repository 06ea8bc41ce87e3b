import ContractBuild.Proofs.Spans

/-! Characters by their bytes. The first byte of a character tells whether it is ASCII, and what the
scanner makes of an ASCII character it makes of that byte. Texts are in the order of their bytes. -/

namespace ContractBuild

namespace Text

theorem encoded_lt {c d : Char} (h : c < d) (r r' : List UInt8) :
    String.utf8EncodeChar c ++ r < String.utf8EncodeChar d ++ r' := by
  have hlt : c.val.toNat < d.val.toNat := h
  have hbound : d.val.toNat < 0x110000 := by
    rcases d.valid with hd | hd
    · exact Nat.lt_trans hd (by decide)
    · exact hd.2
  unfold String.utf8EncodeChar
  generalize c.val.toNat = v at hlt
  generalize d.val.toNat = w at hlt hbound
  extract_lets
  split_ifs
  -- Two bytes decide at the latest where lengths differ, and all of them where they do not.
  all_goals
    simp only [List.cons_append, List.nil_append, List.cons_lt_cons_iff, UInt8.lt_iff_toNat_lt,
      ← UInt8.toNat_inj, UInt8.toNat_ofNat']
    simp (disch := omega) only [Nat.mod_eq_of_lt]
    omega

theorem bytes_lt {s t : String} (h : s < t) : bytes s < bytes t := by
  have hflat : ∀ {l m : List Char}, l < m →
      l.flatMap String.utf8EncodeChar < m.flatMap String.utf8EncodeChar := by
    intro l m hlm
    induction hlm with
    | @nil c m =>
      rw [List.flatMap_nil, List.flatMap_cons]
      cases he : String.utf8EncodeChar c with
      | nil => exact absurd he String.utf8EncodeChar_ne_nil
      | cons b rest => exact .nil
    | rel h => exact encoded_lt h _ _
    | @cons c l m _ ih =>
      rw [List.flatMap_cons, List.flatMap_cons]
      exact List.append_left_lt ih
  have hst := hflat (String.lt_iff.1 h)
  rw [← bytes_ofList, ← bytes_ofList, String.ofList_toList, String.ofList_toList] at hst
  exact hst

theorem bytes_lt_iff {s t : String} : bytes s < bytes t ↔ s < t := by
  refine ⟨fun h => ?_, bytes_lt⟩
  by_contra hnot
  have hne : t ≠ s := by
    rintro rfl
    exact List.lt_irrefl _ h
  exact List.lt_asymm h (bytes_lt (Std.lt_of_le_of_ne (String.not_lt.1 hnot) hne))

theorem bytes_le_iff {s t : String} : bytes s ≤ bytes t ↔ s ≤ t := by
  rw [← List.not_lt, bytes_lt_iff, String.not_lt]

end Text

namespace Source

open Text

def isWordChar (c : Char) : Bool :=
  ('0' ≤ c && c ≤ '9') || ('A' ≤ c && c ≤ 'Z') || ('a' ≤ c && c ≤ 'z') || c == '_' || c == '$'

def isBlankChar (c : Char) : Bool :=
  c == ' ' || c == '\t' || c == '\n' || c == '\x0C' || c == '\r'

def isQuoteChar (c : Char) : Bool := c == '"' || c == '\''

def encode (cs : List Char) : List UInt8 := cs.flatMap String.utf8EncodeChar

def leadByte (c : Char) : UInt8 := (String.utf8EncodeChar c).headD 0

def tailBytes (c : Char) : List UInt8 := (String.utf8EncodeChar c).tail

theorem encodeChar_eq (c : Char) : String.utf8EncodeChar c = leadByte c :: tailBytes c := by
  unfold leadByte tailBytes String.utf8EncodeChar
  extract_lets v
  split
  · rfl
  · split
    · rfl
    · split <;> rfl

theorem encode_cons (c : Char) (cs : List Char) :
    encode (c :: cs) = leadByte c :: (tailBytes c ++ encode cs) := by
  rw [encode, List.flatMap_cons, encodeChar_eq]
  rfl

theorem encode_singleton (c : Char) : encode [c] = leadByte c :: tailBytes c := by
  rw [encode_cons, encode, List.flatMap_nil, List.append_nil]

theorem encode_append (cs ds : List Char) : encode (cs ++ ds) = encode cs ++ encode ds :=
  List.flatMap_append

theorem bytes_eq_encode (text : String) : bytes text = encode text.toList := by
  rw [encode, ← bytes_ofList, String.ofList_toList]

theorem leadByte_of_ascii {c : Char} (h : c.toNat < 128) : leadByte c = UInt8.ofNat c.toNat := by
  have hle : c.val.toNat ≤ 127 := Nat.le_of_lt_succ h
  simp only [leadByte, String.utf8EncodeChar, if_pos hle]
  rfl

theorem toNat_leadByte {c : Char} (h : c.toNat < 128) : (leadByte c).toNat = c.toNat := by
  rw [leadByte_of_ascii h]
  exact UInt8.toNat_ofNat_of_lt' (Nat.lt_trans h (by decide))

theorem tailBytes_of_ascii {c : Char} (h : c.toNat < 128) : tailBytes c = [] := by
  have hle : c.val.toNat ≤ 127 := Nat.le_of_lt_succ h
  simp only [tailBytes, String.utf8EncodeChar, if_pos hle]
  rfl

theorem characterTail_ofNat {n : Nat} (h : n < 256) : characterTail (UInt8.ofNat n) =
    if 240 ≤ n then 3 else if 224 ≤ n then 2 else if 192 ≤ n then 1 else 0 := by
  have hn : (UInt8.ofNat n).toNat = n := UInt8.toNat_ofNat_of_lt' h
  simp only [characterTail, UInt8.le_iff_toNat_le, hn]
  rfl

theorem length_tailBytes (c : Char) : (tailBytes c).length = characterTail (leadByte c) := by
  have hmax : c.val.toNat < 1114112 := by
    have h := c.valid
    simp only [UInt32.isValidChar, Nat.isValidChar] at h
    omega
  unfold leadByte tailBytes String.utf8EncodeChar
  extract_lets v
  -- an encoding has one to four bytes, and the first one is in the range for its length
  split_ifs <;> rw [List.headD_cons, characterTail_ofNat (by omega)] <;> split_ifs <;>
    first | rfl | omega

theorem le_of_mem_encodeChar {c : Char} {b : UInt8} (hc : 128 ≤ c.toNat)
    (hb : b ∈ String.utf8EncodeChar c) : 128 ≤ b.toNat := by
  rcases encoded_cases c with ⟨x, hx⟩ | hall
  · have hle : ¬ c.val.toNat ≤ 127 := Nat.not_le.2 hc
    simp only [String.utf8EncodeChar, if_neg hle] at hx
    split at hx
    · cases hx
    · split at hx <;> cases hx
  · exact hall b hb

theorem le_leadByte {c : Char} (h : 128 ≤ c.toNat) : 128 ≤ (leadByte c).toNat :=
  le_of_mem_encodeChar h (by rw [encodeChar_eq]; exact List.mem_cons_self)

theorem le_of_mem_tailBytes {c : Char} {b : UInt8} (h : b ∈ tailBytes c) : 128 ≤ b.toNat := by
  rcases Nat.lt_or_ge c.toNat 128 with hc | hc
  · rw [tailBytes_of_ascii hc] at h
    cases h
  · exact le_of_mem_encodeChar hc (by rw [encodeChar_eq]; exact List.mem_cons_of_mem _ h)

theorem forall_bytes {p : UInt8 → Prop} (h : ∀ n < 256, p (UInt8.ofNat n)) (b : UInt8) : p b := by
  have hb := h b.toNat b.toNat_lt
  rw [UInt8.ofNat_toNat] at hb
  exact hb

theorem leadByte_of_forall {p : UInt8 → Bool} {q : Char → Bool}
    (hlow : ∀ n < 128, p (UInt8.ofNat n) = q (Char.ofNat n))
    (hbyte : ∀ n < 256, 128 ≤ (UInt8.ofNat n).toNat → p (UInt8.ofNat n) = false)
    (hchar : ∀ c : Char, 128 ≤ c.toNat → q c = false) (c : Char) : p (leadByte c) = q c := by
  rcases Nat.lt_or_ge c.toNat 128 with h | h
  · rw [leadByte_of_ascii h, hlow _ h, Char.ofNat_toNat]
  · rw [forall_bytes (p := fun b => 128 ≤ b.toNat → p b = false) hbyte _ (le_leadByte h), hchar c h]

theorem isWordByte_leadByte (c : Char) : isWordByte (leadByte c) = isWordChar c := by
  refine leadByte_of_forall (by decide +kernel) (by decide +kernel) (fun c h => ?_) c
  have hne : c ≠ '_' ∧ c ≠ '$' := by
    constructor <;> rintro rfl <;> exact absurd h (by decide)
  have hval : c.toNat = c.val.toNat := rfl
  simp only [isWordChar, Char.le_def, UInt32.le_iff_toNat_le, Bool.or_eq_false_iff,
    Bool.and_eq_false_iff, decide_eq_false_iff_not, beq_eq_false_iff_ne, Char.reduceVal,
    UInt32.reduceToNat]
  refine ⟨⟨⟨⟨?_, ?_⟩, ?_⟩, hne.1⟩, hne.2⟩ <;> omega

theorem isBlank_leadByte (c : Char) : isBlank (leadByte c) = isBlankChar c := by
  refine leadByte_of_forall (by decide +kernel) (by decide +kernel) (fun c h => ?_) c
  rw [isBlankChar]
  simp only [Bool.or_eq_false_iff, beq_eq_false_iff_ne]
  refine ⟨⟨⟨⟨?_, ?_⟩, ?_⟩, ?_⟩, ?_⟩ <;> rintro rfl <;> exact absurd h (by decide)

theorem isQuote_leadByte (c : Char) : isQuote (leadByte c) = isQuoteChar c := by
  refine leadByte_of_forall (by decide +kernel) (by decide +kernel) (fun c h => ?_) c
  rw [isQuoteChar]
  simp only [Bool.or_eq_false_iff, beq_eq_false_iff_ne]
  constructor <;> rintro rfl <;> exact absurd h (by decide)

theorem leadByte_eq_iff {a c : Char} (ha : a.toNat < 128) :
    leadByte c = leadByte a ↔ c = a := by
  refine ⟨fun h => ?_, congrArg leadByte⟩
  have hlead : (leadByte c).toNat = a.toNat := by rw [h, toNat_leadByte ha]
  rcases Nat.lt_or_ge c.toNat 128 with hc | hc
  · rw [toNat_leadByte hc] at hlead
    exact Char.toNat_inj.1 hlead
  · have hle := le_leadByte hc
    omega

theorem ascii_of_leadByte {c : Char} (h : (leadByte c).toNat < 128) : c.toNat < 128 := by
  by_contra hc
  have hle := le_leadByte (Nat.not_lt.1 hc)
  omega

theorem ne_of_mem_tailBytes {a c : Char} (ha : a.toNat < 128) {b : UInt8} (h : b ∈ tailBytes c) :
    b ≠ leadByte a := by
  rintro rfl
  have hle := le_of_mem_tailBytes h
  rw [toNat_leadByte ha] at hle
  omega

/-! ### Encodings of texts -/

theorem encode_cons_of_ascii {c : Char} (h : c.toNat < 128) (cs : List Char) :
    encode (c :: cs) = leadByte c :: encode cs := by
  rw [encode_cons, tailBytes_of_ascii h, List.nil_append]

theorem head?_encode (cs : List Char) : (encode cs).head? = cs.head?.map leadByte := by
  cases cs with
  | nil => rfl
  | cons c cs => rw [encode_cons, List.head?_cons, List.head?_cons, Option.map_some]

theorem leadByte_mem_encode_iff {a : Char} (ha : a.toNat < 128) {cs : List Char} :
    leadByte a ∈ encode cs ↔ a ∈ cs := by
  induction cs with
  | nil => exact iff_of_false List.not_mem_nil List.not_mem_nil
  | cons c cs ih =>
    have htail : leadByte a ∉ tailBytes c := fun h => ne_of_mem_tailBytes ha h rfl
    rw [encode_cons, List.mem_cons, List.mem_append, List.mem_cons, ih, or_iff_right htail, eq_comm,
      leadByte_eq_iff ha, eq_comm]

theorem infix_of_infix_encode {cs : List Char} (h : [star, slash] <:+: encode cs) :
    ['*', '/'] <:+: cs := by
  obtain ⟨x, y, hxy⟩ := h
  rw [List.append_assoc, List.cons_append, List.singleton_append] at hxy
  obtain ⟨l, c, r, rfl, -, hc, hr⟩ := flatMap_split hxy.symm (by decide)
  obtain ⟨l', c', r', rfl, hl', hc', -⟩ := flatMap_split (x := []) hr (by decide)
  rw [encodeChar_eq] at hc hc'
  obtain rfl : c = '*' := (leadByte_eq_iff (by decide)).1 (List.cons.inj hc).1
  obtain rfl : c' = '/' := (leadByte_eq_iff (by decide)).1 (List.cons.inj hc').1
  -- the two bytes are next to one another, so their characters are
  have hnil : l' = [] := by
    cases l' with
    | nil => rfl
    | cons d l' =>
      rw [← encode, encode_cons] at hl'
      cases hl'
  rw [hnil]
  exact ⟨l, r', by simp⟩

/-! ### Words, quotes and blanks -/

theorem ascii_of_isQuoteChar {c : Char} (h : isQuoteChar c = true) : c.toNat < 128 ∧ c ≠ '\\' := by
  simp only [isQuoteChar, Bool.or_eq_true, beq_iff_eq] at h
  rcases h with rfl | rfl <;> decide

theorem ascii_of_isBlankChar {c : Char} (h : isBlankChar c = true) : c.toNat < 128 := by
  simp only [isBlankChar, Bool.or_eq_true, beq_iff_eq] at h
  rcases h with (((rfl | rfl) | rfl) | rfl) | rfl <;> decide

theorem ascii_of_isWordChar {c : Char} (h : isWordChar c = true) : c.toNat < 128 :=
  ascii_of_leadByte (toNat_lt_of_isWordByte ((isWordByte_leadByte c).trans h))

theorem isWordByte_of_mem_encode {cs : List Char} (h : ∀ c ∈ cs, isWordChar c = true) :
    ∀ b ∈ encode cs, isWordByte b = true := by
  induction cs with
  | nil => exact List.forall_mem_nil _
  | cons c cs ih =>
    obtain ⟨hc, hcs⟩ := List.forall_mem_cons.1 h
    rw [encode_cons_of_ascii (ascii_of_isWordChar hc)]
    exact List.forall_mem_cons.2 ⟨(isWordByte_leadByte c).trans hc, ih hcs⟩

theorem asciiText_encode {cs : List Char} (h : ∀ c ∈ cs, isWordChar c = true) :
    asciiText (encode cs) = String.ofList cs := by
  have hmap : (encode cs).map (fun x => Char.ofNat x.toNat) = cs := by
    induction cs with
    | nil => rfl
    | cons c cs ih =>
      obtain ⟨hc, hcs⟩ := List.forall_mem_cons.1 h
      have hascii := ascii_of_isWordChar hc
      rw [encode_cons_of_ascii hascii, List.map_cons, ih hcs, toNat_leadByte hascii, Char.ofNat_toNat]
  rw [asciiText, hmap]

end Source
end ContractBuild
