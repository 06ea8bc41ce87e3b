import ContractBuild.Proofs.Replacing
import ContractBuild.Text.Utf8

/-! The spans of declarations as texts of their own, and texts that are one declaration whatever
follows them. No span begins or ends inside of a character. -/

namespace ContractBuild

namespace Text

theorem bytes_append (s t : String) : bytes (s ++ t) = bytes s ++ bytes t := by
  rw [bytes, bytes, bytes, String.toByteArray_append, ByteArray.data_append, Array.toList_append]

theorem bytes_inj {s t : String} (h : bytes s = bytes t) : s = t := by
  have hs := ofBytes?_bytes s
  rw [h, ofBytes?_bytes, Option.some_inj] at hs
  exact hs.symm

theorem bytes_ofList (cs : List Char) :
    bytes (String.ofList cs) = cs.flatMap String.utf8EncodeChar := by
  rw [bytes, String.toByteArray_ofList, List.utf8Encode, List.toList_data_toByteArray]

theorem encoded_cases (c : Char) :
    (∃ b, String.utf8EncodeChar c = [b]) ∨ ∀ b ∈ String.utf8EncodeChar c, 128 ≤ b.toNat := by
  unfold String.utf8EncodeChar
  extract_lets v
  split
  · exact Or.inl ⟨_, rfl⟩
  · refine Or.inr ?_
    split
    · simp only [List.forall_mem_cons, UInt8.toNat_ofNat']
      exact ⟨by omega, by omega, List.forall_mem_nil _⟩
    · split
      · simp only [List.forall_mem_cons, UInt8.toNat_ofNat']
        exact ⟨by omega, by omega, by omega, List.forall_mem_nil _⟩
      · simp only [List.forall_mem_cons, UInt8.toNat_ofNat']
        exact ⟨by omega, by omega, by omega, by omega, List.forall_mem_nil _⟩

theorem flatMap_split {cs : List Char} {x y : List UInt8} {b : UInt8}
    (h : cs.flatMap String.utf8EncodeChar = x ++ b :: y) (hb : b.toNat < 128) :
    ∃ l c r, cs = l ++ c :: r ∧ l.flatMap String.utf8EncodeChar = x ∧ String.utf8EncodeChar c = [b] ∧
      r.flatMap String.utf8EncodeChar = y := by
  induction cs generalizing x with
  | nil => simp at h
  | cons c cs ih =>
    rw [List.flatMap_cons] at h
    -- The byte is in one of the characters behind, or in the first one and then all of it.
    rcases List.append_eq_append_iff.1 h with ⟨z, rfl, hz⟩ | ⟨z, hc, hz⟩
    · obtain ⟨l, c', r, rfl, hl, hc, hr⟩ := ih hz
      exact ⟨c :: l, c', r, rfl, by rw [List.flatMap_cons, hl], hc, hr⟩
    · cases z with
      | nil =>
        obtain ⟨l, c', r, rfl, hl, hc', hr⟩ := ih (x := []) hz.symm
        rw [List.append_nil] at hc
        exact ⟨c :: l, c', r, rfl, by rw [List.flatMap_cons, hl, List.append_nil, hc], hc', hr⟩
      | cons b' z =>
        obtain ⟨rfl, hy⟩ := List.cons.inj hz
        rcases encoded_cases c with ⟨b', hb'⟩ | hall
        · rw [hb'] at hc
          obtain ⟨rfl, he⟩ := (List.append_eq_singleton_iff.1 hc.symm).resolve_right fun h => nomatch h.2
          cases he
          exact ⟨[], c, cs, rfl, rfl, hb', hy.symm⟩
        · refine absurd (hall b ?_) (Nat.not_le.2 hb)
          rw [hc]
          exact List.mem_append_right _ List.mem_cons_self

theorem exists_of_bytes_eq {text : String} {x y : List UInt8} {b : UInt8}
    (h : bytes text = x ++ b :: y) (hb : b.toNat < 128) :
    ∃ l c r, text = l ++ (c ++ r) ∧ bytes l = x ∧ bytes c = [b] ∧ bytes r = y := by
  rw [← String.ofList_toList (s := text), bytes_ofList] at h
  obtain ⟨l, c, r, hcs, hl, hc, hr⟩ := flatMap_split h hb
  refine ⟨String.ofList l, String.ofList [c], String.ofList r, ?_, ?_, ?_, ?_⟩
  · rw [← String.ofList_toList (s := text), hcs, ← String.ofList_append, ← String.ofList_append]
    rfl
  · rw [bytes_ofList, hl]
  · rw [bytes_ofList, List.flatMap_singleton, hc]
  · rw [bytes_ofList, hr]

end Text

namespace Source

open Text

theorem toNat_lt_of_isWordByte {b : UInt8} (h : isWordByte b = true) : b.toNat < 128 := by
  simp only [isWordByte, Bool.or_eq_true, Bool.and_eq_true, decide_eq_true_eq, beq_iff_eq,
    UInt8.le_iff_toNat_le] at h
  rcases h with (((⟨-, h⟩ | ⟨-, h⟩) | ⟨-, h⟩) | rfl) | rfl
  · exact Nat.lt_of_le_of_lt h (by decide)
  · exact Nat.lt_of_le_of_lt h (by decide)
  · exact Nat.lt_of_le_of_lt h (by decide)
  · decide
  · decide

/-- `middle` is the text of a declaration of `text`. -/
structure Span (text : String) (d : Declaration) (before middle after : String) : Prop where
  text_eq : text = before ++ (middle ++ after)
  mem : d ∈ declarations (bytes text)
  start_eq : d.start = (bytes before).length
  stop_eq : d.stop = (bytes before).length + (bytes middle).length

/-- The text is one declaration of the unit, whatever follows it. -/
structure SelfContained (text unit : String) : Prop where
  declares : ∃ d, (declarations (bytes text)).head? = some d ∧ d.name = unit
  followed : ∀ rest, ∃ d, (declarations (bytes (text ++ rest))).head? = some d ∧ d.start = 0 ∧
    d.stop = (bytes text).length

theorem selfContained_iff {text unit : String} :
    SelfContained text unit ↔ ∃ d, (declarations (bytes (text ++ " "))).head? = some d ∧
      d.name = unit ∧ d.start = 0 ∧ d.stop = (bytes text).length := by
  constructor
  · rintro ⟨⟨d, hd, hname⟩, hfollowed⟩
    obtain ⟨d', hd', hstart, hstop⟩ := hfollowed " "
    have hhead := hd'
    rw [bytes_append] at hhead
    obtain ⟨a, t, rest, k, hbegins, -⟩ :=
      exists_beginsWith_of_mem (List.mem_of_mem_head? hhead) hstart
    obtain ⟨_, halone⟩ := hbegins.alone hstop
    obtain rfl := Option.some_inj.1 (hd.symm.trans halone.head?_eq)
    exact ⟨d, hd', hname, hstart, hstop⟩
  · rintro ⟨d, hd, hname, hstart, hstop⟩
    rw [bytes_append] at hd
    obtain ⟨a, t, rest, k, hbegins, -⟩ := exists_beginsWith_of_mem (List.mem_of_mem_head? hd) hstart
    obtain ⟨_, halone⟩ := hbegins.alone hstop
    refine ⟨⟨d, halone.head?_eq, hname⟩, fun other => ⟨d, ?_, hstart, hstop⟩⟩
    rcases hbegins.cut hstop with ⟨hblank, -⟩ | ⟨_, _, -, -, -, hother⟩
    · exact absurd hblank (by decide)
    · rw [bytes_append]
      exact (hother (bytes other)).head?_eq

theorem Span.replace {text before old new after unit : String} {d : Declaration}
    (h : Span text d before old after) (hnew : SelfContained new unit)
    (habstract : opensAbstract (bytes old) = opensAbstract (bytes new)) :
    ∃ ds d', LieBefore (bytes before).length ds ∧ d'.name = unit ∧ d'.start = (bytes before).length ∧
      d'.stop = (bytes before).length + (bytes new).length ∧
      declarations (bytes text) = ds ++ d :: (declarations (bytes after)).map
        (·.shift ((bytes before).length + (bytes old).length)) ∧
      declarations (bytes (before ++ (new ++ after))) = ds ++ d' :: (declarations (bytes after)).map
        (·.shift ((bytes before).length + (bytes new).length)) := by
  have hd := h.mem
  rw [h.text_eq, bytes_append, bytes_append] at hd ⊢
  obtain ⟨d', hd', hstart', hstop'⟩ := hnew.followed after
  rw [bytes_append] at hd'
  have hmem := List.mem_of_mem_head? hd'
  obtain ⟨a, t, rest, k, hbegins, -⟩ := exists_beginsWith_of_mem hmem hstart'
  obtain ⟨_, halone⟩ := hbegins.alone hstop'
  obtain ⟨e, he, hname⟩ := hnew.declares
  obtain rfl := Option.some_inj.1 (he.symm.trans halone.head?_eq)
  obtain ⟨ds, hds, hold, hreplaced⟩ :=
    declarations_replace hd h.start_eq h.stop_eq hmem hstart' hstop' habstract
  refine ⟨ds, e.shift (bytes before).length, hds, hname, ?_, ?_, hold, ?_⟩
  · simp only [Declaration.shift, hstart', Nat.zero_add]
  · simp only [Declaration.shift, hstop', Nat.add_comm]
  · rw [bytes_append, bytes_append]
    exact hreplaced

theorem exists_span {text : String} {d : Declaration} (h : d ∈ declarations (bytes text)) :
    ∃ before middle after, Span text d before middle after := by
  obtain ⟨x, y, a, t, rest, d₀, k, hxy, hx, hbegins, rfl, -, ⟨b, z, rfl, hb⟩, -⟩ := exists_beginsWith h
  obtain ⟨before, c, more, htext, rfl, hc, hmore⟩ :=
    exists_of_bytes_eq hxy (toNat_lt_of_isWordByte hb)
  have hy : bytes (c ++ more) = b :: z := by rw [bytes_append, hc, hmore, List.singleton_append]
  rcases declarationAt?_cases hbegins.declares with ⟨inner, e, after, rfl, he, hstop, -⟩ | ⟨hstop, -⟩
  · have hts : tokens (b :: z) = (leading a ++ t :: inner) ++ e :: after := by
      rw [hbegins.tokens_eq, List.append_assoc, List.cons_append]
    obtain ⟨u, v, huv, hu, hlast, -⟩ := seam_of_closeBrace hts he
    obtain ⟨u, rfl⟩ := List.getLast?_eq_some_iff.1 hlast
    rw [List.append_assoc, List.singleton_append] at huv
    obtain ⟨middle, brace, after, hsplit, rfl, hbrace, -⟩ :=
      exists_of_bytes_eq (hy.trans huv) (by decide)
    refine ⟨before, middle ++ brace, after, ?_, h, hx.symm, ?_⟩
    · rw [htext, hsplit, String.append_assoc]
    · rw [bytes_append, hbrace, hu, ← hstop, Nat.add_comm]
      rfl
  · refine ⟨before, c ++ more, "", by rw [htext, String.append_empty], h, hx.symm, ?_⟩
    rw [hy, ← hstop, Nat.add_comm]
    rfl

theorem Span.split {text before middle after : String} {d : Declaration}
    (h : Span text d before middle after) :
    declarations (bytes middle) = [{ d with start := 0, stop := (bytes middle).length }] ∧
      ∃ ds, LieBefore (bytes before).length ds ∧ declarations (bytes text) =
        ds ++ d :: (declarations (bytes after)).map
          (·.shift ((bytes before).length + (bytes middle).length)) := by
  obtain ⟨rfl, hd, hstart, hstop⟩ := h
  rw [bytes_append, bytes_append] at hd ⊢
  obtain ⟨ds, d₀, hds, rfl, halone, hsplit⟩ := declarations_split hd hstart hstop
  refine ⟨?_, ds, hds, hsplit⟩
  simp only [Declaration.shift] at hstart hstop
  have hstart₀ : d₀.start = 0 := by omega
  have hstop₀ : d₀.stop = (bytes middle).length := by omega
  rw [halone, ← hstart₀, ← hstop₀]
  rfl

theorem Span.length_pos {text before middle after : String} {d : Declaration}
    (h : Span text d before middle after) : 0 < (bytes middle).length := by
  apply List.length_pos_of_ne_nil
  intro hnil
  have halone := h.split.1
  rw [hnil] at halone
  cases halone

theorem declarations_inOrder (text : String) :
    (declarations (bytes text)).Pairwise fun d e => d.stop ≤ e.start := by
  -- by induction on what follows the first declaration
  induction hn : (bytes text).length using Nat.strongRecOn generalizing text with
  | _ n ih =>
  cases hds : declarations (bytes text) with
  | nil => exact .nil
  | cons d es =>
    have hd : d ∈ declarations (bytes text) := hds ▸ List.mem_cons_self
    obtain ⟨before, middle, after, hspan⟩ := exists_span hd
    have hpos := hspan.length_pos
    have hstart := hspan.start_eq
    have hstop := hspan.stop_eq
    obtain ⟨-, front, hfront, hsplit⟩ := hspan.split
    have hnil : front = [] := by
      cases front with
      | nil => rfl
      | cons e front =>
        rw [hds, List.cons_append] at hsplit
        obtain ⟨rfl, -⟩ := List.cons.inj hsplit
        have hle := (hfront d List.mem_cons_self).2
        omega
    rw [hnil, List.nil_append, hds] at hsplit
    obtain ⟨-, rfl⟩ := List.cons.inj hsplit
    refine List.pairwise_cons.2 ⟨fun e he => ?_, ?_⟩
    · obtain ⟨e₀, -, rfl⟩ := List.mem_map.1 he
      rw [hstop]
      exact Nat.le_add_left _ _
    · have hshorter : (bytes after).length < n := by
        rw [← hn, hspan.text_eq, bytes_append, bytes_append, List.length_append, List.length_append]
        omega
      refine List.pairwise_map.2 ((ih _ hshorter after rfl).imp fun hle => ?_)
      exact Nat.add_le_add_right hle _

end Source
end ContractBuild
