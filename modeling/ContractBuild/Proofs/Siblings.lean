import ContractBuild.Proofs.Fingerprints

/-! Declarations side by side. Their spans begin and end between characters, follow one another, and
each declares its unit alone; so the fingerprint of a unit is made from what the spans of its siblings
leave of the text. Whatever declaration of another unit a sibling is replaced by, the fingerprint
stays. -/

namespace ContractBuild

namespace Text

theorem length_bytes (s : String) : (bytes s).length = s.utf8ByteSize := by
  rw [bytes, Array.length_toList]
  rfl

theorem isValid_length {l r : String} : (⟨(bytes l).length⟩ : String.Pos.Raw).IsValid (l ++ r) := by
  rw [String.Pos.Raw.isValid_iff_exists_append]
  exact ⟨l, r, rfl, congrArg String.Pos.Raw.mk (length_bytes l)⟩

theorem isValid_iff {text : String} {pos : Nat} : (⟨pos⟩ : String.Pos.Raw).IsValid text ↔
    ∃ l r, text = l ++ r ∧ (bytes l).length = pos := by
  constructor
  · intro h
    obtain ⟨l, r, htext, hpos⟩ := String.Pos.Raw.isValid_iff_exists_append.1 h
    exact ⟨l, r, htext, (length_bytes l).trans (congrArg String.Pos.Raw.byteIdx hpos).symm⟩
  · rintro ⟨l, r, rfl, rfl⟩
    exact isValid_length

theorem exists_between {l r : String} {n : Nat} (h : (⟨n⟩ : String.Pos.Raw).IsValid (l ++ r))
    (hn : (bytes l).length ≤ n) :
    ∃ m rest, r = m ++ rest ∧ (bytes l).length + (bytes m).length = n := by
  obtain ⟨l', r', heq, hn'⟩ := isValid_iff.1 h
  have hlists : l.toList ++ r.toList = l'.toList ++ r'.toList := by
    rw [← String.toList_append, ← String.toList_append, heq]
  have hsplit : ∃ m rest, r = m ++ rest ∧ l' = l ++ m := by
    rcases List.append_eq_append_iff.1 hlists with ⟨m, hl', hr⟩ | ⟨m, hl, hr'⟩
    · refine ⟨String.ofList m, r', String.toList_inj.1 ?_, String.toList_inj.1 ?_⟩
      · rw [String.toList_append, String.toList_ofList, hr]
      · rw [String.toList_append, String.toList_ofList, hl']
    · -- the second place is not in front of the first one, so nothing lies between them
      have hl : l = l' ++ String.ofList m := by
        rw [← String.toList_inj, String.toList_append, String.toList_ofList, hl]
      have hnil : (bytes (String.ofList m)).length = 0 := by
        rw [hl, bytes_append, List.length_append, hn'] at hn
        omega
      have hempty : String.ofList m = "" := bytes_inj (List.eq_nil_of_length_eq_zero hnil)
      rw [hempty, String.append_empty] at hl
      exact ⟨"", r, String.empty_append.symm, by rw [hl, String.append_empty]⟩
  obtain ⟨m, rest, hr, rfl⟩ := hsplit
  refine ⟨m, rest, hr, ?_⟩
  rw [← hn', bytes_append, List.length_append]

end Text

namespace Source

open Text

section Spans

variable {text : String} {d : Declaration}

theorem Span.isValid {before middle after : String} (h : Span text d before middle after) :
    (⟨d.start⟩ : String.Pos.Raw).IsValid text ∧ (⟨d.stop⟩ : String.Pos.Raw).IsValid text := by
  constructor
  · rw [h.start_eq, h.text_eq]
    exact isValid_length
  · rw [h.stop_eq, ← List.length_append, ← bytes_append, h.text_eq, ← String.append_assoc]
    exact isValid_length

theorem slice_middle {before middle after : String} (h : text = before ++ (middle ++ after)) :
    slice (bytes text) (bytes before).length ((bytes before).length + (bytes middle).length) =
      bytes middle := by
  rw [slice, h, bytes_append, bytes_append, List.drop_left, Nat.add_sub_cancel_left, List.take_left]

theorem Span.slice_eq {before middle after : String} (h : Span text d before middle after) :
    slice (bytes text) d.start d.stop = bytes middle := by
  rw [h.start_eq, h.stop_eq]
  exact slice_middle h.text_eq

end Spans

/-! ### What a fingerprint is made from -/

def woven (parts : List (String × String)) (last : String) : String :=
  parts.foldr (fun part rest => part.1 ++ (part.2 ++ rest)) last

def normalized (text : String) (minified : Bool) : String := if minified then minify text else text

/-- None if the unit is not declared. -/
def cutOut (text : List UInt8) (unit : String) : List Declaration :=
  if (declarations text).any (·.name == unit) then siblings unit (declarations text) else []

theorem remainder_eq (text : List UInt8) (unit : String) :
    remainder text unit = piecesBetween text 0 (cutOut text unit) := by
  simp only [remainder, cutOut]
  split <;> rfl

theorem cutOut_sublist (text : List UInt8) (unit : String) :
    (cutOut text unit).Sublist (declarations text) := by
  rw [cutOut]
  split
  · exact List.filter_sublist
  · exact List.nil_sublist _

/-- What spans leave of a text that begins at the place `pos`: the pieces around them. -/
inductive Leaves : (pos : Nat) → List Declaration → String → List String → Prop
  | behind (pos : Nat) (piece : String) : Leaves pos [] piece [piece]
  | around {pos : Nat} {d : Declaration} {ds : List Declaration} {rest : String}
      {pieces : List String} (piece span : String) (hstart : pos + (bytes piece).length = d.start)
      (hstop : d.start + (bytes span).length = d.stop) (hrest : Leaves d.stop ds rest pieces) :
      Leaves pos (d :: ds) (piece ++ (span ++ rest)) (piece :: pieces)

section Leaves

variable {ds : List Declaration} {text l r : String} {pieces : List String}

theorem exists_leaves (htext : text = l ++ r)
    (hspans : ∀ d ∈ ds, d.start ≤ d.stop ∧ (⟨d.start⟩ : String.Pos.Raw).IsValid text ∧
      (⟨d.stop⟩ : String.Pos.Raw).IsValid text)
    (horder : ds.Pairwise fun d e => d.stop ≤ e.start)
    (hbehind : ∀ d ∈ ds, (bytes l).length ≤ d.start) :
    ∃ pieces, Leaves (bytes l).length ds r pieces := by
  induction ds generalizing l r with
  | nil => exact ⟨[r], .behind _ r⟩
  | cons d ds ih =>
    obtain ⟨⟨hle, hstart, hstop⟩, hrest⟩ := List.forall_mem_cons.1 hspans
    obtain ⟨hfirst, horder⟩ := List.pairwise_cons.1 horder
    have hd := hbehind d List.mem_cons_self
    obtain ⟨piece, r', rfl, hpiece⟩ := exists_between (htext ▸ hstart) hd
    have hfront : text = l ++ piece ++ r' := by rw [htext, String.append_assoc]
    have hlength : (bytes (l ++ piece)).length = d.start := by
      rw [← hpiece, bytes_append, List.length_append]
    obtain ⟨span, r, rfl, hspan⟩ := exists_between (hfront ▸ hstop) (hlength ▸ hle)
    have hback : text = l ++ piece ++ span ++ r := hfront.trans String.append_assoc.symm
    have hend : (bytes (l ++ piece ++ span)).length = d.stop := by
      rw [← hspan, bytes_append, List.length_append]
    obtain ⟨pieces, hpieces⟩ := ih hback hrest horder (hend ▸ hfirst)
    exact ⟨piece :: pieces, .around piece span hpiece (hlength ▸ hspan) (hend ▸ hpieces)⟩

theorem exists_leaves_of_sublist (h : ds.Sublist (declarations (bytes text))) :
    ∃ pieces, Leaves 0 ds text pieces := by
  refine exists_leaves String.empty_append.symm (fun d hd => ?_)
    ((declarations_inOrder text).sublist h) fun _ _ => Nat.zero_le _
  obtain ⟨before, middle, after, hspan⟩ := exists_span (h.subset hd)
  refine ⟨?_, hspan.isValid⟩
  rw [hspan.start_eq, hspan.stop_eq]
  exact Nat.le_add_right _ _

theorem Leaves.length_eq {pos : Nat} (h : Leaves pos ds r pieces) :
    pieces.length = ds.length + 1 := by
  induction h with
  | behind pos piece => rfl
  | around piece span hstart hstop hrest ih => rw [List.length_cons, ih, List.length_cons]

theorem Leaves.piecesBetween_eq {pos : Nat} (h : Leaves pos ds r pieces) (htext : text = l ++ r)
    (hl : (bytes l).length = pos) : piecesBetween (bytes text) pos ds = pieces.map bytes := by
  induction h generalizing l with
  | behind pos piece =>
    rw [piecesBetween, htext, bytes_append, ← hl, List.drop_left]
    rfl
  | @around pos d ds rest pieces piece span hstart hstop hrest ih =>
    have hback : text = (l ++ (piece ++ span)) ++ rest := by
      rw [htext, String.append_assoc, String.append_assoc]
    have hend : (bytes (l ++ (piece ++ span))).length = d.stop := by
      rw [bytes_append, bytes_append, List.length_append, List.length_append]
      omega
    have hmax : max pos d.stop = d.stop := by omega
    rw [piecesBetween, if_pos (by omega), hmax, ih hback hend, ← hstart, ← hl, slice_middle htext]
    rfl

theorem Leaves.exists_woven {pos : Nat} (h : Leaves pos ds r pieces) (htext : text = l ++ r)
    (hl : (bytes l).length = pos) :
    ∃ parts last, r = woven parts last ∧ pieces = parts.map (·.1) ++ [last] ∧
      parts.map (bytes ·.2) = ds.map fun d => slice (bytes text) d.start d.stop := by
  induction h generalizing l with
  | behind pos piece => exact ⟨[], piece, rfl, rfl, rfl⟩
  | @around pos d ds rest pieces piece span hstart hstop hrest ih =>
    have hfront : text = (l ++ piece) ++ (span ++ rest) := by rw [htext, String.append_assoc]
    have hlength : (bytes (l ++ piece)).length = d.start := by
      rw [bytes_append, List.length_append, hl, hstart]
    have hback : text = (l ++ piece ++ span) ++ rest := hfront.trans String.append_assoc.symm
    have hend : (bytes (l ++ piece ++ span)).length = d.stop := by
      rw [bytes_append, List.length_append, hlength, hstop]
    obtain ⟨parts, last, rfl, rfl, hcut⟩ := ih hback hend
    refine ⟨(piece, span) :: parts, last, rfl, rfl, ?_⟩
    rw [List.map_cons, List.map_cons, hcut, ← hstop, ← hlength, slice_middle hfront]

/-- The text in front of, between and behind the declarations of other units. -/
def SiblingsLeave (text unit : String) (pieces : List String) : Prop :=
  Leaves 0 (siblings unit (declarations (bytes text))) text pieces

theorem exists_siblingsLeave (text unit : String) : ∃ pieces, SiblingsLeave text unit pieces :=
  exists_leaves_of_sublist List.filter_sublist

theorem SiblingsLeave.remainder_eq {unit : String} (h : SiblingsLeave text unit pieces)
    (hunit : unit ∈ (declarations (bytes text)).map (·.name)) :
    remainder (bytes text) unit = pieces.map bytes := by
  rw [remainder_of_declared hunit]
  exact Leaves.piecesBetween_eq h String.empty_append.symm rfl

theorem SiblingsLeave.unique {unit : String} {pieces' : List String}
    (h : SiblingsLeave text unit pieces) (h' : SiblingsLeave text unit pieces') : pieces = pieces' := by
  have hbytes : pieces.map bytes = pieces'.map bytes :=
    (Leaves.piecesBetween_eq h String.empty_append.symm rfl).symm.trans
      (Leaves.piecesBetween_eq h' String.empty_append.symm rfl)
  exact List.map_injective_iff.2 (fun _ _ => bytes_inj) hbytes

end Leaves

/-- The pieces that are hashed make up the whole text with the spans that are cut out. -/
theorem declarations_wellFormed (text : String) :
    ((declarations (bytes text)).Pairwise fun d e => d.stop ≤ e.start) ∧
    (∀ d ∈ declarations (bytes text), d.start < d.stop ∧ d.stop ≤ (bytes text).length ∧
      (⟨d.start⟩ : String.Pos.Raw).IsValid text ∧ (⟨d.stop⟩ : String.Pos.Raw).IsValid text ∧
      declarations (slice (bytes text) d.start d.stop) =
        [{ d with start := 0, stop := d.stop - d.start }]) ∧
    ∀ unit minified, ∃ parts last, normalized text minified = woven parts last ∧
      fingerprintParts text unit minified = bytes unit :: (parts.map (·.1) ++ [last]).map bytes ∧
      parts.map (bytes ·.2) = (cutOut (bytes (normalized text minified)) unit).map fun d =>
        slice (bytes (normalized text minified)) d.start d.stop := by
  refine ⟨declarations_inOrder text, fun d hd => ?_, fun unit minified => ?_⟩
  · obtain ⟨before, middle, after, hspan⟩ := exists_span hd
    have hpos := hspan.length_pos
    have hstart := hspan.start_eq
    have hstop := hspan.stop_eq
    refine ⟨by omega, ?_, hspan.isValid.1, hspan.isValid.2, ?_⟩
    · rw [hspan.text_eq, bytes_append, bytes_append, List.length_append, List.length_append]
      omega
    · rw [hspan.slice_eq, hspan.split.1, hstop, hstart, Nat.add_sub_cancel_left]
  · obtain ⟨pieces, hpieces⟩ := exists_leaves_of_sublist (cutOut_sublist _ _)
    obtain ⟨parts, last, htext, rfl, hcut⟩ := hpieces.exists_woven String.empty_append.symm rfl
    refine ⟨parts, last, htext, ?_, hcut⟩
    rw [← hpieces.piecesBetween_eq String.empty_append.symm rfl]
    exact congrArg (bytes unit :: ·) (remainder_eq _ _)

namespace SampleUnclosed

def text : String := "\x7d é contract A is B(\"\x7b\") \x7b é \x7d abstract library L ü is (\x7b '\\"

def first : Declaration := ⟨"A", .contract, ["B"], 5, 32⟩

def second : Declaration := ⟨"L", .library, [], 33, 63⟩

end SampleUnclosed

theorem declarations_wellFormed_unclosed :
    declarations (bytes SampleUnclosed.text) = [SampleUnclosed.first, SampleUnclosed.second] ∧
    declarations (slice (bytes SampleUnclosed.text) 33 63) = [⟨"L", .library, [], 0, 30⟩] ∧
    ∃ parts last, SampleUnclosed.text = woven parts last ∧ parts.map (bytes ·.2) =
      [slice (bytes SampleUnclosed.text) 5 32] := by
  have hds : declarations (bytes SampleUnclosed.text) =
      [SampleUnclosed.first, SampleUnclosed.second] := by decide +kernel
  obtain ⟨-, hspans, hparts⟩ := declarations_wellFormed SampleUnclosed.text
  have hsecond : SampleUnclosed.second ∈ declarations (bytes SampleUnclosed.text) := by
    rw [hds]
    decide
  obtain ⟨parts, last, htext, -, hcut⟩ := hparts "L" false
  have hfirst : cutOut (bytes SampleUnclosed.text) "L" = [SampleUnclosed.first] := by
    rw [cutOut, hds]
    decide
  refine ⟨hds, (hspans _ hsecond).2.2.2.2, parts, last, htext, hcut.trans ?_⟩
  exact congrArg (List.map _) hfirst

/-- The new declaration may be of a third unit and of another kind. -/
theorem fingerprintText_of_replaced_sibling {text before old new after unit other : String}
    {d : Declaration} (h : Span text d before old after) (hnew : SelfContained new other)
    (habstract : opensAbstract (bytes old) = opensAbstract (bytes new))
    (hunit : unit ∈ (declarations (bytes text)).map (·.name)) (hd : d.name ≠ unit)
    (hother : other ≠ unit) :
    fingerprintText (before ++ (new ++ after)) unit false = fingerprintText text unit false :=
  congrArg Digest.ofParts (fingerprintParts_of_sibling h hnew habstract hunit hd hother)

namespace SampleSibling

def before : String := "contract A \x7b\x7d é "

def old : String := "abstract contract D is A(\x7bx: ')'\x7d) \x7b // \x7d\n \x7d"

def new : String := "abstract library L \x7b string s = '\\'\x7d'; /* \x7d */ \x7d"

def after : String := " contract U is D \x7b /* é"

def text : String := before ++ (old ++ after)

def second : Declaration := ⟨"D", .abstractContract, ["A"], 17, 61⟩

theorem span_second : Span text second before old after :=
  ⟨rfl, by decide +kernel, by decide +kernel, by decide +kernel⟩

theorem new_selfContained : SelfContained new "L" :=
  selfContained_iff.2 ⟨⟨"L", .library, [], 0, 48⟩, by decide +kernel⟩

end SampleSibling

theorem fingerprintText_of_replaced_sibling_unclosed :
    Span SampleSibling.text SampleSibling.second SampleSibling.before SampleSibling.old
      SampleSibling.after ∧ SelfContained SampleSibling.new "L" ∧
    fingerprintText (SampleSibling.before ++ (SampleSibling.new ++ SampleSibling.after)) "U" false =
      fingerprintText SampleSibling.text "U" false :=
  ⟨SampleSibling.span_second, SampleSibling.new_selfContained,
    fingerprintText_of_replaced_sibling SampleSibling.span_second SampleSibling.new_selfContained
      (by decide +kernel) (by decide +kernel) (by decide) (by decide)⟩

end Source
end ContractBuild
