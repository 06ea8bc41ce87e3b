import ContractBuild.Proofs.Spans
import ContractBuild.Source.Fingerprint

/-! What the fingerprints of the units of a file are made from, before and after one declaration is
replaced: the pieces of the other units stay the same, and those of the unit itself do not. -/

namespace ContractBuild

namespace Source

open Text

theorem slice_eq (text : List UInt8) (start stop : Nat) :
    slice text start stop = (text.take stop).drop start := by
  rw [slice, List.drop_take]

theorem piecesBetween_append {x : List UInt8} {ds : List Declaration} (hds : LieBefore x.length ds)
    {pos : Nat} (hpos : pos ≤ x.length) :
    ∃ pieces pos', pos' ≤ x.length ∧ ∀ y es,
      piecesBetween (x ++ y) pos (ds ++ es) = pieces ++ piecesBetween (x ++ y) pos' es := by
  induction ds generalizing pos with
  | nil => exact ⟨[], pos, hpos, fun _ _ => rfl⟩
  | cons d ds ih =>
    obtain ⟨hstart, hstop⟩ := hds d List.mem_cons_self
    obtain ⟨pieces, pos', hpos', hrest⟩ :=
      ih (fun e he => hds e (List.mem_cons_of_mem _ he)) (Nat.max_le.2 ⟨hpos, hstop⟩)
    by_cases hd : pos ≤ d.start
    · refine ⟨slice x pos d.start :: pieces, pos', hpos', fun y es => ?_⟩
      rw [List.cons_append, piecesBetween, if_pos hd, hrest, slice_eq, slice_eq,
        List.take_append_of_le_length hstart]
      rfl
    · refine ⟨pieces, pos', hpos', fun y es => ?_⟩
      rw [List.cons_append, piecesBetween, if_neg hd, hrest]

theorem piecesBetween_shift (x y : List UInt8) (pos : Nat) (es : List Declaration) :
    piecesBetween (x ++ y) (x.length + pos) (es.map (·.shift x.length)) = piecesBetween y pos es := by
  induction es generalizing pos with
  | nil => rw [List.map_nil, piecesBetween, piecesBetween, List.drop_length_add_append]
  | cons e es ih =>
    have hmax : max (x.length + pos) (e.shift x.length).stop = x.length + max pos e.stop := by
      simp only [Declaration.shift]
      omega
    have hle : x.length + pos ≤ (e.shift x.length).start ↔ pos ≤ e.start := by
      simp only [Declaration.shift]
      omega
    rw [List.map_cons, piecesBetween, piecesBetween, hmax, ih, if_congr hle rfl rfl, slice, slice,
      List.drop_length_add_append]
    simp only [Declaration.shift]
    rw [show e.start + x.length - (x.length + pos) = e.start - pos by omega]

theorem piecesBetween_join (y : List UInt8) (es : List Declaration) :
    ∃ p ps, ∀ (x : List UInt8) (pos : Nat), pos ≤ x.length →
      piecesBetween (x ++ y) pos (es.map (·.shift x.length)) = (x.drop pos ++ p) :: ps := by
  cases es with
  | nil =>
    refine ⟨y, [], fun x pos hpos => ?_⟩
    rw [List.map_nil, piecesBetween, List.drop_append_of_le_length hpos]
  | cons e es =>
    refine ⟨y.take e.start, piecesBetween y e.stop es, fun x pos hpos => ?_⟩
    have hle : pos ≤ (e.shift x.length).start := Nat.le_trans hpos (Nat.le_add_left _ _)
    have hmax : max pos (e.shift x.length).stop = x.length + e.stop := by
      simp only [Declaration.shift]
      omega
    rw [List.map_cons, piecesBetween, if_pos hle, hmax, piecesBetween_shift, slice_eq]
    simp only [Declaration.shift]
    rw [Nat.add_comm, List.take_length_add_append, List.drop_append_of_le_length hpos]

theorem pieces_of_sibling {before : List UInt8} {ds : List Declaration}
    (hds : LieBefore before.length ds) (after : List UInt8) (es : List Declaration) :
    ∃ pieces, ∀ (text : List UInt8) (d : Declaration), d.start = before.length →
      d.stop = before.length + text.length →
      piecesBetween (before ++ (text ++ after)) 0
        (ds ++ d :: es.map (·.shift (before.length + text.length))) = pieces := by
  obtain ⟨pieces, pos, hpos, hfront⟩ := piecesBetween_append hds (Nat.zero_le _)
  refine ⟨pieces ++ before.drop pos :: piecesBetween after 0 es, fun text d hstart hstop => ?_⟩
  have hmax : max pos d.stop = (before ++ text).length + 0 := by
    rw [hstop, List.length_append]
    omega
  have hlength : before.length + text.length = (before ++ text).length := List.length_append.symm
  rw [hfront, piecesBetween, hstart, if_pos hpos, hmax, slice_eq, List.take_left, hlength,
    ← List.append_assoc, piecesBetween_shift]

theorem pieces_of_changed {before : List UInt8} {ds : List Declaration}
    (hds : LieBefore before.length ds) (after : List UInt8) (es : List Declaration) :
    ∃ front x y back, ∀ text : List UInt8, piecesBetween (before ++ (text ++ after)) 0
      (ds ++ es.map (·.shift (before.length + text.length))) =
        front ++ (x ++ (text ++ y)) :: back := by
  obtain ⟨pieces, pos, hpos, hfront⟩ := piecesBetween_append hds (Nat.zero_le _)
  obtain ⟨p, ps, hjoin⟩ := piecesBetween_join after es
  refine ⟨pieces, before.drop pos, p, ps, fun text => ?_⟩
  have hlength : before.length + text.length = (before ++ text).length := List.length_append.symm
  rw [hfront, ← List.append_assoc, hlength,
    hjoin _ _ (hlength ▸ Nat.le_add_right_of_le hpos), List.drop_append_of_le_length hpos,
    List.append_assoc]

def siblings (unit : String) (ds : List Declaration) : List Declaration :=
  ds.filter (·.name != unit)

theorem siblings_append (unit : String) (ds es : List Declaration) :
    siblings unit (ds ++ es) = siblings unit ds ++ siblings unit es := List.filter_append ..

theorem siblings_cons_of_ne {unit : String} {d : Declaration} (h : d.name ≠ unit)
    (ds : List Declaration) : siblings unit (d :: ds) = d :: siblings unit ds :=
  List.filter_cons_of_pos (bne_iff_ne.2 h)

theorem siblings_cons_self (d : Declaration) (ds : List Declaration) :
    siblings d.name (d :: ds) = siblings d.name ds :=
  List.filter_cons_of_neg fun h => bne_iff_ne.1 h rfl

theorem siblings_shift (unit : String) (k : Nat) (ds : List Declaration) :
    siblings unit (ds.map (·.shift k)) = (siblings unit ds).map (·.shift k) := List.filter_map

theorem LieBefore.siblings {n : Nat} {ds : List Declaration} (h : LieBefore n ds) (unit : String) :
    LieBefore n (siblings unit ds) := fun d hd => h d (List.mem_filter.1 hd).1

theorem remainder_of_declared {text : List UInt8} {unit : String}
    (h : unit ∈ (declarations text).map (·.name)) :
    remainder text unit = piecesBetween text 0 (siblings unit (declarations text)) := by
  have hany : (declarations text).any (·.name == unit) = true := by
    obtain ⟨d, hd, hname⟩ := List.mem_map.1 h
    exact List.any_eq_true.2 ⟨d, hd, beq_iff_eq.2 hname⟩
  exact if_pos hany

theorem fingerprintParts_eq {text unit : String}
    (h : unit ∈ (declarations (bytes text)).map (·.name)) :
    fingerprintParts text unit false =
      bytes unit :: piecesBetween (bytes text) 0 (siblings unit (declarations (bytes text))) :=
  congrArg (bytes unit :: ·) (remainder_of_declared h)

section Replacing

variable {text before old new after : String} {d : Declaration}

theorem names_replace (h : Span text d before old after) (hnew : SelfContained new d.name)
    (habstract : opensAbstract (bytes old) = opensAbstract (bytes new)) :
    (declarations (bytes (before ++ (new ++ after)))).map (·.name) =
      (declarations (bytes text)).map (·.name) := by
  obtain ⟨ds, d', -, hname, -, -, hold, hreplaced⟩ := h.replace hnew habstract
  rw [hold, hreplaced, List.map_append, List.map_append, List.map_cons, List.map_cons, hname,
    List.map_map, List.map_map]
  rfl

theorem mem_names_replace {unit : String} (h : Span text d before old after)
    (hnew : SelfContained new unit)
    (habstract : opensAbstract (bytes old) = opensAbstract (bytes new)) {v : String}
    (hv : v ∈ (declarations (bytes text)).map (·.name)) (hne : d.name ≠ v) :
    v ∈ (declarations (bytes (before ++ (new ++ after)))).map (·.name) := by
  obtain ⟨ds, d', -, -, -, -, hold, hreplaced⟩ := h.replace hnew habstract
  rw [hold, List.map_append, List.map_cons, List.mem_append, List.mem_cons, List.map_map] at hv
  rw [hreplaced, List.map_append, List.map_cons, List.mem_append, List.mem_cons, List.map_map]
  rcases hv with hfront | rfl | hback
  · exact Or.inl hfront
  · exact absurd rfl hne
  · exact Or.inr (Or.inr hback)

theorem fingerprintParts_of_sibling {unit : String} (h : Span text d before old after)
    (hnew : SelfContained new unit)
    (habstract : opensAbstract (bytes old) = opensAbstract (bytes new)) {v : String}
    (hv : v ∈ (declarations (bytes text)).map (·.name)) (hne : d.name ≠ v) (hunit : unit ≠ v) :
    fingerprintParts (before ++ (new ++ after)) v false = fingerprintParts text v false := by
  rw [fingerprintParts_eq hv, fingerprintParts_eq (mem_names_replace h hnew habstract hv hne)]
  obtain ⟨ds, d', hds, rfl, hstart', hstop', hold, hreplaced⟩ := h.replace hnew habstract
  obtain ⟨pieces, hpieces⟩ :=
    pieces_of_sibling (hds.siblings v) (bytes after) (siblings v (declarations (bytes after)))
  rw [hold, hreplaced, siblings_append, siblings_append, siblings_cons_of_ne hne,
    siblings_cons_of_ne hunit, siblings_shift, siblings_shift, h.text_eq, bytes_append,
    bytes_append, bytes_append, bytes_append, hpieces _ d h.start_eq h.stop_eq,
    hpieces _ d' hstart' hstop']

theorem fingerprintParts_of_changed (h : Span text d before old after)
    (hnew : SelfContained new d.name)
    (habstract : opensAbstract (bytes old) = opensAbstract (bytes new)) (hne : new ≠ old) :
    fingerprintParts (before ++ (new ++ after)) d.name false ≠ fingerprintParts text d.name false := by
  have hd : d.name ∈ (declarations (bytes text)).map (·.name) := List.mem_map_of_mem h.mem
  rw [fingerprintParts_eq hd, fingerprintParts_eq (names_replace h hnew habstract ▸ hd)]
  obtain ⟨ds, d', hds, hname, -, -, hold, hreplaced⟩ := h.replace hnew habstract
  obtain ⟨front, x, y, back, hpieces⟩ :=
    pieces_of_changed (hds.siblings d.name) (bytes after) (siblings d.name (declarations (bytes after)))
  have hself : siblings d.name (d' :: (declarations (bytes after)).map
        (·.shift ((bytes before).length + (bytes new).length))) =
      siblings d.name ((declarations (bytes after)).map
        (·.shift ((bytes before).length + (bytes new).length))) := hname ▸ siblings_cons_self d' _
  rw [hold, hreplaced, siblings_append, siblings_append, siblings_cons_self, hself, siblings_shift,
    siblings_shift, h.text_eq, bytes_append, bytes_append, bytes_append, bytes_append, hpieces, hpieces]
  intro heq
  obtain ⟨hmiddle, -⟩ := List.cons.inj (List.append_cancel_left (List.cons.inj heq).2)
  exact hne (bytes_inj (List.append_cancel_right (List.append_cancel_left hmiddle)))

end Replacing

end Source
end ContractBuild
