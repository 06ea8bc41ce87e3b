import ContractBuild.Proofs.FileChanges

/-! The entries of a directory that any path leads to, with steps up and idle ones in it or not. The
path of an entry leads to it as long as the system takes a path of that length. -/

namespace ContractBuild

namespace Path

def leading (d : Path) : List String :=
  if d.segments.getLast? == some "" then d.segments.dropLast else d.segments

variable {d : Path} {name : String}

theorem joinText_eq (hslash : '/' ∉ name.toList) : d.joinText name = ⟨d.leading ++ [name]⟩ := by
  have hrelative : (⟨[name]⟩ : Path).isAbsolute = false := by
    rw [isAbsolute]
    exact Bool.and_false _
  rw [joinText, ofText_of_noSlash hslash, join, hrelative, if_neg Bool.false_ne_true, leading]
  split
  · rfl
  · rfl

theorem segments_cases (d : Path) :
    (d.segments = d.leading ∧ d.segments.getLast? ≠ some "") ∨ d.segments = d.leading ++ [""] := by
  rw [leading]
  split
  · rename_i hlast
    obtain ⟨more, hmore⟩ := List.getLast?_eq_some_iff.1 (beq_iff_eq.1 hlast)
    refine Or.inr ?_
    rw [hmore, List.dropLast_concat]
  · rename_i hlast
    exact Or.inl ⟨rfl, fun h => hlast (beq_iff_eq.2 h)⟩

theorem leading_of_getLast?_ne (h : d.segments.getLast? ≠ some "") : d.leading = d.segments := by
  rw [leading, if_neg fun he => h (beq_iff_eq.1 he)]

theorem joinText_inj {other : String} (hslash : '/' ∉ name.toList) (hslash' : '/' ∉ other.toList) :
    d.joinText name = d.joinText other ↔ name = other := by
  rw [joinText_eq hslash, joinText_eq hslash', Path.mk.injEq, List.append_cancel_left_eq,
    List.cons.injEq, and_iff_left rfl]

theorem leading_ne_nil (hd : d.text ≠ "") : d.leading ≠ [] := by
  intro hnil
  rcases d.segments_cases with ⟨hsegments, -⟩ | hsegments
  · rw [text, hsegments, hnil] at hd
    exact hd rfl
  · rw [text, hsegments, hnil] at hd
    exact hd rfl

theorem isAbsolute_joinText (hd : d.text ≠ "") (hslash : '/' ∉ name.toList) :
    (d.joinText name).isAbsolute = d.isAbsolute := by
  obtain ⟨first, more, hleading⟩ := List.exists_cons_of_ne_nil (leading_ne_nil hd)
  rw [joinText_eq hslash, isAbsolute, isAbsolute]
  rcases d.segments_cases with ⟨hsegments, hlast⟩ | hsegments
  · rw [hsegments, hleading]
    cases more with
    | nil =>
      -- a single segment is not empty, as it is no slash at the end
      rw [hsegments, hleading] at hlast
      have hfirst : (some first == some "") = false := beq_false_of_ne hlast
      show (some first == some "" && true) = (some first == some "" && false)
      rw [hfirst]
      rfl
    | cons second more => simp
  · rw [hsegments, hleading]
    simp

theorem text_joinText (hd : d.text ≠ "") (hslash : '/' ∉ name.toList) :
    ∃ more, (d.joinText name).text = d.text ++ more ++ name := by
  have hjoined : (d.joinText name).text = "/".intercalate d.leading ++ "/" ++ name := by
    rw [joinText_eq hslash, text, String.intercalate_append_of_ne_nil (leading_ne_nil hd)
      (List.cons_ne_nil _ _), String.intercalate_singleton]
  rcases d.segments_cases with ⟨hsegments, -⟩ | hsegments
  · refine ⟨"/", ?_⟩
    rw [hjoined, text, hsegments]
  · refine ⟨"", ?_⟩
    rw [hjoined, text, hsegments, String.intercalate_append_of_ne_nil (leading_ne_nil hd)
      (List.cons_ne_nil _ _), String.intercalate_singleton, String.append_empty, String.append_empty]

theorem byteLength_le_joinText (hd : d.text ≠ "") (hslash : '/' ∉ name.toList) :
    d.byteLength ≤ (d.joinText name).byteLength := by
  obtain ⟨more, htext⟩ := text_joinText hd hslash
  rw [byteLength, byteLength, htext, String.utf8ByteSize_append, String.utf8ByteSize_append]
  omega

end Path

namespace FileTree

open ContractBuild.Path

section Files

variable {t : FileTree} {p : Path} {k : Location}

def fileAt? (t : FileTree) (p : Path) : Option Location :=
  match t.find p with
  | .ok (k, .file _) => some k
  | _ => none

def without (t : FileTree) (paths : List Path) : FileTree :=
  t.remove fun k => paths.any (t.fileAt? · == some k)

theorem fileAt?_eq_some_iff :
    t.fileAt? p = some k ↔ ∃ content, t.find p = .ok (k, .file content) := by
  rw [fileAt?]
  rcases t.find p with e | ⟨j, _ | c⟩
  · simp
  · simp
  · simp

theorem without_eq_self {paths : List Path} (h : ∀ p ∈ paths, t.fileAt? p = none) :
    t.without paths = t := by
  have hnone : ∀ k, (paths.any (t.fileAt? · == some k)) = false := by
    intro k
    rw [List.any_eq_false]
    intro p hp
    rw [h p hp]
    exact nofun
  rw [without, remove]
  simp [hnone]

theorem removeFile_getD (t : FileTree) (p : Path) :
    (t.removeFile p).toOption.getD t = t.without [p] := by
  have hnone : t.fileAt? p = none → t.without [p] = t :=
    fun h => without_eq_self (List.forall_mem_singleton.2 h)
  rw [removeFile]
  rcases hfind : t.find p with e | ⟨k, _ | content⟩
  · exact (hnone (by rw [fileAt?, hfind])).symm
  · exact (hnone (by rw [fileAt?, hfind])).symm
  · rw [without]
    show t.remove (· == k) = _
    refine congrArg t.remove (funext fun j => ?_)
    have hat : t.fileAt? p = some k := fileAt?_eq_some_iff.2 ⟨content, hfind⟩
    rw [List.any_cons, List.any_nil, Bool.or_false, hat, Bool.eq_iff_iff, beq_iff_eq, beq_iff_eq,
      Option.some.injEq, eq_comm]

theorem without_without {paths more : List Path}
    (h : ∀ p ∈ more, (t.without paths).fileAt? p = t.fileAt? p) :
    (t.without paths).without more = t.without (paths ++ more) := by
  have hmore : ∀ k, (more.any ((t.without paths).fileAt? · == some k)) =
      more.any (t.fileAt? · == some k) := by
    intro k
    refine Bool.eq_iff_iff.2 ?_
    rw [List.any_eq_true, List.any_eq_true]
    exact exists_congr fun p => and_congr_right fun hp => by rw [h p hp]
  rw [without, without, without, remove, remove, remove]
  dsimp only
  rw [List.filter_filter]
  congr 1
  refine List.filter_congr fun e _ => ?_
  rw [List.any_append, Bool.not_or, Bool.and_comm]
  congr 2
  exact hmore e.1

theorem node?_without (t : FileTree) (paths : List Path) (k : Location) :
    (t.without paths).node? k = if ∃ p ∈ paths, t.fileAt? p = some k then none else t.node? k := by
  have hany : (paths.any (t.fileAt? · == some k)) = true ↔ ∃ p ∈ paths, t.fileAt? p = some k := by
    simp only [List.any_eq_true, beq_iff_eq]
  rw [without, node?_remove]
  refine if_congr ((and_congr_right fun _ => hany).trans (and_iff_right_of_imp ?_)) rfl rfl
  rintro ⟨p, -, hp⟩ rfl
  obtain ⟨content, hfind⟩ := fileAt?_eq_some_iff.1 hp
  exact absurd ((t.node?_nil).symm.trans (find_eq_ok_iff.1 hfind).2) nofun

theorem WellFormed.without (ht : t.WellFormed) (paths : List Path) :
    (t.without paths).WellFormed := by
  have hkept : ∀ j, t.node? j = some .directory → (t.without paths).node? j = some .directory := by
    intro j hj
    rw [node?_without, if_neg, hj]
    rintro ⟨p, -, hp⟩
    obtain ⟨content, hfind⟩ := fileAt?_eq_some_iff.1 hp
    cases hj.symm.trans (find_eq_ok_iff.1 hfind).2
  refine ⟨fun e he => ht.named e (List.mem_of_mem_filter he), fun e he => ?_, hkept _ ht.working⟩
  have hr := ht.rooted e (List.mem_of_mem_filter he)
  exact ⟨hr.1, hkept _ hr.2⟩

end Files

section Entries

variable {t t' : FileTree} {d : Path} {l k : Location} {name : String} {node : Node}

def Nameable (d : Path) (name : String) : Prop := (d.joinText name).byteLength ≤ maxPathLength

instance (d : Path) (name : String) : Decidable (Nameable d name) :=
  inferInstanceAs (Decidable (_ ≤ _))

theorem walk_leading (d : Path) : t.walk l d.segments = .ok k ∧ t.node? k = some .directory ↔
    t.walk l d.leading = .ok k ∧ t.node? k = some .directory := by
  rcases d.segments_cases with ⟨hsegments, -⟩ | hsegments
  · rw [hsegments]
  · rw [hsegments, walk_append]
    constructor
    · rintro ⟨⟨j, hj, hidle⟩, hk⟩
      obtain ⟨-, rfl⟩ := walk_idle.1 hidle
      exact ⟨hj, hk⟩
    · rintro ⟨hj, hk⟩
      exact ⟨⟨k, hj, walk_idle.2 ⟨hk, rfl⟩⟩, hk⟩

theorem locate_joinText_iff (hd : d.text ≠ "") (hstep : isStep name = true) (hparent : name ≠ "..")
    (hslash : '/' ∉ name.toList) : t.locate (d.joinText name) = .ok k ↔
      Nameable d name ∧ IsFileName name ∧ ∃ l, t.find d = .ok (l, .directory) ∧ k = l ++ [name] := by
  have hstart : t.startOf (d.joinText name) = t.startOf d := by
    rw [startOf, startOf, isAbsolute_joinText hd hslash]
  have htext : (d.joinText name).text ≠ "" := by
    intro hempty
    obtain ⟨more, hmore⟩ := text_joinText hd hslash
    rw [hmore, String.append_eq_empty_iff, String.append_eq_empty_iff] at hempty
    exact hd hempty.1.1
  have hsegments : (d.joinText name).segments = d.leading ++ [name] := by rw [joinText_eq hslash]
  have hnul : (∀ s ∈ d.segments, hasNul s = false) ↔ ∀ s ∈ d.leading, hasNul s = false := by
    rcases d.segments_cases with ⟨h, -⟩ | h
    · rw [h]
    · rw [h, List.forall_mem_append, and_iff_left (List.forall_mem_singleton.2 (by decide))]
  have hfind : (∃ l, t.find d = .ok (l, .directory) ∧ k = l ++ [name]) ↔
      (∀ s ∈ d.leading, hasNul s = false) ∧ d.byteLength ≤ maxPathLength ∧
        ∃ l, (t.walk (t.startOf d) d.leading = .ok l ∧ t.node? l = some .directory) ∧
          k = l ++ [name] := by
    simp only [find_eq_ok_iff, locate_eq_ok_iff, hnul, ← walk_leading d]
    constructor
    · rintro ⟨l, ⟨⟨hn, -, hlength, hw⟩, hl⟩, hk⟩
      exact ⟨hn, hlength, l, ⟨hw, hl⟩, hk⟩
    · rintro ⟨hn, hlength, l, ⟨hw, hl⟩, hk⟩
      exact ⟨l, ⟨⟨hn, hd, hlength, hw⟩, hl⟩, hk⟩
  rw [locate_eq_ok_iff, hfind, hstart, hsegments, walk_append, List.forall_mem_append,
    List.forall_mem_singleton]
  simp only [walk_step hstep hparent]
  constructor
  · rintro ⟨⟨hn, hname⟩, -, hlength, l, hw, hl, hshort, hk⟩
    exact ⟨hlength, ⟨hstep, hparent, hslash, hname, hshort⟩, hn,
      Nat.le_trans (byteLength_le_joinText hd hslash) hlength, l, ⟨hw, hl⟩, hk⟩
  · rintro ⟨hlength, hname, hn, -, l, ⟨hw, hl⟩, hk⟩
    exact ⟨⟨hn, hname.noNul⟩, htext, hlength, l, hw, hl, hname.short, hk⟩

theorem text_ne_of_find (h : t.find d = .ok (l, node)) : d.text ≠ "" :=
  (locate_eq_ok_iff.1 (find_eq_ok_iff.1 h).1).2.1

theorem find_joinText_iff (hd : t.find d = .ok (l, .directory)) (hname : IsFileName name) :
    t.find (d.joinText name) = .ok (k, node) ↔
      Nameable d name ∧ k = l ++ [name] ∧ t.node? (l ++ [name]) = some node := by
  rw [find_eq_ok_iff, locate_joinText_iff (text_ne_of_find hd) hname.isStep hname.ne_parent
    hname.noSlash]
  constructor
  · rintro ⟨⟨hnameable, -, j, hj, rfl⟩, hnode⟩
    cases hd.symm.trans hj
    exact ⟨hnameable, rfl, hnode⟩
  · rintro ⟨hnameable, rfl, hnode⟩
    exact ⟨⟨hnameable, hname, l, hd, rfl⟩, hnode⟩

theorem fileAt?_joinText_iff (hd : t.find d = .ok (l, .directory)) (hname : IsFileName name) :
    t.fileAt? (d.joinText name) = some k ↔ Nameable d name ∧ k = l ++ [name] ∧
      ∃ content, t.node? (l ++ [name]) = some (.file content) := by
  rw [fileAt?_eq_some_iff]
  simp only [find_joinText_iff hd hname]
  exact ⟨fun ⟨content, hnameable, hk, hnode⟩ => ⟨hnameable, hk, content, hnode⟩,
    fun ⟨hnameable, hk, content, hnode⟩ => ⟨content, hnameable, hk, hnode⟩⟩

theorem mem_list_iff (hd : t.find d = .ok (l, .directory)) :
    name ∈ t.list d ↔ ∃ node, t.node? (l ++ [name]) = some node := by
  rw [FileTree.list, hd]
  exact mem_children

theorem exists_find_of_mem_list (h : name ∈ t.list d) : ∃ l, t.find d = .ok (l, .directory) := by
  rw [FileTree.list] at h
  split at h
  · exact ⟨_, by assumption⟩
  · cases h

theorem find_directory_of_keepsDirectories (h : KeepsDirectories t t')
    (hd : t.find d = .ok (l, .directory)) : t'.find d = .ok (l, .directory) := by
  obtain ⟨hlocate, hnode⟩ := find_eq_ok_iff.1 hd
  exact find_eq_ok_iff.2 ⟨locate_of_keepsDirectories h hlocate, h.directory l hnode⟩

end Entries

end FileTree
end ContractBuild
