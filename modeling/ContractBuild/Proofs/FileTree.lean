import ContractBuild.Proofs.FileNames
import ContractBuild.Proofs.Names

/-! What is where in a file tree. Reading goes through the node at a location only; a path leads to a
location through directories, so it leads there in every tree that keeps these directories. -/

namespace ContractBuild.FileTree

open ContractBuild.Path

theorem node?_nil (t : FileTree) : t.node? [] = some .directory := by rw [node?, if_pos rfl]

theorem node?_of_ne {t : FileTree} {l : Location} (h : l ≠ []) : t.node? l = t.nodes.lookup l := by
  rw [node?, if_neg h]

/-- Every name in the tree is one that a directory can hold, every node is in a directory, and paths
begin in one. -/
structure WellFormed (t : FileTree) : Prop where
  named : ∀ e ∈ t.nodes, ∀ name ∈ e.1, IsFileName name
  rooted : ∀ e ∈ t.nodes, e.1 ≠ [] ∧ t.node? e.1.dropLast = some .directory
  working : t.node? t.workingDirectory = some .directory

theorem mem_nodes_of_node? {t : FileTree} {l : Location} {node : Node} (hl : l ≠ [])
    (h : t.node? l = some node) : (l, node) ∈ t.nodes := by
  rw [node?_of_ne hl, List.lookup_eq_some_iff] at h
  obtain ⟨l₁, l₂, he, -⟩ := h
  rw [he]
  exact List.mem_append_right _ List.mem_cons_self

theorem exists_node?_of_mem {t : FileTree} {l : Location} {node : Node} (h : (l, node) ∈ t.nodes) :
    ∃ n, t.node? l = some n := by
  rw [node?]
  split
  · exact ⟨_, rfl⟩
  · cases hl : t.nodes.lookup l with
    | some n => exact ⟨n, rfl⟩
    | none =>
      have hne := List.lookup_eq_none_iff.1 hl _ h
      rw [bne_self_eq_false] at hne
      cases hne

namespace WellFormed

variable {t : FileTree}

theorem names (h : t.WellFormed) {l : Location} {node : Node} (hl : t.node? l = some node) :
    ∀ name ∈ l, IsFileName name := by
  by_cases hne : l = []
  · subst hne
    exact fun _ hn => absurd hn List.not_mem_nil
  · exact h.named _ (mem_nodes_of_node? hne hl)

theorem parent (h : t.WellFormed) {l : Location} {node : Node} (hl : t.node? l = some node) :
    t.node? l.dropLast = some .directory := by
  by_cases hne : l = []
  · subst hne
    exact t.node?_nil
  · exact (h.rooted _ (mem_nodes_of_node? hne hl)).2

theorem directory_above (h : t.WellFormed) {l more : Location} {node : Node}
    (hl : t.node? (l ++ more) = some node) (hmore : more ≠ []) : t.node? l = some .directory := by
  have hp := h.parent hl
  rw [List.dropLast_append_of_ne_nil hmore] at hp
  by_cases hd : more.dropLast = []
  · rwa [hd, List.append_nil] at hp
  · exact h.directory_above hp hd
termination_by more.length
decreasing_by
  rw [List.length_dropLast]
  have := List.length_pos_of_ne_nil hmore
  omega

end WellFormed

section Nodes

theorem node?_remove (t : FileTree) (gone : Location → Bool) (k : Location) :
    (t.remove gone).node? k = if k ≠ [] ∧ gone k = true then none else t.node? k := by
  by_cases hk : k = []
  · rw [hk, node?_nil, node?_nil, if_neg (fun h => h.1 rfl)]
  · rw [node?_of_ne hk, node?_of_ne hk]
    show (t.nodes.filter fun e => !gone e.1).lookup k = _
    induction t.nodes with
    | nil => rw [List.filter_nil, List.lookup_nil, ite_self]
    | cons e rest ih =>
      obtain ⟨l, node⟩ := e
      by_cases hg : gone l = true
      · rw [List.filter_cons_of_neg (by simp [hg]), ih, NameMap.lookup_cons_ite]
        by_cases he : k = l
        · rw [if_pos ⟨hk, he ▸ hg⟩, if_pos ⟨hk, he ▸ hg⟩]
        · rw [if_neg he]
      · rw [List.filter_cons_of_pos (by simp [hg]), NameMap.lookup_cons_ite,
          NameMap.lookup_cons_ite, ih]
        by_cases he : k = l
        · rw [if_pos he, if_pos he, if_neg (fun h => hg (he ▸ h.2))]
        · rw [if_neg he, if_neg he]

theorem lookup_insertNode {l k : Location} {node : Node} {nodes : List (Location × Node)}
    (h : nodes.lookup l = none) :
    (insertNode l node nodes).lookup k = if k = l then some node else nodes.lookup k := by
  induction nodes with
  | nil => rw [insertNode, NameMap.lookup_cons_ite]
  | cons e rest ih =>
    obtain ⟨m, n⟩ := e
    rw [NameMap.lookup_cons_ite] at h
    have hm : l ≠ m := by
      intro he
      rw [if_pos he] at h
      cases h
    rw [if_neg hm] at h
    rw [insertNode]
    split
    · rw [NameMap.lookup_cons_ite, NameMap.lookup_cons_ite, NameMap.lookup_cons_ite]
      by_cases he : k = l
      · rw [he, if_neg hm, if_pos rfl, if_pos rfl]
      · rw [if_neg he, if_neg he]
    · rw [NameMap.lookup_cons_ite, NameMap.lookup_cons_ite, ih h]
      by_cases he : k = l
      · rw [he, if_neg hm, if_pos rfl, if_pos rfl]
      · rw [if_neg he, if_neg he]

theorem node?_insert {t : FileTree} {l : Location} (node : Node) (h : t.node? l = none)
    (k : Location) : (t.insert l node).node? k = if k = l then some node else t.node? k := by
  have hl : l ≠ [] := by
    rintro rfl
    rw [node?_nil] at h
    cases h
  rw [node?_of_ne hl] at h
  by_cases hk : k = []
  · rw [hk, node?_nil, node?_nil, if_neg hl.symm]
  · rw [node?_of_ne hk, node?_of_ne hk]
    show (if l.dropLast = [] then (l, node) :: t.nodes else insertNode l node t.nodes).lookup k = _
    split
    · exact NameMap.lookup_cons_ite l k node t.nodes
    · exact lookup_insertNode h

theorem mem_insertNode {l : Location} {node : Node} {nodes : List (Location × Node)}
    {e : Location × Node} : e ∈ insertNode l node nodes ↔ e = (l, node) ∨ e ∈ nodes := by
  induction nodes with
  | nil => simp [insertNode]
  | cons head rest ih =>
    obtain ⟨k, n⟩ := head
    rw [insertNode]
    split
    · simp only [List.mem_cons]
      tauto
    · simp only [List.mem_cons, ih]
      tauto

theorem mem_nodes_insert {t : FileTree} {l : Location} {node : Node} {e : Location × Node} :
    e ∈ (t.insert l node).nodes ↔ e = (l, node) ∨ e ∈ t.nodes := by
  rw [insert]
  dsimp only
  split
  · exact List.mem_cons
  · exact mem_insertNode

theorem length_le_depth {t : FileTree} {l : Location} {node : Node} (h : t.node? l = some node) :
    l.length ≤ t.depth := by
  have hmax : ∀ lengths : List Nat, ∀ n ∈ lengths, n ≤ lengths.foldr max 0 := by
    intro lengths
    induction lengths with
    | nil => exact nofun
    | cons first rest ih =>
      intro n hn
      rcases List.mem_cons.1 hn with rfl | hn
      · exact Nat.le_max_left _ _
      · exact Nat.le_trans (ih n hn) (Nat.le_max_right _ _)
  by_cases hl : l = []
  · rw [hl]
    exact Nat.zero_le _
  · exact hmax _ _ (List.mem_map.2 ⟨_, mem_nodes_of_node? hl h, rfl⟩)

theorem mem_children {t : FileTree} {l : Location} {name : String} :
    name ∈ t.children l ↔ ∃ node, t.node? (l ++ [name]) = some node := by
  rw [children, List.mem_filterMap]
  constructor
  · rintro ⟨⟨k, node⟩, hmem, hname⟩
    rw [childName?] at hname
    split at hname
    · rename_i last hlast
      split at hname
      · rename_i hdrop
        cases hname
        have hk : k = l ++ [name] := by
          obtain ⟨more, rfl⟩ := List.getLast?_eq_some_iff.1 hlast
          rw [← hdrop, List.dropLast_concat]
        exact exists_node?_of_mem (hk ▸ hmem)
      · cases hname
    · cases hname
  · rintro ⟨node, hnode⟩
    refine ⟨_, mem_nodes_of_node? (by simp) hnode, ?_⟩
    simp [childName?]

end Nodes

section Walks

variable {t t' : FileTree}

theorem walk_nil (l : Location) : t.walk l [] = .ok l := by rw [walk]

theorem walk_cons {l : Location} (h : t.node? l = some .directory) (segment : String)
    (rest : List String) : t.walk l (segment :: rest) =
      if !isStep segment then t.walk l rest
      else if segment = ".." then t.walk l.dropLast rest
      else if segment.utf8ByteSize > maxNameLength then .error .nameTooLong
      else t.walk (l ++ [segment]) rest := by
  rw [walk, h]

inductive Goes (l : Location) (segment : String) : Location → Prop where
  | idle (h : isStep segment = false) : Goes l segment l
  | up (h : segment = "..") : Goes l segment l.dropLast
  | down (hstep : isStep segment = true) (hparent : segment ≠ "..")
      (hshort : segment.utf8ByteSize ≤ maxNameLength) : Goes l segment (l ++ [segment])

theorem walk_cons_eq_ok_iff {l k : Location} {segment : String} {rest : List String} :
    t.walk l (segment :: rest) = .ok k ↔
      t.node? l = some .directory ∧ ∃ l', Goes l segment l' ∧ t.walk l' rest = .ok k := by
  constructor
  · intro h
    have hd : t.node? l = some .directory := by
      rw [walk] at h
      split at h
      · cases h
      · cases h
      · assumption
    rw [walk_cons hd] at h
    refine ⟨hd, ?_⟩
    split at h
    · rename_i hidle
      exact ⟨l, .idle (by simpa using hidle), h⟩
    · rename_i hstep
      split at h
      · rename_i hparent
        exact ⟨_, .up hparent, h⟩
      · rename_i hparent
        split at h
        · cases h
        · rename_i hshort
          exact ⟨_, .down (by simpa using hstep) hparent (Nat.not_lt.1 hshort), h⟩
  · rintro ⟨hd, l', hgoes, h⟩
    rw [walk_cons hd]
    cases hgoes with
    | idle hidle =>
      rw [hidle]
      exact h
    | up hparent =>
      subst hparent
      exact h
    | down hstep hparent hshort =>
      rw [hstep, if_neg hparent, if_neg (Nat.not_lt.2 hshort)]
      exact h

theorem walk_cons_ok {l k : Location} {segment : String} {rest : List String}
    (h : t.walk l (segment :: rest) = .ok k) : t.node? l = some .directory :=
  (walk_cons_eq_ok_iff.1 h).1

theorem walk_append {l k : Location} (xs ys : List String) :
    t.walk l (xs ++ ys) = .ok k ↔ ∃ j, t.walk l xs = .ok j ∧ t.walk j ys = .ok k := by
  induction xs generalizing l with
  | nil => simp [walk_nil]
  | cons segment xs ih =>
    simp only [List.cons_append, walk_cons_eq_ok_iff, ih]
    constructor
    · rintro ⟨hd, l', hgoes, j, hx, hy⟩
      exact ⟨j, ⟨hd, l', hgoes, hx⟩, hy⟩
    · rintro ⟨j, ⟨hd, l', hgoes, hx⟩, hy⟩
      exact ⟨hd, l', hgoes, j, hx, hy⟩

theorem walk_idle {l k : Location} :
    t.walk l [""] = .ok k ↔ t.node? l = some .directory ∧ k = l := by
  rw [walk_cons_eq_ok_iff]
  refine and_congr_right fun _ => ?_
  constructor
  · rintro ⟨l', hgoes, hk⟩
    cases hk
    cases hgoes with
    | idle => rfl
    | up h => exact absurd h (by decide)
    | down hstep => exact absurd hstep (by decide)
  · rintro rfl
    exact ⟨_, .idle (by decide), walk_nil _⟩

theorem walk_step {l k : Location} {name : String} (hstep : isStep name = true)
    (hparent : name ≠ "..") : t.walk l [name] = .ok k ↔
      t.node? l = some .directory ∧ name.utf8ByteSize ≤ maxNameLength ∧ k = l ++ [name] := by
  rw [walk_cons_eq_ok_iff]
  refine and_congr_right fun _ => ?_
  constructor
  · rintro ⟨l', hgoes, hk⟩
    cases hk
    cases hgoes with
    | idle hidle =>
      rw [hstep] at hidle
      cases hidle
    | up h => exact absurd h hparent
    | down _ _ hshort => exact ⟨hshort, rfl⟩
  · rintro ⟨hshort, rfl⟩
    exact ⟨_, .down hstep hparent hshort, walk_nil _⟩

theorem walk_fileName {l : Location} (h : t.node? l = some .directory) {name : String}
    (hname : IsFileName name) (rest : List String) :
    t.walk l (name :: rest) = t.walk (l ++ [name]) rest := by
  rw [walk_cons h, hname.isStep, if_neg (by simp), if_neg hname.ne_parent,
    if_neg (Nat.not_lt.2 hname.short)]

theorem walk_names {l : Location} {names : List String} (hnames : ∀ name ∈ names, IsFileName name)
    {k : Location} (h : t.walk l names = .ok k) : k = l ++ names := by
  induction names generalizing l with
  | nil =>
    rw [walk_nil] at h
    cases h
    rw [List.append_nil]
  | cons name rest ih =>
    have hd := walk_cons_ok h
    rw [walk_fileName hd (hnames name List.mem_cons_self)] at h
    rw [ih (fun n hn => hnames n (List.mem_cons_of_mem name hn)) h, List.append_assoc]
    rfl

theorem walk_names_ok (ht : t.WellFormed) {l : Location} {names : List String} {node : Node}
    (h : t.node? (l ++ names) = some node) : t.walk l names = .ok (l ++ names) := by
  induction names generalizing l with
  | nil => rw [walk_nil, List.append_nil]
  | cons name rest ih =>
    have hname : IsFileName name := ht.names h name (by simp)
    have hsplit : l ++ name :: rest = (l ++ [name]) ++ rest := by simp
    rw [walk_fileName (ht.directory_above h (List.cons_ne_nil _ _)) hname, hsplit]
    rw [hsplit] at h
    exact ih h

structure KeepsDirectories (t t' : FileTree) : Prop where
  workingDirectory : t'.workingDirectory = t.workingDirectory
  directory : ∀ k, t.node? k = some .directory → t'.node? k = some .directory

theorem walk_of_keepsDirectories (h : KeepsDirectories t t') {l k : Location} {segments : List String}
    (hw : t.walk l segments = .ok k) : t'.walk l segments = .ok k := by
  induction segments generalizing l with
  | nil =>
    rw [walk_nil] at hw ⊢
    exact hw
  | cons segment rest ih =>
    obtain ⟨hd, l', hgoes, hrest⟩ := walk_cons_eq_ok_iff.1 hw
    exact walk_cons_eq_ok_iff.2 ⟨h.directory l hd, l', hgoes, ih hrest⟩

def startOf (t : FileTree) (p : Path) : Location :=
  if p.isAbsolute then [] else t.workingDirectory

theorem locate_eq_ok_iff {p : Path} {k : Location} : t.locate p = .ok k ↔ (∀ s ∈ p.segments, hasNul s = false) ∧
    p.text ≠ "" ∧ p.byteLength ≤ maxPathLength ∧ t.walk (t.startOf p) p.segments = .ok k := by
  have hnul : p.segments.any hasNul = true ↔ ¬ ∀ s ∈ p.segments, hasNul s = false := by
    rw [List.any_eq_true]
    push Not
    simp only [ne_eq, Bool.not_eq_false]
  have herror : ∀ e : FileError, (Except.error e : Except FileError Location) ≠ .ok k := by
    intro e h
    cases h
  rw [locate, startOf]
  split
  · rename_i h
    exact iff_of_false (herror _) fun hc => hnul.1 h hc.1
  · rename_i h
    rw [hnul, not_not] at h
    split
    · rename_i htext
      exact iff_of_false (herror _) fun hc => hc.2.1 htext
    · rename_i htext
      split
      · rename_i hlong
        exact iff_of_false (herror _) fun hc => absurd hlong (Nat.not_lt.2 hc.2.2.1)
      · rename_i hshort
        exact ⟨fun hw => ⟨h, htext, Nat.not_lt.1 hshort, hw⟩, fun hc => hc.2.2.2⟩

theorem locate_of_keepsDirectories (h : KeepsDirectories t t') {p : Path} {k : Location}
    (hl : t.locate p = .ok k) : t'.locate p = .ok k := by
  obtain ⟨hnul, htext, hshort, hwalk⟩ := locate_eq_ok_iff.1 hl
  refine locate_eq_ok_iff.2 ⟨hnul, htext, hshort, ?_⟩
  rw [startOf, h.workingDirectory, ← startOf]
  exact walk_of_keepsDirectories h hwalk

theorem find_eq_ok_iff {p : Path} {k : Location} {node : Node} :
    t.find p = .ok (k, node) ↔ t.locate p = .ok k ∧ t.node? k = some node := by
  rw [find]
  cases t.locate p with
  | error e => simp
  | ok l =>
    dsimp only
    cases hn : t.node? l with
    | none =>
      simp only [reduceCtorEq, Except.ok.injEq, false_iff, not_and]
      rintro rfl
      simp [hn]
    | some n =>
      simp only [Except.ok.injEq, Prod.mk.injEq]
      constructor
      · rintro ⟨rfl, rfl⟩
        exact ⟨rfl, hn⟩
      · rintro ⟨rfl, h⟩
        exact ⟨rfl, Option.some.inj (hn.symm.trans h)⟩

theorem pathExists_iff {p : Path} :
    t.pathExists p = true ↔ ∃ k node, t.locate p = .ok k ∧ t.node? k = some node := by
  rw [pathExists]
  cases hf : t.find p with
  | error e =>
    simp only [Except.toOption, Option.isSome_none, Bool.false_eq_true, false_iff, not_exists]
    intro k node h
    rw [find_eq_ok_iff.2 h] at hf
    cases hf
  | ok r =>
    simp only [Except.toOption, Option.isSome_some, true_iff]
    exact ⟨r.1, r.2, find_eq_ok_iff.1 hf⟩

end Walks

section Absolute

variable {t : FileTree} {names : List String}

def Fits (names : List String) : Prop := (Path.absolute names).byteLength ≤ maxPathLength

instance (names : List String) : Decidable (Fits names) :=
  inferInstanceAs (Decidable (_ ≤ _))

theorem absolute_text_ne (names : List String) : (Path.absolute names).text ≠ "" := by
  have hslash : '/' ∈ (Path.absolute names).text.toList := by
    cases names with
    | nil => decide
    | cons name rest =>
      show '/' ∈ ("/".intercalate ("" :: name :: rest)).toList
      rw [String.toList_intercalate]
      simp [List.intercalate_cons_cons]
  intro he
  rw [he] at hslash
  cases hslash

theorem Fits.of_concat {name : String} (h : Fits (names ++ [name])) : Fits names := by
  refine Nat.le_trans ?_ h
  have htext : ∃ more, (Path.absolute (names ++ [name])).text = (Path.absolute names).text ++ more := by
    cases names with
    | nil => exact ⟨name, rfl⟩
    | cons first rest =>
      refine ⟨"/" ++ name, ?_⟩
      have he := String.intercalate_append_of_ne_nil (s := "/") (List.cons_ne_nil "" (first :: rest))
        (List.cons_ne_nil name [])
      rw [String.intercalate_singleton, String.append_assoc] at he
      exact he
  obtain ⟨more, he⟩ := htext
  rw [byteLength, byteLength, he, String.utf8ByteSize_append]
  exact Nat.le_add_right _ _

theorem Fits.of_append {more : List String} (h : Fits (names ++ more)) : Fits names := by
  induction more generalizing names with
  | nil => rwa [List.append_nil] at h
  | cons name rest ih =>
    rw [← List.singleton_append, ← List.append_assoc] at h
    exact (ih h).of_concat

theorem locate_absolute (hnames : ∀ name ∈ names, IsFileName name) :
    t.locate (.absolute names) = if Fits names then t.walk [] names else .error .nameTooLong := by
  have hnul : (Path.absolute names).segments.any hasNul = false := by
    rw [List.any_eq_false]
    intro s hs
    by_cases hn : names = []
    · subst hn
      rcases List.mem_cons.1 hs with rfl | hs
      · decide
      · rw [List.mem_singleton.1 hs]
        decide
    · rw [absolute_segments hn] at hs
      rcases List.mem_cons.1 hs with rfl | hs
      · decide
      · rw [(hnames s hs).noNul]
        exact Bool.false_ne_true
  rw [locate, hnul, if_neg Bool.false_ne_true, if_neg (absolute_text_ne names),
    isAbsolute_absolute, if_pos rfl]
  have hwalk : t.walk [] (Path.absolute names).segments = t.walk [] names := by
    have hidle : ∀ rest, t.walk [] ("" :: rest) = t.walk [] rest := by
      intro rest
      rw [walk_cons t.node?_nil, if_pos (by decide)]
    by_cases hn : names = []
    · subst hn
      exact (hidle [""]).trans (hidle [])
    · rw [absolute_segments hn, hidle]
  rw [hwalk]
  by_cases hfits : Fits names
  · rw [if_neg (Nat.not_lt.2 hfits), if_pos hfits]
  · rw [if_pos (Nat.lt_of_not_le hfits), if_neg hfits]

theorem locate_absolute_ok (hnames : ∀ name ∈ names, IsFileName name) {k : Location}
    (h : t.locate (.absolute names) = .ok k) : k = names ∧ Fits names := by
  rw [locate_absolute hnames] at h
  split at h
  · exact ⟨walk_names hnames h, by assumption⟩
  · cases h

theorem locate_concat_ok (hnames : ∀ name ∈ names, IsFileName name) {name : String}
    (hstep : isStep name = true) (hparent : name ≠ "..") (hslash : '/' ∉ name.toList) {k : Location}
    (h : t.locate (.absolute (names ++ [name])) = .ok k) :
    IsFileName name ∧ k = names ++ [name] ∧ Fits (names ++ [name]) := by
  have hne : names ++ [name] ≠ [] := List.append_ne_nil_of_right_ne_nil _ (List.cons_ne_nil _ _)
  obtain ⟨hnul, -, -, hwalk⟩ := locate_eq_ok_iff.1 h
  rw [absolute_segments hne, ← List.cons_append] at hnul hwalk
  -- The walk does not come past a name that is too long, so this one is a file name like the others.
  obtain ⟨l, -, hlast⟩ := (walk_append _ _).1 hwalk
  obtain ⟨-, hshort, -⟩ := (walk_step hstep hparent).1 hlast
  have hname : IsFileName name := ⟨hstep, hparent, hslash, hnul name (by simp), hshort⟩
  obtain ⟨hk, hfits⟩ := locate_absolute_ok (IsFileName.concat hnames hname) h
  exact ⟨hname, hk, hfits⟩

theorem find_absolute_iff (ht : t.WellFormed) (hnames : ∀ name ∈ names, IsFileName name)
    {k : Location} {node : Node} :
    t.find (.absolute names) = .ok (k, node) ↔ Fits names ∧ k = names ∧ t.node? names = some node := by
  rw [find_eq_ok_iff]
  constructor
  · rintro ⟨hl, hn⟩
    obtain ⟨rfl, hfits⟩ := locate_absolute_ok hnames hl
    exact ⟨hfits, rfl, hn⟩
  · rintro ⟨hfits, rfl, hn⟩
    rw [locate_absolute hnames, if_pos hfits]
    exact ⟨walk_names_ok ht (l := []) hn, hn⟩

theorem text_eq_ok_iff {p : Path} {s : String} :
    t.text p = .ok s ↔ ∃ k content, t.find p = .ok (k, .file content) ∧
      Text.ofBytes? content = some s := by
  rw [text, content]
  rcases t.find p with e | ⟨k, _ | c⟩
  · simp
  · simp
  · dsimp only
    cases hs : Text.ofBytes? c <;> simp [hs]

end Absolute

end ContractBuild.FileTree
