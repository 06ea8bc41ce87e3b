import ContractBuild.Proofs.FileTree

/-! What changes in a file tree. Making directories adds directories and nothing else; putting a file
in its place changes one location; and a well-formed tree stays well-formed. -/

namespace ContractBuild

namespace Path

theorem dropIdle_subset {reversed : List String} {s : String} (h : s ∈ dropIdle reversed) :
    s ∈ reversed := (List.dropWhile_suffix _).subset h

theorem Plain.of_segments {p q : Path} (hp : p.Plain)
    (h : ∀ s ∈ q.segments, s = "" ∨ s ∈ p.segments) : q.Plain := by
  intro s hs
  rcases h s hs with rfl | hs
  · exact List.not_mem_nil
  · exact hp s hs

theorem Plain.trimSlashes {p : Path} (hp : p.Plain) : p.trimSlashes.Plain := by
  refine hp.of_segments fun s hs => ?_
  rw [Path.trimSlashes] at hs
  split at hs
  · split at hs
    · left
      simpa using hs
    · exact Or.inr hs
  · rename_i kept
    have hmem := (List.dropWhile_suffix _).subset (List.mem_reverse.1 hs)
    exact Or.inr (List.mem_reverse.1 hmem)

theorem Plain.parent {p q : Path} (hp : p.Plain) (h : p.parent? = some q) : q.Plain := by
  refine hp.of_segments fun s hs => ?_
  rw [Path.parent?] at h
  split at h
  · cases h
  · rename_i last rest hlast
    split at h
    · cases h
      left
      split at hs
      · simpa using hs
      · simpa using hs
    · cases h
      have hrest := dropIdle_subset (List.mem_reverse.1 hs)
      have hall := dropIdle_subset (hlast ▸ List.mem_cons_of_mem last hrest)
      exact Or.inr (List.mem_reverse.1 hall)

section Absolute

variable {names : List String}

theorem dropIdle_cons {name : String} (h : IsFileName name) (rest : List String) :
    dropIdle (name :: rest) = name :: rest := by
  rw [dropIdle, List.dropWhile_cons, h.isStep]
  rfl

theorem parent?_absolute (h : ∀ n ∈ names, IsFileName n) (hne : names ≠ []) :
    (absolute names).parent? = some (absolute names.dropLast) := by
  have hlast := h _ (List.getLast_mem hne)
  have hreverse : (absolute names).segments.reverse =
      names.getLast hne :: (names.dropLast.reverse ++ [""]) := by
    rw [absolute_segments hne, List.reverse_cons]
    conv_lhs => rw [← List.dropLast_concat_getLast hne]
    rw [List.reverse_append, List.reverse_singleton]
    rfl
  rw [parent?, hreverse, dropIdle_cons hlast, isAbsolute_absolute]
  dsimp only
  rcases List.eq_nil_or_concat names.dropLast with hnil | ⟨init, last, hinit⟩
  · rw [hnil]
    rfl
  · have hmem : last ∈ names.dropLast := by
      rw [hinit]
      simp
    rw [hinit, List.concat_eq_append, List.reverse_append, List.reverse_singleton,
      List.singleton_append, List.cons_append, dropIdle_cons (h _ (List.dropLast_subset _ hmem))]
    simp [absolute]

theorem trimSlashes_absolute (h : ∀ n ∈ names, IsFileName n) :
    (absolute names).trimSlashes = absolute names := by
  rcases List.eq_nil_or_concat names with rfl | ⟨init, last, rfl⟩
  · rfl
  · have hne : init.concat last ≠ [] := by simp
    have hlast : (last == "") = false :=
      beq_false_of_ne (h last (by simp)).ne_empty
    rw [trimSlashes, absolute_segments hne, List.concat_eq_append, List.reverse_cons,
      List.reverse_append, List.reverse_singleton, List.singleton_append, List.cons_append,
      List.dropWhile_cons, hlast]
    simp [absolute]

end Absolute

end Path

namespace FileTree

open ContractBuild.Path

theorem ancestors_absolute (steps : Nat) {names : List String} (h : ∀ n ∈ names, IsFileName n) :
    ∀ q ∈ ancestors steps (.absolute names), ∃ above, above <+: names ∧ q = .absolute above := by
  induction steps generalizing names with
  | zero =>
    intro q hq
    exact ⟨names, List.prefix_rfl, List.mem_singleton.1 hq⟩
  | succ steps ih =>
    intro q hq
    rw [ancestors] at hq
    by_cases hne : names = []
    · subst hne
      exact ⟨[], List.prefix_rfl, List.mem_singleton.1 hq⟩
    · rw [parent?_absolute h hne] at hq
      rcases List.mem_cons.1 hq with rfl | hq
      · exact ⟨names, List.prefix_rfl, rfl⟩
      · obtain ⟨above, habove, rfl⟩ := ih (fun n hn => h n (List.dropLast_subset _ hn)) q hq
        exact ⟨above, habove.trans (List.dropLast_prefix names), rfl⟩

theorem plain_ancestors (steps : Nat) {p : Path} (hp : p.Plain) :
    ∀ q ∈ ancestors steps p, q.Plain := by
  induction steps generalizing p with
  | zero =>
    intro q hq
    rw [List.mem_singleton.1 hq]
    exact hp
  | succ steps ih =>
    intro q hq
    rw [ancestors] at hq
    split at hq
    · rw [List.mem_singleton.1 hq]
      exact hp
    · rename_i parent hparent
      rcases List.mem_cons.1 hq with rfl | hq
      · exact hp
      · exact ih (hp.parent hparent) q hq

def Lands (t : FileTree) (k : Location) : Prop :=
  t.node? k = some .directory ∨
    ∃ l name, k = l ++ [name] ∧ t.node? l = some .directory ∧ IsFileName name

section Landing

variable {t : FileTree}

theorem walk_lands (ht : t.WellFormed) {segments : List String}
    (hplain : ∀ s ∈ segments, '/' ∉ s.toList) (hnul : ∀ s ∈ segments, hasNul s = false)
    {l k : Location} (hl : Lands t l) (h : t.walk l segments = .ok k) : Lands t k := by
  induction segments generalizing l with
  | nil =>
    rw [walk_nil] at h
    cases h
    exact hl
  | cons segment rest ih =>
    obtain ⟨hd, l', hgoes, hrest⟩ := walk_cons_eq_ok_iff.1 h
    refine ih (fun s hs => hplain s (List.mem_cons_of_mem segment hs))
      (fun s hs => hnul s (List.mem_cons_of_mem segment hs)) ?_ hrest
    cases hgoes with
    | idle => exact hl
    | up => exact Or.inl (ht.parent hd)
    | down hstep hparent hshort =>
      have hname : IsFileName segment := ⟨hstep, hparent, hplain segment List.mem_cons_self,
        hnul segment List.mem_cons_self, hshort⟩
      exact Or.inr ⟨l, segment, rfl, hd, hname⟩

theorem locate_lands (ht : t.WellFormed) {p : Path} (hp : p.Plain) {k : Location}
    (h : t.locate p = .ok k) : Lands t k := by
  obtain ⟨hnul, -, -, hwalk⟩ := locate_eq_ok_iff.1 h
  refine walk_lands ht hp hnul (Or.inl ?_) hwalk
  rw [startOf]
  split
  · exact t.node?_nil
  · exact ht.working

theorem KeepsDirectories.of_ne {t' : FileTree} {k : Location}
    (hworking : t'.workingDirectory = t.workingDirectory) (hk : t.node? k ≠ some .directory)
    (hsame : ∀ j ≠ k, t'.node? j = t.node? j) : KeepsDirectories t t' := by
  refine ⟨hworking, fun j hj => ?_⟩
  have hne : j ≠ k := by
    rintro rfl
    exact hk hj
  rw [hsame j hne, hj]

theorem WellFormed.of_keepsDirectories {t' : FileTree} (ht : t.WellFormed)
    (h : KeepsDirectories t t')
    (hnodes : ∀ k node, (k, node) ∈ t'.nodes → (∃ old, (k, old) ∈ t.nodes) ∨
      ∃ l name, k = l ++ [name] ∧ t.node? l = some .directory ∧ IsFileName name) :
    t'.WellFormed := by
  refine ⟨?_, ?_, ?_⟩
  · rintro ⟨k, node⟩ he n hn
    rcases hnodes k node he with ⟨old, hold⟩ | ⟨l, name, rfl, hl, hname⟩
    · exact ht.named _ hold n hn
    · rcases List.mem_append.1 hn with hn | hn
      · exact ht.names hl n hn
      · rw [List.mem_singleton.1 hn]
        exact hname
  · rintro ⟨k, node⟩ he
    rcases hnodes k node he with ⟨old, hold⟩ | ⟨l, name, rfl, hl, hname⟩
    · obtain ⟨hne, hparent⟩ := ht.rooted _ hold
      exact ⟨hne, h.directory _ hparent⟩
    · refine ⟨List.append_ne_nil_of_right_ne_nil _ (List.cons_ne_nil _ _), ?_⟩
      rw [List.dropLast_concat]
      exact h.directory l hl
  · rw [h.workingDirectory]
    exact h.directory _ ht.working

theorem WellFormed.insert (ht : t.WellFormed) {k : Location} (hk : Lands t k)
    (hfree : t.node? k = none) (node : Node) : (t.insert k node).WellFormed := by
  have hplace : t.node? k ≠ some .directory := by
    rw [hfree]
    exact nofun
  have hkept : KeepsDirectories t (t.insert k node) := by
    refine .of_ne rfl hplace fun j hj => ?_
    rw [node?_insert node hfree, if_neg hj]
  refine ht.of_keepsDirectories hkept fun j n he => ?_
  rcases mem_nodes_insert.1 he with he | he
  · cases he
    exact Or.inr (hk.resolve_left hplace)
  · exact Or.inl ⟨n, he⟩

theorem node?_removeAt {k : Location} (hk : t.node? k ≠ some .directory) (j : Location) :
    (t.remove (· == k)).node? j = if j = k then none else t.node? j := by
  rw [node?_remove]
  by_cases h : j = k
  · have hne : j ≠ [] := by
      rintro rfl
      exact hk (h ▸ t.node?_nil)
    rw [if_pos ⟨hne, beq_iff_eq.2 h⟩, if_pos h]
  · rw [if_neg (fun hj => h (beq_iff_eq.1 hj.2)), if_neg h]

theorem keepsDirectories_removeAt {k : Location} (hk : t.node? k ≠ some .directory) :
    KeepsDirectories t (t.remove (· == k)) := by
  refine .of_ne rfl hk fun j hj => ?_
  rw [node?_removeAt hk, if_neg hj]

theorem WellFormed.removeAt (ht : t.WellFormed) {k : Location}
    (hk : t.node? k ≠ some .directory) : (t.remove (· == k)).WellFormed :=
  ht.of_keepsDirectories (keepsDirectories_removeAt hk) fun _ n he =>
    Or.inl ⟨n, List.mem_of_mem_filter he⟩

theorem WellFormed.removeBelow (ht : t.WellFormed) {l : Location}
    (hworking : ¬ l <+: t.workingDirectory) :
    (t.remove fun k => l.isPrefixOf k).WellFormed := by
  have hkept : ∀ j node, ¬ l <+: j → t.node? j = some node →
      (t.remove fun k => l.isPrefixOf k).node? j = some node := by
    intro j node hj hnode
    rw [node?_remove, if_neg, hnode]
    exact fun h => hj (List.isPrefixOf_iff_prefix.1 h.2)
  refine ⟨?_, ?_, hkept _ _ hworking ht.working⟩
  · intro e he
    exact ht.named e (List.mem_of_mem_filter he)
  · intro e he
    obtain ⟨hmem, hout⟩ := List.mem_filter.1 he
    have hnot : ¬ l <+: e.1 := by
      intro hprefix
      dsimp only at hout
      rw [List.isPrefixOf_iff_prefix.2 hprefix] at hout
      cases hout
    obtain ⟨hne, hparent⟩ := ht.rooted e hmem
    refine ⟨hne, hkept _ _ (fun hprefix => hnot ?_) hparent⟩
    exact hprefix.trans (List.dropLast_prefix e.1)

end Landing

structure Extends (t t' : FileTree) : Prop where
  workingDirectory : t'.workingDirectory = t.workingDirectory
  kept : ∀ k node, t.node? k = some node → t'.node? k = some node
  added : ∀ k content, t'.node? k = some (.file content) → t.node? k = some (.file content)
  wellFormed : t'.WellFormed

namespace Extends

variable {t t' t'' : FileTree}

theorem refl (ht : t.WellFormed) : Extends t t := ⟨rfl, fun _ _ h => h, fun _ _ h => h, ht⟩

theorem trans (h : Extends t t') (h' : Extends t' t'') : Extends t t'' :=
  ⟨h'.workingDirectory.trans h.workingDirectory, fun k node hk => h'.kept k node (h.kept k node hk),
    fun k content hk => h.added k content (h'.added k content hk), h'.wellFormed⟩

theorem keepsDirectories (h : Extends t t') : KeepsDirectories t t' :=
  ⟨h.workingDirectory, fun k hk => h.kept k _ hk⟩

theorem node?_file_iff (h : Extends t t') {k : Location} {content : List UInt8} :
    t'.node? k = some (.file content) ↔ t.node? k = some (.file content) :=
  ⟨h.added k content, h.kept k _⟩

end Extends

section Making

theorem makeDirectory_extends {t t' : FileTree} (ht : t.WellFormed) {p : Path} (hp : p.Plain)
    (h : t.makeDirectory p = .ok t') : Extends t t' := by
  rw [makeDirectory] at h
  split at h
  · cases h
  · rename_i k hlocate
    split at h
    · cases h
    · rename_i hfree
      cases h
      have hnode := node?_insert .directory hfree
      refine ⟨rfl, ?_, ?_, ht.insert (locate_lands ht hp.trimSlashes hlocate) hfree _⟩
      · intro j node hj
        rw [hnode, if_neg, hj]
        rintro rfl
        rw [hfree] at hj
        cases hj
      · intro j content hj
        rw [hnode] at hj
        split at hj
        · cases hj
        · exact hj

theorem makeAll_induction {P : FileTree → Prop} {paths : List Path}
    (hstep : ∀ t t' p, p ∈ paths → P t → t.makeDirectory p = .ok t' → P t') {t : FileTree}
    (h : P t) : P (t.makeAll paths).2 := by
  induction paths with
  | nil => exact h
  | cons p parents ih =>
    have ih' := ih fun t t' q hq => hstep t t' q (List.mem_cons_of_mem p hq)
    have hp := fun t t' => hstep t t' p List.mem_cons_self
    cases hmade : t.makeDirectory p with
    | ok t' =>
      unfold makeAll
      rw [hmade]
      exact hp t t' h hmade
    | error e =>
      -- Only where a parent is missing are the parents made, and the directory tried again.
      by_cases he : e = .notFound
      · subst he
        cases parents with
        | nil =>
          unfold makeAll
          rw [hmade]
          exact h
        | cons q more =>
          unfold makeAll
          rw [hmade]
          dsimp only
          rcases hparents : t.makeAll (q :: more) with ⟨_ | _, t'⟩
          · rw [hparents] at ih'
            exact ih'
          · rw [hparents] at ih'
            dsimp only at ih' ⊢
            cases hlast : t'.makeDirectory p with
            | ok t'' => exact hp t' t'' ih' hlast
            | error e => exact ih'
      · unfold makeAll
        rw [hmade]
        cases e <;> first | exact absurd rfl he | exact h

theorem makeAll_extends {t : FileTree} (ht : t.WellFormed) {paths : List Path}
    (hpaths : ∀ p ∈ paths, p.Plain) : Extends t (t.makeAll paths).2 :=
  makeAll_induction (fun _ _ p hp h hmade =>
    h.trans (makeDirectory_extends h.wellFormed (hpaths p hp) hmade)) (.refl ht)

theorem makeDirectories_extends {t : FileTree} (ht : t.WellFormed) {p : Path} (hp : p.Plain) :
    Extends t (t.makeDirectories p).2 := makeAll_extends ht (plain_ancestors _ hp)

theorem node?_makeDirectories {t : FileTree} {names : List String}
    (hnames : ∀ n ∈ names, IsFileName n) {k : Location} (hk : ¬ k <+: names) :
    (t.makeDirectories (.absolute names)).2.node? k = t.node? k := by
  refine makeAll_induction (P := fun t' => t'.node? k = t.node? k) ?_ rfl
  intro t₁ t₂ p hp h hmade
  obtain ⟨above, habove, rfl⟩ := ancestors_absolute _ hnames p hp
  have hall : ∀ n ∈ above, IsFileName n := fun n hn => hnames n (habove.subset hn)
  rw [makeDirectory, trimSlashes_absolute hall] at hmade
  split at hmade
  · cases hmade
  · rename_i l hlocate
    obtain ⟨rfl, -⟩ := locate_absolute_ok hall hlocate
    split at hmade
    · cases hmade
    · rename_i hfree
      cases hmade
      have hne : k ≠ l := by
        rintro rfl
        exact hk habove
      rw [node?_insert _ hfree, if_neg hne, h]

theorem makeDirectories_of_directory {t : FileTree} (ht : t.WellFormed) {names : List String}
    (hnames : ∀ n ∈ names, IsFileName n) (hd : t.node? names = some .directory) :
    (t.makeDirectories (.absolute names)).2 = t := by
  obtain ⟨e, hmade, he⟩ : ∃ e, t.makeDirectory (.absolute names) = .error e ∧ e ≠ .notFound := by
    rw [makeDirectory, trimSlashes_absolute hnames, locate_absolute hnames]
    by_cases hfits : Fits names
    · rw [if_pos hfits, walk_names_ok ht (l := []) hd]
      dsimp only [List.nil_append]
      rw [hd]
      exact ⟨_, rfl, nofun⟩
    · rw [if_neg hfits]
      exact ⟨_, rfl, nofun⟩
  obtain ⟨parents, hpaths⟩ : ∃ parents,
      ancestors (Path.absolute names).segments.length (.absolute names) =
        .absolute names :: parents := by
    cases (Path.absolute names).segments.length with
    | zero => exact ⟨[], rfl⟩
    | succ steps =>
      rw [ancestors]
      split
      · exact ⟨[], rfl⟩
      · exact ⟨_, rfl⟩
  rw [makeDirectories, hpaths]
  unfold makeAll
  rw [hmade]
  cases e <;> first | exact absurd rfl he | rfl

end Making

section Replacing

variable {t t' : FileTree} {p : Path} {content : List UInt8}

/-- A file is in the place that a path leads to once some directories have come; all else is as it
was then. -/
structure Replaced (t : FileTree) (p : Path) (content : List UInt8) (before : FileTree)
    (place : Location) (t' : FileTree) : Prop where
  before_eq : before = (t.makeDirectories (p.parent?.getD ⟨["."]⟩)).2
  before_extends : Extends t before
  locate_place : before.locate p = .ok place
  place_ne : before.node? place ≠ some .directory
  wellFormed : t'.WellFormed
  workingDirectory : t'.workingDirectory = t.workingDirectory
  node?_eq : ∀ j, t'.node? j = if j = place then some (.file content) else before.node? j

theorem replaceFile_ok (h : t.replaceFile p content = .ok t') :
    ∃ k, t.locate p = .ok k ∧ t.node? k ≠ some .directory ∧
      t' = (t.remove (· == k)).insert k (.file content) := by
  rw [replaceFile] at h
  split at h
  · cases h
  · cases h
  · rename_i k hlocate
    split at h
    · cases h
    · rename_i hne
      cases h
      exact ⟨k, hlocate, hne, rfl⟩

theorem afterParents_plain (hp : p.Plain) : (p.parent?.getD ⟨["."]⟩).Plain := by
  cases h : p.parent? with
  | none =>
    intro s hs
    rw [List.mem_singleton.1 hs]
    decide
  | some q => exact hp.parent h

theorem replaceInto_ok (ht : t.WellFormed) (hp : p.Plain)
    (h : t.replaceInto p content = (.ok (), t')) :
    ∃ before place, Replaced t p content before place t' := by
  rw [replaceInto, afterParents] at h
  have hext := makeDirectories_extends ht (afterParents_plain hp)
  split at h
  · cases h
  · rename_i t₁ hmade
    rw [hmade] at hext
    split at h
    · cases h
    · rename_i t₂ hreplaced
      cases h
      -- What was in the place goes first, so the new file goes where nothing is.
      obtain ⟨k, hlocate, hne, rfl⟩ := replaceFile_ok hreplaced
      have hgone := node?_removeAt hne
      have hfree : (t₁.remove (· == k)).node? k = none := by rw [hgone, if_pos rfl]
      have hnode : ∀ j, ((t₁.remove (· == k)).insert k (.file content)).node? j =
          if j = k then some (.file content) else t₁.node? j := by
        intro j
        rw [node?_insert _ hfree, hgone]
        by_cases hj : j = k
        · rw [if_pos hj, if_pos hj]
        · rw [if_neg hj, if_neg hj, if_neg hj]
      have hlands : Lands (t₁.remove (· == k)) k := by
        rcases locate_lands hext.wellFormed hp hlocate with hd | ⟨l, name, rfl, hl, hname⟩
        · exact absurd hd hne
        · refine Or.inr ⟨l, name, rfl, ?_, hname⟩
          rw [hgone, if_neg, hl]
          intro he
          exact hne (he ▸ hl)
      exact ⟨t₁, k, by rw [hmade], hext, hlocate, hne, (hext.wellFormed.removeAt hne).insert hlands hfree _,
        hext.workingDirectory, hnode⟩

theorem replaceInto_error (ht : t.WellFormed) (hp : p.Plain) {e : FileError}
    (h : t.replaceInto p content = (.error e, t')) : Extends t t' := by
  rw [replaceInto, afterParents] at h
  have hext := makeDirectories_extends ht (afterParents_plain hp)
  split at h
  · rename_i hmade
    rw [hmade] at hext
    cases h
    exact hext
  · rename_i hmade
    rw [hmade] at hext
    split at h
    · cases h
      exact hext
    · cases h

namespace Replaced

variable {before : FileTree} {place : Location}

theorem keepsDirectories_before (r : Replaced t p content before place t') :
    KeepsDirectories before t' := by
  refine .of_ne (r.workingDirectory.trans r.before_extends.workingDirectory.symm) r.place_ne
    fun j hj => ?_
  rw [r.node?_eq, if_neg hj]

theorem keepsDirectories (r : Replaced t p content before place t') : KeepsDirectories t t' :=
  ⟨r.workingDirectory, fun k hk =>
    r.keepsDirectories_before.directory k (r.before_extends.kept k _ hk)⟩

theorem kept (r : Replaced t p content before place t') {k : Location} {node : Node}
    (hk : t.node? k = some node) : ∃ n, t'.node? k = some n := by
  rw [r.node?_eq]
  split
  · exact ⟨_, rfl⟩
  · exact ⟨node, r.before_extends.kept k node hk⟩

theorem node?_eq_of_not_prefix {l : Location} {name : String} (hl : ∀ n ∈ l, IsFileName n)
    (hname : IsFileName name)
    (r : Replaced t (.absolute (l ++ [name])) content before place t') {k : Location}
    (hk : ¬ k <+: l ++ [name]) : t'.node? k = t.node? k := by
  have hnames := IsFileName.concat hl hname
  have hparent : (Path.absolute (l ++ [name])).parent? = some (.absolute l) := by
    rw [parent?_absolute hnames (List.append_ne_nil_of_right_ne_nil _ (List.cons_ne_nil _ _)),
      List.dropLast_concat]
  have hplace : k ≠ place := by
    intro he
    rw [he, (locate_absolute_ok hnames r.locate_place).1] at hk
    exact hk List.prefix_rfl
  have hbefore : before.node? k = t.node? k := by
    rw [r.before_eq, hparent]
    exact node?_makeDirectories hl fun h => hk (h.trans (List.prefix_append l [name]))
  rw [r.node?_eq, if_neg hplace, hbefore]

end Replaced

end Replacing

section Writing

theorem map_fst_setNode (l : Location) (node : Node) (nodes : List (Location × Node)) :
    (setNode l node nodes).map (·.1) = nodes.map (·.1) := by
  induction nodes with
  | nil => rfl
  | cons e rest ih =>
    obtain ⟨k, n⟩ := e
    rw [setNode]
    split
    · rename_i h
      rw [List.map_cons, List.map_cons, h]
    · rw [List.map_cons, List.map_cons, ih]

theorem lookup_setNode {l : Location} {old : Node} (node : Node) {nodes : List (Location × Node)}
    (h : nodes.lookup l = some old) (j : Location) :
    (setNode l node nodes).lookup j = if j = l then some node else nodes.lookup j := by
  induction nodes with
  | nil => cases h
  | cons e rest ih =>
    obtain ⟨k, n⟩ := e
    rw [NameMap.lookup_cons_ite] at h ⊢
    rw [setNode]
    split
    · rename_i hk
      rw [NameMap.lookup_cons_ite, hk]
      split
      · rfl
      · rfl
    · rename_i hk
      rw [if_neg (Ne.symm hk)] at h
      rw [NameMap.lookup_cons_ite, ih h]
      by_cases hj : j = k
      · rw [if_pos hj, if_neg (hj ▸ hk), if_pos hj]
      · rw [if_neg hj, if_neg hj]

variable {t t' : FileTree} {p : Path} {content : List UInt8}

section Setting

variable {k : Location} {old : List UInt8}

theorem node?_setNode (hold : t.node? k = some (.file old)) (node : Node) (j : Location) :
    FileTree.node? { t with nodes := setNode k node t.nodes } j =
      if j = k then some node else t.node? j := by
  have hk : k ≠ [] := by
    rintro rfl
    rw [node?_nil] at hold
    cases hold
  by_cases hj : j = []
  · rw [hj, node?_nil, node?_nil, if_neg hk.symm]
  · rw [node?_of_ne hj, node?_of_ne hj]
    rw [node?_of_ne hk] at hold
    exact lookup_setNode _ hold j

theorem WellFormed.setNode (ht : t.WellFormed) (hold : t.node? k = some (.file old)) (node : Node) :
    FileTree.WellFormed { t with nodes := setNode k node t.nodes } := by
  have hplace : t.node? k ≠ some .directory := by
    rw [hold]
    exact fun h => nomatch h
  have hkept : KeepsDirectories t { t with nodes := FileTree.setNode k node t.nodes } := by
    refine .of_ne rfl hplace fun j hj => ?_
    rw [node?_setNode hold, if_neg hj]
  refine ht.of_keepsDirectories hkept fun j n he => Or.inl ?_
  have hmem := List.mem_map_of_mem (f := (·.1)) he
  rw [map_fst_setNode] at hmem
  obtain ⟨⟨_, n'⟩, hbefore, rfl⟩ := List.mem_map.1 hmem
  exact ⟨n', hbefore⟩

end Setting

theorem writeFile_ok (ht : t.WellFormed) (hp : p.Plain) (h : t.writeFile p content = .ok t') :
    t'.WellFormed ∧ ∃ k, t.locate p = .ok k ∧ t.node? k ≠ some .directory ∧
      ∀ j, t'.node? j = if j = k then some (.file content) else t.node? j := by
  rw [writeFile] at h
  split at h
  · cases h
  · rename_i k hlocate
    split at h
    · cases h
    · rename_i old hold
      cases h
      refine ⟨ht.setNode hold _, k, hlocate, ?_, node?_setNode hold _⟩
      rw [hold]
      exact fun h => nomatch h
    · rename_i hfree
      cases h
      have hlands : Lands t k := locate_lands ht hp hlocate
      refine ⟨ht.insert hlands hfree _, k, hlocate, ?_, node?_insert _ hfree⟩
      rw [hfree]
      exact fun h => nomatch h

end Writing

theorem removeAll_sameFiles {t : FileTree} {p : Path} {l : Location} {node : Node}
    (h : t.find p = .ok (l, node))
    (hempty : (t.nodes.all fun e => !l.isPrefixOf e.1 || e.2 == .directory) = true) :
    ∀ k content, (t.removeAll p).2.node? k = some (.file content) ↔
      t.node? k = some (.file content) := by
  intro k content
  rw [removeAll, h]
  dsimp only
  rw [node?_remove]
  split
  · rename_i hgone
    refine iff_of_false (fun hnone => nomatch hnone) fun hfile => ?_
    have hmem := List.all_eq_true.1 hempty _ (mem_nodes_of_node? hgone.1 hfile)
    rw [hgone.2] at hmem
    revert hmem
    simp
  · rfl

theorem pathExists_of_kept {t t' : FileTree} (hdirs : KeepsDirectories t t')
    (hkept : ∀ k node, t.node? k = some node → ∃ n, t'.node? k = some n) {p : Path}
    (h : t.pathExists p = true) : t'.pathExists p = true := by
  obtain ⟨k, node, hlocate, hnode⟩ := pathExists_iff.1 h
  obtain ⟨n, hn⟩ := hkept k node hnode
  exact pathExists_iff.2 ⟨k, n, locate_of_keepsDirectories hdirs hlocate, hn⟩

end FileTree
end ContractBuild
