import ContractBuild.Proofs.Entries
import ContractBuild.Proofs.SourceIndex
import ContractBuild.Source.Scan
import Mathlib.Data.List.Induction

/-! What a scan finds. The path of a source is put together from the names on the way to it, and they
are read off the path again, so that every source has one path. Nothing outside of the source
directory has a say in a scan. -/

namespace ContractBuild.SourceSet

open FileTree ContractBuild.Path

def sourcesAt (root : Location) : Location := root ++ [directory]

structure IsSource (below : List String) : Prop where
  visible : ∀ n ∈ below, isInternal n = false
  hasExtension : below.getLast?.bind extensionOf? = some fileExtension

instance (below : List String) : Decidable (IsSource below) :=
  decidable_of_iff (_ ∧ _) ⟨fun ⟨a, b⟩ => ⟨a, b⟩, fun ⟨a, b⟩ => ⟨a, b⟩⟩

theorem IsSource.ne_nil {below : List String} (h : IsSource below) : below ≠ [] := by
  rintro rfl
  cases h.hasExtension

section Keys

variable {root : Location} {below below' : List String}

theorem isFileName_directory : IsFileName directory := by decide

theorem isFileName_sourcesAt (hroot : ∀ n ∈ root, IsFileName n) : ∀ n ∈ sourcesAt root, IsFileName n :=
  IsFileName.concat hroot isFileName_directory

theorem joinText_directory (hroot : ∀ n ∈ root, IsFileName n) :
    (Path.absolute root).joinText directory = .absolute (sourcesAt root) :=
  absolute_joinText hroot isFileName_directory.noSlash

theorem ofText_keyOf (h : ∀ n ∈ below, IsFileName n) : ofText (keyOf below) = ⟨directory :: below⟩ := by
  have hslash : ∀ n ∈ directory :: below, '/' ∉ n.toList := by
    intro n hn
    rcases List.mem_cons.1 hn with rfl | hn
    · exact isFileName_directory.noSlash
    · exact (h n hn).noSlash
  rw [ofText, keyOf]
  exact congrArg Path.mk (Text.splitOn_intercalate (List.cons_ne_nil directory below) hslash)

theorem keyOf_nil : keyOf [] = directory := String.intercalate_singleton

theorem isAbsolute_key (below : List String) : (⟨directory :: below⟩ : Path).isAbsolute = false := by
  have hhead : (directory == "") = false := beq_false_of_ne isFileName_directory.ne_empty
  simp [isAbsolute, hhead]

theorem joinText_keyOf (hroot : ∀ n ∈ root, IsFileName n) (h : ∀ n ∈ below, IsFileName n) :
    (Path.absolute root).joinText (keyOf below) = .absolute (sourcesAt root ++ below) := by
  rw [joinText, ofText_keyOf h, absolute_join hroot (isAbsolute_key below) (List.cons_ne_nil _ _),
    sourcesAt, List.append_assoc, List.singleton_append]

theorem joinText_keyOf_eq (p : Path) (h : ∀ n ∈ below, IsFileName n) :
    p.joinText (keyOf below) = ⟨p.leading ++ directory :: below⟩ := by
  rw [joinText, ofText_keyOf h, join, isAbsolute_key, if_neg Bool.false_ne_true, leading]
  split
  · rfl
  · rfl

theorem joinText_keyOf_concat (p : Path) (h : ∀ n ∈ below, IsFileName n) {name : String}
    (hname : IsFileName name) :
    p.joinText (keyOf (below ++ [name])) = (p.joinText (keyOf below)).joinText name := by
  have hlast : (p.leading ++ directory :: below).getLast? ≠ some "" := by
    rw [List.getLast?_append_of_ne_nil _ (List.cons_ne_nil _ _)]
    intro hempty
    have hempty := List.mem_of_getLast? hempty
    exact (IsFileName.ne_empty ((List.forall_mem_cons.2 ⟨isFileName_directory, h⟩) "" hempty)) rfl
  rw [joinText_keyOf_eq p (IsFileName.concat h hname), joinText_eq hname.noSlash,
    joinText_keyOf_eq p h, leading_of_getLast?_ne hlast, List.append_assoc, List.cons_append]

theorem slash_mem_keyOf (h : below ≠ []) : '/' ∈ (keyOf below).toList := by
  obtain ⟨n, rest, rfl⟩ := List.exists_cons_of_ne_nil h
  rw [keyOf, String.intercalate_cons_cons, String.toList_append, String.toList_append]
  exact List.mem_append_left _ (List.mem_append_right _ (by decide))

end Keys

section Found

variable {root : Path} {t : FileTree} {l k : Location} {below : List String} {node : Node}

def Takes (root : Path) (below : List String) : Prop :=
  (root.joinText (keyOf below)).byteLength ≤ maxPathLength

instance (root : Path) (below : List String) : Decidable (Takes root below) :=
  inferInstanceAs (Decidable (_ ≤ _))

theorem text_joinText_keyOf_ne (hd : t.find (root.joinText directory) = .ok (l, node))
    (h : ∀ n ∈ below, IsFileName n) : (root.joinText (keyOf below)).text ≠ "" := by
  induction below using List.reverseRecOn with
  | nil =>
    rw [keyOf_nil]
    exact text_ne_of_find hd
  | append_singleton below name ih =>
    obtain ⟨hbelow, hname⟩ := List.forall_mem_append.1 h
    rw [List.forall_mem_singleton] at hname
    obtain ⟨more, htext⟩ := text_joinText (ih hbelow) hname.noSlash
    rw [joinText_keyOf_concat root hbelow hname, htext]
    intro hempty
    exact hname.ne_empty (String.append_eq_empty_iff.1 hempty).2

theorem Takes.of_concat (hd : t.find (root.joinText directory) = .ok (l, node))
    (hbelow : ∀ n ∈ below, IsFileName n) {name : String} (hname : IsFileName name)
    (h : Takes root (below ++ [name])) : Takes root below := by
  rw [Takes, joinText_keyOf_concat root hbelow hname] at h
  exact Nat.le_trans (byteLength_le_joinText (text_joinText_keyOf_ne hd hbelow) hname.noSlash) h

theorem Takes.of_append {more : List String} (hd : t.find (root.joinText directory) = .ok (l, node))
    (hnames : ∀ n ∈ below ++ more, IsFileName n) (h : Takes root (below ++ more)) :
    Takes root below := by
  induction more using List.reverseRecOn with
  | nil => rwa [List.append_nil] at h
  | append_singleton more name ih =>
    rw [← List.append_assoc] at h hnames
    obtain ⟨hfront, hname⟩ := List.forall_mem_append.1 hnames
    exact ih hfront (h.of_concat hd hfront (List.forall_mem_singleton.1 hname))

theorem find_keyOf_iff (ht : t.WellFormed) (hd : t.find (root.joinText directory) = .ok (l, .directory))
    (h : ∀ n ∈ below, IsFileName n) : t.find (root.joinText (keyOf below)) = .ok (k, node) ↔
      Takes root below ∧ k = l ++ below ∧ t.node? (l ++ below) = some node := by
  induction below using List.reverseRecOn generalizing k node with
  | nil =>
    obtain ⟨hlocate, hnode⟩ := find_eq_ok_iff.1 hd
    have htakes : Takes root [] := by
      rw [Takes, keyOf_nil]
      exact (locate_eq_ok_iff.1 hlocate).2.2.1
    rw [keyOf_nil, List.append_nil, hd, hnode, and_iff_right htakes]
    simp only [Except.ok.injEq, Prod.mk.injEq, Option.some.injEq, @eq_comm _ l]
  | append_singleton below name ih =>
    obtain ⟨hbelow, hname⟩ := List.forall_mem_append.1 h
    rw [List.forall_mem_singleton] at hname
    have hconcat := joinText_keyOf_concat root hbelow hname
    have htext := text_joinText_keyOf_ne hd hbelow
    by_cases hparent : t.find (root.joinText (keyOf below)) = .ok (l ++ below, .directory)
    · rw [Takes, hconcat, find_joinText_iff hparent hname, List.append_assoc, Nameable]
    · rw [hconcat]
      constructor
      · intro hfind
        obtain ⟨-, -, j, hj, -⟩ := (locate_joinText_iff htext hname.isStep hname.ne_parent
          hname.noSlash).1 (find_eq_ok_iff.1 hfind).1
        obtain ⟨-, rfl, -⟩ := (ih hbelow).1 hj
        exact absurd hj hparent
      · rintro ⟨htakes, -, hnode⟩
        rw [← List.append_assoc] at hnode
        have hdirectory := ht.directory_above hnode (List.cons_ne_nil _ _)
        exact absurd ((ih hbelow).2 ⟨htakes.of_concat hd hbelow hname, rfl, hdirectory⟩) hparent

theorem isDirectory_iff {p : Path} :
    t.isDirectory p = true ↔ ∃ k, t.find p = .ok (k, .directory) := by
  rw [isDirectory]
  split
  · rename_i k hk
    exact iff_of_true rfl ⟨k, hk⟩
  · rename_i hne
    exact iff_of_false Bool.false_ne_true fun ⟨k, hk⟩ => hne k hk

theorem isDirectory_keyOf_iff (ht : t.WellFormed)
    (hd : t.find (root.joinText directory) = .ok (l, .directory)) (h : ∀ n ∈ below, IsFileName n) :
    t.isDirectory (root.joinText (keyOf below)) = true ↔
      Takes root below ∧ t.node? (l ++ below) = some .directory := by
  rw [isDirectory_iff]
  simp only [find_keyOf_iff ht hd h]
  exact ⟨fun ⟨_, htakes, _, hnode⟩ => ⟨htakes, hnode⟩, fun ⟨htakes, hnode⟩ => ⟨_, htakes, rfl, hnode⟩⟩

/-- What a scan reads, or fails to read. -/
structure Listed (root : Path) (l : Location) (t : FileTree) (below : List String) : Prop where
  isSource : IsSource below
  there : ∃ node, t.node? (l ++ below) = some node
  reached : Takes root below.dropLast
  notEntered : ¬ (Takes root below ∧ t.node? (l ++ below) = some .directory)

theorem Listed.names (ht : t.WellFormed) (h : Listed root l t below) : ∀ n ∈ below, IsFileName n := by
  obtain ⟨node, hnode⟩ := h.there
  exact fun n hn => ht.names hnode n (List.mem_append_right _ hn)

theorem Listed.entered (ht : t.WellFormed)
    (hd : t.find (root.joinText directory) = .ok (l, .directory)) {more : List String}
    (hmore : more ≠ []) (h : Listed root l t (below ++ more)) :
    Takes root below ∧ t.node? (l ++ below) = some .directory := by
  obtain ⟨node, hnode⟩ := h.there
  have hreached := h.reached
  rw [List.dropLast_append_of_ne_nil hmore] at hreached
  rw [← List.append_assoc] at hnode
  refine ⟨hreached.of_append hd fun n hn => h.names ht n ?_, ht.directory_above hnode hmore⟩
  rw [← List.dropLast_append_of_ne_nil hmore] at hn
  exact List.dropLast_subset _ hn

variable {order : Location → List String} {found : List String}

def Lists (t : FileTree) (order : Location → List String) : Prop :=
  ∀ l name, name ∈ order l ↔ name ∈ t.children l

theorem lists_children (t : FileTree) : Lists t t.children := fun _ _ => Iff.rfl

theorem Lists.mem_iff (h : Lists t order) {name : String} :
    name ∈ order l ↔ ∃ node, t.node? (l ++ [name]) = some node := (h l name).trans mem_children

theorem mem_walk_succ {depth : Nat} : found ∈ walk order root t l (depth + 1) below ↔
    ∃ name ∈ order (l ++ below), (∀ n ∈ below ++ [name], isInternal n = false) ∧
      ((t.isDirectory (root.joinText (keyOf (below ++ [name]))) = true ∧
          found ∈ walk order root t l depth (below ++ [name])) ∨
        (t.isDirectory (root.joinText (keyOf (below ++ [name]))) = false ∧
          (below ++ [name]).getLast?.bind extensionOf? = some fileExtension ∧
          found = below ++ [name])) := by
  rw [walk, List.mem_flatMap]
  simp only [List.mem_map, exists_exists_and_eq_and]
  refine exists_congr fun name => and_congr_right fun _ => ?_
  have hvisible : (below ++ [name]).any isInternal = true ↔
      ¬ ∀ n ∈ below ++ [name], isInternal n = false := by
    simp only [List.any_eq_true, not_forall, Bool.not_eq_false, exists_prop]
  split
  · rename_i hinternal
    exact iff_of_false List.not_mem_nil fun h => hvisible.1 hinternal h.1
  · rename_i hinternal
    rw [hvisible, not_not] at hinternal
    rw [and_iff_right hinternal]
    split
    · rename_i hentered
      simp [hentered]
    · rename_i hentered
      simp only [hentered, Bool.false_eq_true, false_and, false_or, true_and]
      split
      · rename_i hextension
        rw [List.mem_singleton, and_iff_right hextension]
      · rename_i hextension
        exact iff_of_false List.not_mem_nil fun h => hextension h.1

/-- A walk through a directory that is entered finds what is read below it: by induction on how deep
the walk goes, as every entry is read itself or leads to what is read below it. -/
theorem mem_walk (horder : Lists t order) (ht : t.WellFormed)
    (hd : t.find (root.joinText directory) = .ok (l, .directory)) (depth : Nat)
    (htakes : Takes root below) (hbelow : t.node? (l ++ below) = some .directory) :
    found ∈ walk order root t l depth below ↔ ∃ more, found = below ++ more ∧ more ≠ [] ∧
      more.length ≤ depth ∧ Listed root l t found := by
  induction depth generalizing below found with
  | zero =>
    rw [walk]
    refine iff_of_false List.not_mem_nil ?_
    rintro ⟨more, -, hne, hlength, -⟩
    exact hne (List.eq_nil_of_length_eq_zero (Nat.le_zero.1 hlength))
  | succ depth ih =>
    have hentry : ∀ {name node}, t.node? (l ++ below ++ [name]) = some node →
        (t.isDirectory (root.joinText (keyOf (below ++ [name]))) = true ↔
          Takes root (below ++ [name]) ∧ t.node? (l ++ (below ++ [name])) = some .directory) := by
      intro name node hnode
      rw [List.append_assoc] at hnode
      exact isDirectory_keyOf_iff ht hd fun n hn => ht.names hnode n (List.mem_append_right l hn)
    rw [mem_walk_succ]
    constructor
    · rintro ⟨name, hname, hvisible, hfound⟩
      obtain ⟨node, hnode⟩ := horder.mem_iff.1 hname
      rcases hfound with ⟨hentered, hfound⟩ | ⟨hentered, hextension, rfl⟩
      · obtain ⟨htakes', hnode'⟩ := (hentry hnode).1 hentered
        obtain ⟨more, rfl, -, hlength, hlisted⟩ := (ih htakes' hnode').1 hfound
        exact ⟨name :: more, List.append_assoc .., List.cons_ne_nil _ _, Nat.succ_le_succ hlength,
          hlisted⟩
      · have hreached : Takes root (below ++ [name]).dropLast := by rwa [List.dropLast_concat]
        rw [← Bool.not_eq_true, hentry hnode] at hentered
        exact ⟨[name], rfl, List.cons_ne_nil _ _, Nat.succ_le_succ (Nat.zero_le _),
          ⟨hvisible, hextension⟩, ⟨node, List.append_assoc l .. ▸ hnode⟩, hreached, hentered⟩
    · rintro ⟨more, rfl, hne, hlength, hlisted⟩
      obtain ⟨name, rest, rfl⟩ := List.exists_cons_of_ne_nil hne
      obtain ⟨node, hnode⟩ := hlisted.there
      rw [List.append_cons] at hlisted hnode ⊢
      have hvisible : ∀ n ∈ below ++ [name], isInternal n = false :=
        fun n hn => hlisted.isSource.visible n (List.mem_append_left _ hn)
      by_cases hrest : rest = []
      · subst hrest
        rw [List.append_nil] at hlisted hnode ⊢
        rw [← List.append_assoc] at hnode
        have hentered : t.isDirectory (root.joinText (keyOf (below ++ [name]))) = false := by
          rw [← Bool.not_eq_true, hentry hnode]
          exact hlisted.notEntered
        exact ⟨name, horder.mem_iff.2 ⟨node, hnode⟩, hvisible,
          Or.inr ⟨hentered, hlisted.isSource.hasExtension, rfl⟩⟩
      · obtain ⟨htakes', hnode'⟩ := hlisted.entered ht hd hrest
        have hname := hnode'
        rw [← List.append_assoc] at hname
        exact ⟨name, horder.mem_iff.2 ⟨_, hname⟩, hvisible, Or.inl ⟨(hentry hname).2 ⟨htakes', hnode'⟩,
          (ih htakes' hnode').2 ⟨rest, rfl, hrest, Nat.le_of_succ_le_succ hlength, hlisted⟩⟩⟩

theorem mem_walked (horder : Lists t order) (ht : t.WellFormed)
    (hd : t.find (root.joinText directory) = .ok (l, .directory)) {path : String} :
    path ∈ (walk order root t l t.depth []).map keyOf ↔
      ∃ below, path = keyOf below ∧ Listed root l t below := by
  obtain ⟨htakes, -, hnode⟩ := (find_keyOf_iff ht hd (List.forall_mem_nil _)).1 (keyOf_nil ▸ hd)
  rw [List.mem_map]
  simp only [mem_walk horder ht hd t.depth htakes hnode]
  constructor
  · rintro ⟨below, ⟨-, -, -, -, hlisted⟩, rfl⟩
    exact ⟨below, rfl, hlisted⟩
  · rintro ⟨below, rfl, hlisted⟩
    obtain ⟨node, hthere⟩ := hlisted.there
    have hlength := length_le_depth hthere
    rw [List.length_append] at hlength
    exact ⟨below, ⟨below, rfl, hlisted.isSource.ne_nil, by omega, hlisted⟩, rfl⟩

theorem Listed.congr {t' : FileTree} (h : Listed root l t below)
    (hsame : t'.node? (l ++ below) = t.node? (l ++ below)) : Listed root l t' below := by
  obtain ⟨hsource, hthere, hreached, hentered⟩ := h
  rw [← hsame] at hthere hentered
  exact ⟨hsource, hthere, hreached, hentered⟩

end Found

section Read

variable {read : String → Except SourceError String} {files m : NameMap String} {l : List String}

theorem readAll_ok (h : readAll read files l = .ok m) :
    (∀ path ∈ l, ∃ text, read path = .ok text) ∧
      ∀ path text, m.get? path = some text ↔
        if path ∈ l then read path = .ok text else files.get? path = some text := by
  induction l generalizing files with
  | nil =>
    cases h
    exact ⟨fun _ hb => absurd hb List.not_mem_nil, fun _ _ => by rw [if_neg List.not_mem_nil]⟩
  | cons first rest ih =>
    rw [readAll] at h
    split at h
    · cases h
    · rename_i text htext
      obtain ⟨hread, hget⟩ := ih h
      refine ⟨List.forall_mem_cons.2 ⟨⟨text, htext⟩, hread⟩, fun path s => ?_⟩
      rw [hget]
      by_cases hrest : path ∈ rest
      · rw [if_pos hrest, if_pos (List.mem_cons_of_mem _ hrest)]
      · rw [if_neg hrest, NameMap.get?_insert]
        by_cases hpath : path = first
        · subst hpath
          rw [if_pos rfl, if_pos List.mem_cons_self, htext, Option.some.injEq, Except.ok.injEq]
        · rw [if_neg hpath, if_neg]
          exact fun hmem => (List.mem_cons.1 hmem).elim hpath hrest

theorem exists_readAll (h : ∀ path ∈ l, ∃ text, read path = .ok text) (files : NameMap String) :
    ∃ m, readAll read files l = .ok m := by
  induction l generalizing files with
  | nil => exact ⟨files, rfl⟩
  | cons path rest ih =>
    obtain ⟨⟨text, htext⟩, hrest⟩ := List.forall_mem_cons.1 h
    rw [readAll, htext]
    exact ih hrest _

end Read

section Scan

variable {order : Location → List String} {root : Path} {t : FileTree} {l : Location}
  {below : List String} {files : NameMap String} {path text : String}

theorem readSource_ok_iff : readSource root t path = .ok text ↔
    t.text (root.joinText path) = .ok text := by
  rw [readSource]
  cases t.text (root.joinText path) with
  | error e => exact iff_of_false nofun nofun
  | ok s => simp [Except.mapError]

theorem scanAs_of_no_directory (h : ∀ l, t.find (root.joinText directory) ≠ .ok (l, .directory)) :
    scanAs order root t = .ok (.ofFiles {}) := by
  rw [scanAs]
  split
  · rename_i l hl
    exact absurd hl (h l)
  · rfl

theorem scanAs_eq_ok_iff (hd : t.find (root.joinText directory) = .ok (l, .directory))
    {sources : SourceSet} : scanAs order root t = .ok sources ↔ ∃ m,
      readAll (readSource root t) {} ((walk order root t l t.depth []).map keyOf) = .ok m ∧
        sources = .ofFiles m := by
  rw [scanAs, hd]
  dsimp only
  cases readAll (readSource root t) {} ((walk order root t l t.depth []).map keyOf) with
  | error e => exact iff_of_false nofun nofun
  | ok m =>
    constructor
    · intro h
      cases h
      exact ⟨m, rfl, rfl⟩
    · rintro ⟨_, hm, rfl⟩
      cases hm
      rfl

theorem scanAs_ok {sources : SourceSet} (h : scanAs order root t = .ok sources) :
    ∃ files, sources = .ofFiles files := by
  by_cases hd : ∃ l, t.find (root.joinText directory) = .ok (l, .directory)
  · obtain ⟨l, hd⟩ := hd
    obtain ⟨m, -, hm⟩ := (scanAs_eq_ok_iff hd).1 h
    exact ⟨m, hm⟩
  · rw [scanAs_of_no_directory fun l hl => hd ⟨l, hl⟩] at h
    cases h
    exact ⟨{}, rfl⟩

theorem scan_ok {sources : SourceSet} (h : scan root t = .ok sources) :
    ∃ files, sources = .ofFiles files := scanAs_ok h

theorem scanAs_ok_iff (horder : Lists t order) (ht : t.WellFormed)
    (hd : t.find (root.joinText directory) = .ok (l, .directory)) :
    (∃ sources, scanAs order root t = .ok sources) ↔
      ∀ below, Listed root l t below →
        ∃ text, t.text (root.joinText (keyOf below)) = .ok text := by
  constructor
  · rintro ⟨sources, h⟩ below hlisted
    obtain ⟨m, hread, -⟩ := (scanAs_eq_ok_iff hd).1 h
    obtain ⟨text, htext⟩ :=
      (readAll_ok hread).1 (keyOf below) ((mem_walked horder ht hd).2 ⟨below, rfl, hlisted⟩)
    exact ⟨text, readSource_ok_iff.1 htext⟩
  · intro h
    have hall : ∀ path ∈ (walk order root t l t.depth []).map keyOf,
        ∃ text, readSource root t path = .ok text := by
      intro path hpath
      obtain ⟨below, rfl, hlisted⟩ := (mem_walked horder ht hd).1 hpath
      obtain ⟨text, htext⟩ := h below hlisted
      exact ⟨text, readSource_ok_iff.2 htext⟩
    obtain ⟨m, hm⟩ := exists_readAll hall {}
    exact ⟨_, (scanAs_eq_ok_iff hd).2 ⟨m, hm, rfl⟩⟩

structure SourceAt (root : Path) (l : Location) (t : FileTree) (below : List String) (text : String) :
    Prop where
  isSource : IsSource below
  takes : Takes root below
  file : ∃ content, t.node? (l ++ below) = some (.file content) ∧ Text.ofBytes? content = some text

theorem SourceAt.names (ht : t.WellFormed) (h : SourceAt root l t below text) :
    ∀ n ∈ below, IsFileName n := by
  obtain ⟨content, hnode, -⟩ := h.file
  exact fun n hn => ht.names hnode n (List.mem_append_right _ hn)

theorem SourceAt.listed (ht : t.WellFormed)
    (hd : t.find (root.joinText directory) = .ok (l, .directory)) (h : SourceAt root l t below text) :
    Listed root l t below := by
  have hnames := h.names ht
  obtain ⟨hsource, htakes, content, hnode, -⟩ := h
  refine ⟨hsource, ⟨_, hnode⟩, ?_, fun hentered => ?_⟩
  · have hsplit := List.dropLast_concat_getLast hsource.ne_nil
    rw [← hsplit] at htakes hnames
    obtain ⟨hfront, hlast⟩ := List.forall_mem_append.1 hnames
    exact htakes.of_concat hd hfront (List.forall_mem_singleton.1 hlast)
  · rw [hnode] at hentered
    cases hentered.2

theorem text_joinText_iff (ht : t.WellFormed)
    (hd : t.find (root.joinText directory) = .ok (l, .directory)) (hlisted : Listed root l t below) :
    t.text (root.joinText (keyOf below)) = .ok text ↔ SourceAt root l t below text := by
  rw [text_eq_ok_iff]
  simp only [find_keyOf_iff ht hd (hlisted.names ht)]
  constructor
  · rintro ⟨k, content, ⟨htakes, rfl, hnode⟩, htext⟩
    exact ⟨hlisted.isSource, htakes, content, hnode, htext⟩
  · rintro ⟨-, htakes, content, hnode, htext⟩
    exact ⟨_, content, ⟨htakes, rfl, hnode⟩, htext⟩

theorem get?_scanAs_iff (horder : Lists t order) (ht : t.WellFormed)
    (hd : t.find (root.joinText directory) = .ok (l, .directory))
    (h : scanAs order root t = .ok (.ofFiles files)) :
    files.get? path = some text ↔ ∃ below, path = keyOf below ∧ SourceAt root l t below text := by
  obtain ⟨m, hread, hm⟩ := (scanAs_eq_ok_iff hd).1 h
  have hfiles : files = m := congrArg SourceSet.files hm
  rw [hfiles, (readAll_ok hread).2]
  constructor
  · intro hget
    split at hget
    · rename_i hmem
      obtain ⟨below, rfl, hlisted⟩ := (mem_walked horder ht hd).1 hmem
      exact ⟨below, rfl, (text_joinText_iff ht hd hlisted).1 (readSource_ok_iff.1 hget)⟩
    · cases hget
  · rintro ⟨below, rfl, hsource⟩
    have hlisted := hsource.listed ht hd
    rw [if_pos ((mem_walked horder ht hd).2 ⟨below, rfl, hlisted⟩), readSource_ok_iff]
    exact (text_joinText_iff ht hd hlisted).2 hsource

end Scan

section Absolute

variable {root : Location} {t t' : FileTree} {below : List String} {files : NameMap String}
  {path text : String}

theorem find_sourcesAt_iff (ht : t.WellFormed) (hroot : ∀ n ∈ root, IsFileName n) {l : Location} :
    t.find ((Path.absolute root).joinText directory) = .ok (l, .directory) ↔
      Fits (sourcesAt root) ∧ l = sourcesAt root ∧ t.node? (sourcesAt root) = some .directory := by
  rw [joinText_directory hroot, find_absolute_iff ht (isFileName_sourcesAt hroot)]

theorem takes_absolute_iff (hroot : ∀ n ∈ root, IsFileName n) (h : ∀ n ∈ below, IsFileName n) :
    Takes (.absolute root) below ↔ Fits (sourcesAt root ++ below) := by
  rw [Takes, joinText_keyOf hroot h, Fits]

theorem find_sourcesAt_of_below (ht : t.WellFormed) (hroot : ∀ n ∈ root, IsFileName n)
    {more : List String} (hfits : Fits (sourcesAt root ++ more)) {node : Node}
    (hnode : t.node? (sourcesAt root ++ below) = some node) (hne : below ≠ []) :
    t.find ((Path.absolute root).joinText directory) = .ok (sourcesAt root, .directory) :=
  (find_sourcesAt_iff ht hroot).2 ⟨hfits.of_append, rfl, ht.directory_above hnode hne⟩

theorem Listed.find_sourcesAt (ht : t.WellFormed) (hroot : ∀ n ∈ root, IsFileName n)
    (h : Listed (.absolute root) (sourcesAt root) t below) :
    t.find ((Path.absolute root).joinText directory) = .ok (sourcesAt root, .directory) := by
  have hfront := fun n hn => h.names ht n (List.dropLast_subset _ hn)
  obtain ⟨node, hnode⟩ := h.there
  exact find_sourcesAt_of_below ht hroot ((takes_absolute_iff hroot hfront).1 h.reached) hnode
    h.isSource.ne_nil

theorem SourceAt.find_sourcesAt (ht : t.WellFormed) (hroot : ∀ n ∈ root, IsFileName n)
    (h : SourceAt (.absolute root) (sourcesAt root) t below text) :
    t.find ((Path.absolute root).joinText directory) = .ok (sourcesAt root, .directory) := by
  obtain ⟨content, hnode, -⟩ := h.file
  exact find_sourcesAt_of_below ht hroot ((takes_absolute_iff hroot (h.names ht)).1 h.takes) hnode
    h.isSource.ne_nil

theorem scan_absolute_of_no_directory (ht : t.WellFormed) (hroot : ∀ n ∈ root, IsFileName n)
    (hd : t.find ((Path.absolute root).joinText directory) ≠ .ok (sourcesAt root, .directory)) :
    scan (.absolute root) t = .ok (.ofFiles {}) := by
  refine scanAs_of_no_directory fun l hl => hd ?_
  obtain ⟨-, rfl, -⟩ := (find_sourcesAt_iff ht hroot).1 hl
  exact hl

theorem get?_scan_iff (ht : t.WellFormed) (hroot : ∀ n ∈ root, IsFileName n)
    (h : scan (.absolute root) t = .ok (.ofFiles files)) : files.get? path = some text ↔
      ∃ below, path = keyOf below ∧ SourceAt (.absolute root) (sourcesAt root) t below text := by
  by_cases hd : t.find ((Path.absolute root).joinText directory) = .ok (sourcesAt root, .directory)
  · exact get?_scanAs_iff (lists_children t) ht hd h
  · rw [scan_absolute_of_no_directory ht hroot hd] at h
    have hfiles : {} = files := congrArg SourceSet.files (Except.ok.inj h)
    rw [← hfiles]
    refine iff_of_false nofun ?_
    rintro ⟨below, -, hsource⟩
    exact hd (hsource.find_sourcesAt ht hroot)

theorem pathExists_of_scan (ht : t.WellFormed) (hroot : ∀ n ∈ root, IsFileName n)
    (h : scan (.absolute root) t = .ok (.ofFiles files)) (hfile : files.get? path = some text) :
    t.pathExists ((Path.absolute root).joinText path) = true := by
  obtain ⟨below, rfl, hsource⟩ := (get?_scan_iff ht hroot h).1 hfile
  have hd := hsource.find_sourcesAt ht hroot
  have hread := (text_joinText_iff ht hd (hsource.listed ht hd)).2 hsource
  obtain ⟨k, content, hfind, -⟩ := text_eq_ok_iff.1 hread
  exact pathExists_iff.2 ⟨k, _, find_eq_ok_iff.1 hfind⟩

theorem scan_of_sameFiles (ht : t.WellFormed) (ht' : t'.WellFormed)
    (hroot : ∀ n ∈ root, IsFileName n)
    (hnodes : ∀ below, below ≠ [] → ∀ node, t'.node? (sourcesAt root ++ below) = some node →
      t.node? (sourcesAt root ++ below) = some node)
    (hfiles : ∀ below, below ≠ [] → ∀ content,
      t.node? (sourcesAt root ++ below) = some (.file content) →
        t'.node? (sourcesAt root ++ below) = some (.file content))
    {sources : SourceSet} (h : scan (.absolute root) t = .ok sources) :
    scan (.absolute root) t' = .ok sources := by
  have hsource : ∀ {below text}, SourceAt (.absolute root) (sourcesAt root) t' below text ↔
      SourceAt (.absolute root) (sourcesAt root) t below text := by
    intro below text
    constructor
    · rintro ⟨hs, htakes, content, hnode, htext⟩
      exact ⟨hs, htakes, content, hnodes below hs.ne_nil _ hnode, htext⟩
    · rintro ⟨hs, htakes, content, hnode, htext⟩
      exact ⟨hs, htakes, content, hfiles below hs.ne_nil _ hnode, htext⟩
  -- What the other scan reads, this one reads as well, so neither fails where the other does not.
  obtain ⟨sources', h'⟩ : ∃ sources', scan (.absolute root) t' = .ok sources' := by
    by_cases hd' : t'.find ((Path.absolute root).joinText directory) = .ok (sourcesAt root, .directory)
    · refine (scanAs_ok_iff (lists_children t') ht' hd').2 fun below hlisted => ?_
      obtain ⟨node, hnode⟩ := hlisted.there
      have hsame := hnodes below hlisted.isSource.ne_nil node hnode
      have hlisted' := hlisted.congr (hsame.trans hnode.symm)
      have hd := hlisted'.find_sourcesAt ht hroot
      obtain ⟨text, htext⟩ := (scanAs_ok_iff (lists_children t) ht hd).1 ⟨_, h⟩ below hlisted'
      exact ⟨text, (text_joinText_iff ht' hd' hlisted).2
        (hsource.2 ((text_joinText_iff ht hd hlisted').1 htext))⟩
    · exact ⟨_, scan_absolute_of_no_directory ht' hroot hd'⟩
  obtain ⟨files, rfl⟩ := scan_ok h
  obtain ⟨files', rfl⟩ := scan_ok h'
  rw [h']
  have hfiles : files' = files := by
    refine NameMap.ext_get? fun path => Option.ext fun text => ?_
    rw [get?_scan_iff ht' hroot h', get?_scan_iff ht hroot h]
    simp only [hsource]
  rw [hfiles]

theorem scan_congr (ht : t.WellFormed) (ht' : t'.WellFormed) (hroot : ∀ n ∈ root, IsFileName n)
    (hsame : ∀ below, below ≠ [] →
      t'.node? (sourcesAt root ++ below) = t.node? (sourcesAt root ++ below))
    {sources : SourceSet} (h : scan (.absolute root) t = .ok sources) :
    scan (.absolute root) t' = .ok sources :=
  scan_of_sameFiles ht ht' hroot (fun below hne _ hnode => (hsame below hne).symm.trans hnode)
    (fun below hne _ hnode => (hsame below hne).trans hnode) h

end Absolute

end ContractBuild.SourceSet
