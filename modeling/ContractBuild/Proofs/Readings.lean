import ContractBuild.Proofs.Entries

/-! Readings of a directory. Every artifact file has its turn, in the order of names, and is kept or
dropped then; a reading that heals takes away the dropped files, so far as a path leads to them, and
nothing else. -/

namespace ContractBuild.Store

open FileTree ContractBuild.Path

section Names

theorem fileName_eq (u : String) : fileName u = u ++ "." ++ fileExtension := rfl

theorem splitName_fileName {u : String} (hu : u ≠ "") :
    splitName (fileName u) = (u, some fileExtension) := splitName_append hu (by decide)

theorem stemOf_fileName {u : String} (hu : u ≠ "") : stemOf (fileName u) = u :=
  congrArg Prod.fst (splitName_fileName hu)

theorem extensionOf?_fileName {u : String} (hu : u ≠ "") :
    extensionOf? (fileName u) = some fileExtension := congrArg Prod.snd (splitName_fileName hu)

theorem fileName_inj {u v : String} : fileName u = fileName v ↔ u = v := by
  rw [fileName_eq, fileName_eq, String.append_assoc, String.append_assoc, String.append_left_inj]

theorem fileName_stemOf {name : String} (h : extensionOf? name = some fileExtension) :
    fileName (stemOf name) = name := (eq_of_extensionOf? h).1.symm

end Names

def artifactIn? (t : FileTree) (d : Path) (name : String) : Option Artifact :=
  (t.text (d.joinText name)).toOption.bind fun text =>
    (Artifact.ofText text).toOption.filter (·.name == stemOf name)

def files (t : FileTree) (d : Path) : List String := (NameSet.ofList (artifactFiles t d)).names

def validFiles (root d : Path) (t : FileTree) : List String :=
  (files t d).filter fun name => (readValid? t root d name).isSome

def invalidFiles (root d : Path) (t : FileTree) : List String :=
  (files t d).filter fun name => !(readValid? t root d name).isSome

/-- No artifact of a directory names an entry of the directory as its source. -/
def SourcesApart (root d : Path) (t : FileTree) : Prop :=
  ∀ name ∈ artifactFiles t d, ∀ a, artifactIn? t d name = some a →
    ∀ l other, t.find d = .ok (l, .directory) → t.locate (root.joinText a.sourcePath) ≠ .ok (l ++ [other])

theorem toOption_eq_some_iff {ε α : Type} {r : Except ε α} {x : α} :
    r.toOption = some x ↔ r = .ok x := by
  cases r with
  | error e => exact iff_of_false nofun nofun
  | ok y => exact (Option.some.injEq y x).to_iff.trans (Except.ok.injEq y x).to_iff.symm

structure Trimmed (l : Location) (names : List String) (t t' : FileTree) : Prop where
  workingDirectory : t'.workingDirectory = t.workingDirectory
  wellFormed : t'.WellFormed
  node? : ∀ k, t'.node? k = t.node? k ∨ t'.node? k = none ∧
    (∃ content, t.node? k = some (.file content)) ∧ ∃ name ∈ names, k = l ++ [name]

namespace Trimmed

variable {l : Location} {names names' : List String} {t t' t'' : FileTree}

theorem refl (ht : t.WellFormed) : Trimmed l names t t := ⟨rfl, ht, fun _ => Or.inl rfl⟩

theorem mono (h : Trimmed l names t t') (hnames : names ⊆ names') : Trimmed l names' t t' := by
  refine ⟨h.workingDirectory, h.wellFormed, fun k => (h.node? k).imp_right ?_⟩
  rintro ⟨hnone, hfile, name, hname, hk⟩
  exact ⟨hnone, hfile, name, hnames hname, hk⟩

theorem trans (h : Trimmed l names t t') (h' : Trimmed l names' t' t'') :
    Trimmed l (names ++ names') t t'' := by
  refine ⟨h'.workingDirectory.trans h.workingDirectory, h'.wellFormed, fun k => ?_⟩
  rcases h'.node? k with heq | ⟨hnone, ⟨content, hfile⟩, name, hname, hk⟩
  · rw [heq]
    rcases h.node? k with heq' | ⟨hnone, hfile, name, hname, hk⟩
    · exact Or.inl heq'
    · exact Or.inr ⟨hnone, hfile, name, List.mem_append_left _ hname, hk⟩
  · refine Or.inr ⟨hnone, ?_, name, List.mem_append_right _ hname, hk⟩
    rcases h.node? k with heq' | ⟨hnone', -, -⟩
    · exact ⟨content, heq' ▸ hfile⟩
    · rw [hnone'] at hfile
      cases hfile

theorem node?_of_some (h : Trimmed l names t t') {k : Location} {node : Node}
    (hk : t'.node? k = some node) : t.node? k = some node := by
  rcases h.node? k with heq | ⟨hnone, -, -⟩
  · rw [← heq, hk]
  · rw [hnone] at hk
    cases hk

theorem node?_of_not_mem (h : Trimmed l names t t') {name : String} (hname : name ∉ names) :
    t'.node? (l ++ [name]) = t.node? (l ++ [name]) := by
  rcases h.node? (l ++ [name]) with heq | ⟨-, -, other, hother, hk⟩
  · exact heq
  · rw [List.append_cancel_left_eq, List.cons.injEq] at hk
    exact absurd (hk.1 ▸ hother) hname

theorem node?_directory (h : Trimmed l names t t') {k : Location}
    (hk : t.node? k = some .directory) : t'.node? k = some .directory := by
  rcases h.node? k with heq | ⟨-, ⟨content, hfile⟩, -⟩
  · rw [heq, hk]
  · rw [hfile] at hk
    cases hk

theorem keepsDirectories (h : Trimmed l names t t') : KeepsDirectories t t' :=
  ⟨h.workingDirectory, fun _ => h.node?_directory⟩

theorem keepsDirectories_before (h : Trimmed l names t t') : KeepsDirectories t' t :=
  ⟨h.workingDirectory.symm, fun _ => h.node?_of_some⟩

theorem pathExists_of_exists (h : Trimmed l names t t') {p : Path} (hp : t'.pathExists p = true) :
    t.pathExists p = true :=
  pathExists_of_kept h.keepsDirectories_before (fun _ node hk => ⟨node, h.node?_of_some hk⟩) hp

theorem pathExists_iff_of_outside (h : Trimmed l names t t') {p : Path}
    (hout : ∀ name, t.locate p ≠ .ok (l ++ [name])) :
    t'.pathExists p = true ↔ t.pathExists p = true := by
  refine ⟨h.pathExists_of_exists, fun hp => ?_⟩
  obtain ⟨k, node, hlocate, hnode⟩ := pathExists_iff.1 hp
  refine pathExists_iff.2 ⟨k, node, locate_of_keepsDirectories h.keepsDirectories hlocate, ?_⟩
  rcases h.node? k with heq | ⟨-, -, name, -, rfl⟩
  · rw [heq, hnode]
  · exact absurd hlocate (hout name)

end Trimmed

section OneFile

variable {t t' : FileTree} {root d : Path} {l : Location} {name : String} {a : Artifact}

theorem readValid?_eq_filter (t : FileTree) (root d : Path) (name : String) :
    readValid? t root d name =
      (artifactIn? t d name).filter fun a => t.pathExists (root.joinText a.sourcePath) := by
  unfold readValid? artifactIn?
  cases t.text (d.joinText name) with
  | error e => rfl
  | ok text =>
    dsimp only [Except.toOption, Option.bind_some]
    cases Artifact.ofText text with
    | error e => rfl
    | ok a =>
      dsimp only
      by_cases hn : a.name = stemOf name
      · rw [Option.filter_some_pos (by exact beq_iff_eq.2 hn), Option.filter_some]
        exact if_congr (and_iff_right hn) rfl rfl
      · rw [Option.filter_some_neg (by exact beq_false_of_ne hn), Option.filter_none,
          if_neg fun h => hn h.1]

theorem artifactIn?_eq_some_iff (hd : t.find d = .ok (l, .directory)) (hname : IsFileName name) :
    artifactIn? t d name = some a ↔ Nameable d name ∧ ∃ content text,
      t.node? (l ++ [name]) = some (.file content) ∧ Text.ofBytes? content = some text ∧
        Artifact.ofText text = .ok a ∧ a.name = stemOf name := by
  have htext : ∀ text, (t.text (d.joinText name)).toOption = some text ↔ Nameable d name ∧
      ∃ content, t.node? (l ++ [name]) = some (.file content) ∧ Text.ofBytes? content = some text := by
    intro text
    rw [toOption_eq_some_iff, text_eq_ok_iff]
    simp only [find_joinText_iff hd hname]
    constructor
    · rintro ⟨k, content, ⟨hnameable, -, hnode⟩, hs⟩
      exact ⟨hnameable, content, hnode, hs⟩
    · rintro ⟨hnameable, content, hnode, hs⟩
      exact ⟨_, content, ⟨hnameable, rfl, hnode⟩, hs⟩
  rw [artifactIn?, Option.bind_eq_some_iff]
  simp only [Option.filter_eq_some_iff, toOption_eq_some_iff, beq_iff_eq, htext]
  constructor
  · rintro ⟨text, ⟨hnameable, content, hnode, hs⟩, ha, hn⟩
    exact ⟨hnameable, content, text, hnode, hs, ha, hn⟩
  · rintro ⟨hnameable, content, text, hnode, hs, ha, hn⟩
    exact ⟨text, ⟨hnameable, content, hnode, hs⟩, ha, hn⟩

theorem artifactIn?_congr (hd : t.find d = .ok (l, .directory))
    (hd' : t'.find d = .ok (l, .directory)) (hname : IsFileName name)
    (h : t'.node? (l ++ [name]) = t.node? (l ++ [name])) :
    artifactIn? t' d name = artifactIn? t d name := by
  ext a
  rw [artifactIn?_eq_some_iff hd hname, artifactIn?_eq_some_iff hd' hname, h]

theorem fileName_eq_iff (hext : extensionOf? name = some fileExtension) {u : String} :
    fileName u = name ↔ u = stemOf name := by
  conv_lhs => rw [← fileName_stemOf hext]
  exact fileName_inj

theorem isFileName_of_mem (ht : t.WellFormed) (h : name ∈ artifactFiles t d) :
    IsFileName name ∧ extensionOf? name = some fileExtension ∧
      ∃ l, t.find d = .ok (l, .directory) := by
  obtain ⟨hlist, hext⟩ := List.mem_filter.1 h
  obtain ⟨l, hd⟩ := exists_find_of_mem_list hlist
  obtain ⟨node, hnode⟩ := (mem_list_iff hd).1 hlist
  exact ⟨ht.names hnode name (List.mem_append_right l List.mem_cons_self), beq_iff_eq.1 hext, l, hd⟩

theorem without_trimmed (ht : t.WellFormed) (hd : t.find d = .ok (l, .directory))
    {names : List String} (hnames : ∀ n ∈ names, IsFileName n) :
    Trimmed l names t (t.without (names.map d.joinText)) := by
  refine ⟨rfl, ht.without _, fun k => ?_⟩
  rw [node?_without]
  split
  · rename_i hgone
    obtain ⟨p, hp, hat⟩ := hgone
    obtain ⟨name, hname, rfl⟩ := List.mem_map.1 hp
    obtain ⟨-, rfl, hfile⟩ := (fileAt?_joinText_iff hd (hnames name hname)).1 hat
    exact Or.inr ⟨rfl, hfile, name, hname, rfl⟩
  · exact Or.inl rfl

theorem find_of_trimmed {names : List String} (htrim : Trimmed l names t t')
    (hd : t.find d = .ok (l, .directory)) : t'.find d = .ok (l, .directory) :=
  find_directory_of_keepsDirectories htrim.keepsDirectories hd

theorem readValid?_of_trimmed (hapart : SourcesApart root d t) {names : List String}
    (htrim : Trimmed l names t t') (ht : t.WellFormed) (hd : t.find d = .ok (l, .directory))
    (hmem : name ∈ artifactFiles t d) (hnode : t'.node? (l ++ [name]) = t.node? (l ++ [name])) :
    readValid? t' root d name = readValid? t root d name := by
  have hname := (isFileName_of_mem ht hmem).1
  rw [readValid?_eq_filter, readValid?_eq_filter,
    artifactIn?_congr hd (find_of_trimmed htrim hd) hname hnode]
  cases ha : artifactIn? t d name with
  | none => rw [Option.filter_none, Option.filter_none]
  | some a =>
    have hsource := htrim.pathExists_iff_of_outside fun other => hapart name hmem a ha l other hd
    rw [Option.filter_some, Option.filter_some]
    exact if_congr hsource rfl rfl

theorem mem_artifactFiles_of_trimmed {names : List String} (htrim : Trimmed l names t t')
    (hd : t.find d = .ok (l, .directory)) : name ∈ artifactFiles t' d ↔
      name ∈ artifactFiles t d ∧ ∃ node, t'.node? (l ++ [name]) = some node := by
  rw [artifactFiles, artifactFiles, List.mem_filter, List.mem_filter, mem_list_iff hd,
    mem_list_iff (find_of_trimmed htrim hd)]
  constructor
  · rintro ⟨⟨node, hnode⟩, hext⟩
    exact ⟨⟨⟨node, htrim.node?_of_some hnode⟩, hext⟩, node, hnode⟩
  · rintro ⟨⟨-, hext⟩, hthere⟩
    exact ⟨hthere, hext⟩

theorem SourcesApart.of_trimmed (hapart : SourcesApart root d t) {names : List String}
    (htrim : Trimmed l names t t') (ht : t.WellFormed) (hd : t.find d = .ok (l, .directory)) :
    SourcesApart root d t' := by
  intro name hmem a ha k other hd' hlocate
  obtain ⟨hbefore, node, hnode⟩ := (mem_artifactFiles_of_trimmed htrim hd).1 hmem
  rw [artifactIn?_congr hd (find_of_trimmed htrim hd) (isFileName_of_mem ht hbefore).1
    (hnode.trans (htrim.node?_of_some hnode).symm)] at ha
  cases (find_of_trimmed htrim hd).symm.trans hd'
  exact hapart name hbefore a ha l other hd
    (locate_of_keepsDirectories htrim.keepsDirectories_before hlocate)

end OneFile

section OneTurn

variable {heal : Bool} {root d : Path} {r : Reading} {name : String}

theorem file_eq_of_valid {a : Artifact} (h : readValid? r.tree root d name = some a) :
    Reading.file heal root d r name =
      ⟨⟨r.report.loaded ++ [a.name], r.report.discarded⟩, r.entries.insert a.name a, r.tree⟩ := by
  unfold Reading.file
  rw [h]

theorem file_eq_of_invalid (h : readValid? r.tree root d name = none) :
    Reading.file heal root d r name =
      ⟨⟨r.report.loaded, r.report.discarded ++ [d.joinText name]⟩, r.entries,
        if heal then r.tree.without [d.joinText name] else r.tree⟩ := by
  unfold Reading.file
  rw [h, ← removeFile_getD]

end OneTurn

/-- Of the files that have had their turn, some are kept and the others dropped. -/
structure Underway (heal : Bool) (root d : Path) (t : FileTree) (base : NameMap Artifact)
    (done kept dropped : List String) (r : Reading) : Prop where
  split : done.Perm (kept ++ dropped)
  kept_sublist : kept.Sublist done
  dropped_sublist : dropped.Sublist done
  loaded : r.report.loaded = kept.map stemOf
  discarded : r.report.discarded = dropped.map d.joinText
  tree : r.tree = if heal then t.without (dropped.map d.joinText) else t
  valid : ∀ name ∈ kept, ∃ a, artifactIn? t d name = some a ∧
    t.pathExists (root.joinText a.sourcePath) = true
  entries : ∀ u, r.entries.get? u =
    (if fileName u ∈ kept then artifactIn? t d (fileName u) else none).or (base.get? u)
  of_apart : (heal = true → SourcesApart root d t) →
    kept = done.filter (fun name => (readValid? t root d name).isSome) ∧
      dropped = done.filter (fun name => !(readValid? t root d name).isSome)

namespace Underway

variable {heal : Bool} {root d : Path} {t : FileTree} {base : NameMap Artifact} {l : Location}
  {done kept dropped : List String} {r : Reading} {name : String}

theorem start (heal : Bool) (root d : Path) (t : FileTree) (base : NameMap Artifact) :
    Underway heal root d t base [] [] [] ⟨{}, base, t⟩ := by
  refine ⟨.refl _, .refl _, .refl _, rfl, rfl, ?_, List.forall_mem_nil _, fun u => ?_, fun _ => ⟨rfl, rfl⟩⟩
  · rw [List.map_nil, without_eq_self (List.forall_mem_nil _), ite_self]
  · rw [if_neg List.not_mem_nil, Option.none_or]

theorem trimmed (h : Underway heal root d t base done kept dropped r) (ht : t.WellFormed)
    (hd : t.find d = .ok (l, .directory)) (hdone : ∀ n ∈ done, IsFileName n) :
    Trimmed l dropped t r.tree := by
  rw [h.tree]
  split
  · exact without_trimmed ht hd fun n hn => hdone n (h.dropped_sublist.subset hn)
  · exact .refl ht

theorem keep (h : Underway heal root d t base done kept dropped r)
    (hext : extensionOf? name = some fileExtension) {a : Artifact}
    (ha : artifactIn? t d name = some a) (hstem : a.name = stemOf name)
    (hsource : t.pathExists (root.joinText a.sourcePath) = true)
    (hvalid : readValid? r.tree root d name = some a)
    (hsame : (heal = true → SourcesApart root d t) →
      readValid? r.tree root d name = readValid? t root d name) :
    Underway heal root d t base (done ++ [name]) (kept ++ [name]) dropped
      (Reading.file heal root d r name) := by
  rw [file_eq_of_valid hvalid]
  refine ⟨?_, h.kept_sublist.append (.refl _), h.dropped_sublist.trans (List.sublist_append_left _ _),
    ?_, h.discarded, h.tree, ?_, fun u => ?_, fun hapart => ?_⟩
  · refine (h.split.append_right [name]).trans ?_
    rw [List.append_assoc, List.append_assoc]
    exact List.perm_append_comm.append_left kept
  · rw [h.loaded, List.map_append, hstem]
    rfl
  · exact List.forall_mem_append.2 ⟨h.valid, List.forall_mem_singleton.2 ⟨a, ha, hsource⟩⟩
  · rw [NameMap.get?_insert, hstem, h.entries]
    by_cases hu : fileName u = name
    · rw [if_pos ((fileName_eq_iff hext).1 hu), hu,
        if_pos (List.mem_append_right kept List.mem_cons_self), ha, Option.some_or]
    · have hmem : fileName u ∈ kept ++ [name] ↔ fileName u ∈ kept := by
        rw [List.mem_append, List.mem_singleton, or_iff_left hu]
      rw [if_neg fun h => hu ((fileName_eq_iff hext).2 h), if_congr hmem rfl rfl]
  · have hnow : (readValid? t root d name).isSome = true := by rw [← hsame hapart, hvalid]; rfl
    obtain ⟨hkept, hdropped⟩ := h.of_apart hapart
    rw [List.filter_append, List.filter_append, ← hkept, ← hdropped,
      List.filter_cons_of_pos (by exact hnow), List.filter_cons_of_neg (by rw [hnow]; decide)]
    exact ⟨rfl, (List.append_nil dropped).symm⟩

theorem drop (h : Underway heal root d t base done kept dropped r)
    (hthere : r.tree.fileAt? (d.joinText name) = t.fileAt? (d.joinText name))
    (hinvalid : readValid? r.tree root d name = none)
    (hsame : (heal = true → SourcesApart root d t) →
      readValid? r.tree root d name = readValid? t root d name) :
    Underway heal root d t base (done ++ [name]) kept (dropped ++ [name])
      (Reading.file heal root d r name) := by
  rw [file_eq_of_invalid hinvalid]
  refine ⟨?_, h.kept_sublist.trans (List.sublist_append_left _ _), h.dropped_sublist.append (.refl _),
    h.loaded, ?_, ?_, h.valid, h.entries, fun hapart => ?_⟩
  · refine (h.split.append_right [name]).trans ?_
    rw [List.append_assoc]
  · rw [h.discarded, List.map_append]
    rfl
  · cases heal with
    | false => exact h.tree
    | true =>
      have htree : r.tree = t.without (dropped.map d.joinText) := h.tree
      rw [htree] at hthere
      show r.tree.without _ = t.without _
      rw [htree, without_without (List.forall_mem_singleton.2 hthere), List.map_append]
      rfl
  · have hnow : (readValid? t root d name).isSome = false := by rw [← hsame hapart, hinvalid]; rfl
    obtain ⟨hkept, hdropped⟩ := h.of_apart hapart
    rw [List.filter_append, List.filter_append, ← hkept, ← hdropped,
      List.filter_cons_of_neg (by rw [hnow]; decide), List.filter_cons_of_pos (by rw [hnow]; rfl)]
    exact ⟨(List.append_nil kept).symm, rfl⟩

theorem file (h : Underway heal root d t base done kept dropped r) (ht : t.WellFormed)
    (hfiles : ∀ n ∈ done ++ [name], n ∈ artifactFiles t d) (hnew : name ∉ done) :
    ∃ kept' dropped', Underway heal root d t base (done ++ [name]) kept' dropped'
      (Reading.file heal root d r name) := by
  obtain ⟨hdone, hmem⟩ := List.forall_mem_append.1 hfiles
  have hmem := List.forall_mem_singleton.1 hmem
  obtain ⟨hname, hext, l, hd⟩ := isFileName_of_mem ht hmem
  have htrim := h.trimmed ht hd fun n hn => (isFileName_of_mem ht (hdone n hn)).1
  have hd' := find_of_trimmed htrim hd
  have hnode : r.tree.node? (l ++ [name]) = t.node? (l ++ [name]) :=
    htrim.node?_of_not_mem fun hn => hnew (h.dropped_sublist.subset hn)
  have hin : artifactIn? r.tree d name = artifactIn? t d name := artifactIn?_congr hd hd' hname hnode
  have hsame : (heal = true → SourcesApart root d t) →
      readValid? r.tree root d name = readValid? t root d name := by
    intro hapart
    cases heal with
    | false =>
      have htree : r.tree = t := h.tree
      rw [htree]
    | true => exact readValid?_of_trimmed (hapart rfl) htrim ht hd hmem hnode
  cases hv : readValid? r.tree root d name with
  | some a =>
    have hvalid := hv
    rw [readValid?_eq_filter, Option.filter_eq_some_iff, hin] at hvalid
    obtain ⟨ha, hsource⟩ := hvalid
    obtain ⟨-, -, -, -, -, -, hstem⟩ := (artifactIn?_eq_some_iff hd hname).1 ha
    exact ⟨_, _, h.keep hext ha hstem (htrim.pathExists_of_exists hsource) hv hsame⟩
  | none =>
    have hthere : r.tree.fileAt? (d.joinText name) = t.fileAt? (d.joinText name) := by
      ext k
      rw [fileAt?_joinText_iff hd hname, fileAt?_joinText_iff hd' hname, hnode]
    exact ⟨_, _, h.drop hthere hv hsame⟩

theorem run (h : Underway heal root d t base done kept dropped r) (ht : t.WellFormed)
    {names : List String} (hfiles : ∀ n ∈ done ++ names, n ∈ artifactFiles t d)
    (hnodup : (done ++ names).Nodup) :
    ∃ kept' dropped', Underway heal root d t base (done ++ names) kept' dropped'
      (names.foldl (Reading.file heal root d) r) := by
  induction names generalizing done kept dropped r with
  | nil =>
    rw [List.append_nil]
    exact ⟨kept, dropped, h⟩
  | cons name rest ih =>
    rw [List.append_cons] at hfiles hnodup ⊢
    have hnew : name ∉ done := by
      intro hmem
      have hsplit := (List.nodup_append.1 (List.nodup_append.1 hnodup).1).2.2
      exact hsplit name hmem name List.mem_cons_self rfl
    obtain ⟨kept', dropped', hturn⟩ := h.file ht (fun n hn => hfiles n (List.mem_append_left _ hn)) hnew
    exact ih hturn hfiles hnodup

theorem not_mem_dropped (h : Underway heal root d t base done kept dropped r) (hnodup : done.Nodup)
    (hname : name ∈ kept) : name ∉ dropped := fun hdropped =>
  (List.nodup_append.1 (h.split.nodup_iff.1 hnodup)).2.2 name hname name hdropped rfl

theorem mem_discarded_iff (h : Underway heal root d t base done kept dropped r)
    (hdone : ∀ n ∈ done, IsFileName n) (hname : IsFileName name) :
    d.joinText name ∈ r.report.discarded ↔ name ∈ dropped := by
  rw [h.discarded]
  refine ⟨fun hmem => ?_, List.mem_map_of_mem⟩
  obtain ⟨other, hother, hpath⟩ := List.mem_map.1 hmem
  have hfile := hdone other (h.dropped_sublist.subset hother)
  exact (joinText_inj hfile.noSlash hname.noSlash).1 hpath ▸ hother

theorem fileAt?_dropped (h : Underway true root d t base done kept dropped r) (ht : t.WellFormed)
    (hd : t.find d = .ok (l, .directory)) (hdone : ∀ n ∈ done, IsFileName n)
    (hname : name ∈ dropped) : r.tree.fileAt? (d.joinText name) = none := by
  have htrim := h.trimmed ht hd hdone
  have hfile := hdone name (h.dropped_sublist.subset hname)
  apply Option.eq_none_iff_forall_ne_some.2
  intro k hk
  obtain ⟨hnameable, rfl, content, hthere⟩ :=
    (fileAt?_joinText_iff (find_of_trimmed htrim hd) hfile).1 hk
  have hat := (fileAt?_joinText_iff hd hfile).2 ⟨hnameable, rfl, content, htrim.node?_of_some hthere⟩
  rw [h.tree, if_pos rfl, node?_without, if_pos ⟨_, List.mem_map_of_mem hname, hat⟩] at hthere
  cases hthere

theorem agree {heal' : Bool} {r' : Reading} (h : Underway heal root d t base done kept dropped r)
    (h' : Underway heal' root d t base done kept dropped r') :
    r'.report = r.report ∧ r'.entries = r.entries := by
  refine ⟨?_, NameMap.ext_get? fun u => by rw [h'.entries, h.entries]⟩
  rw [LoadReport.mk.injEq, h.loaded, h'.loaded, h.discarded, h'.discarded]
  exact ⟨rfl, rfl⟩

end Underway

theorem foldl_tree_eq {heal : Bool} {root d : Path} {names : List String} {r : Reading}
    (h : heal = true → ∀ name ∈ names, (∃ a, readValid? r.tree root d name = some a) ∨
      r.tree.fileAt? (d.joinText name) = none) :
    (names.foldl (Reading.file heal root d) r).tree = r.tree := by
  induction names generalizing r with
  | nil => rfl
  | cons name rest ih =>
    have hturn : (Reading.file heal root d r name).tree = r.tree := by
      cases hv : readValid? r.tree root d name with
      | some a => rw [file_eq_of_valid hv]
      | none =>
        rw [file_eq_of_invalid hv]
        cases heal with
        | false => rfl
        | true =>
          rcases h rfl name List.mem_cons_self with ⟨a, ha⟩ | hnone
          · rw [hv] at ha
            cases ha
          · exact without_eq_self (List.forall_mem_singleton.2 hnone)
    rw [List.foldl_cons, ih, hturn]
    rw [hturn]
    exact fun hheal n hn => h hheal n (List.mem_cons_of_mem name hn)

theorem foldl_inspect_tree (root directory : Path) (names : List String) (r : Reading) :
    (names.foldl (Reading.file false root directory) r).tree = r.tree := foldl_tree_eq nofun

section Reading

variable {s : Store} {root d : Path} {t t' : FileTree} {l : Location} {name : String}

theorem mem_files : name ∈ files t d ↔ name ∈ artifactFiles t d := NameSet.mem_ofList

theorem isFileName_of_mem_files (ht : t.WellFormed) : ∀ name ∈ files t d, IsFileName name :=
  fun _ hname => (isFileName_of_mem ht (mem_files.1 hname)).1

theorem files_ascending (t : FileTree) (d : Path) : (files t d).Pairwise (· < ·) :=
  (NameSet.ofList (artifactFiles t d)).ascending

theorem mem_validFiles : name ∈ validFiles root d t ↔ name ∈ files t d ∧
    ∃ a, artifactIn? t d name = some a ∧ t.pathExists (root.joinText a.sourcePath) = true := by
  rw [validFiles, List.mem_filter, Option.isSome_iff_exists]
  simp only [readValid?_eq_filter, Option.filter_eq_some_iff]

theorem mem_invalidFiles : name ∈ invalidFiles root d t ↔
    name ∈ files t d ∧ name ∉ validFiles root d t := by
  rw [validFiles, invalidFiles, List.mem_filter, List.mem_filter, Bool.not_eq_true', not_and,
    Bool.not_eq_true]
  exact and_congr_right fun h => (imp_iff_right h).symm

theorem report_load (s : Store) (root : Path) (t : FileTree) :
    (s.load root t).1 = (read true root s t).report := rfl

theorem read_underway (heal : Bool) (root : Path) (ht : t.WellFormed) (hs : s.directory = some d) :
    ∃ kept dropped, Underway heal root d t s.entries (files t d) kept dropped
      (read heal root s t) := by
  rw [read, hs]
  exact (Underway.start heal root d t s.entries).run ht (fun n hn => mem_files.1 hn)
    (NameSet.nodup_names _)

theorem read_of_apart (heal : Bool) (ht : t.WellFormed)
    (hapart : heal = true → SourcesApart root d t) (hs : s.directory = some d) :
    Underway heal root d t s.entries (files t d) (validFiles root d t) (invalidFiles root d t)
      (read heal root s t) := by
  obtain ⟨kept, dropped, h⟩ := read_underway heal root ht hs
  obtain ⟨rfl, rfl⟩ := h.of_apart hapart
  exact h

theorem get?_read_iff (heal : Bool) (ht : t.WellFormed) (hapart : heal = true → SourcesApart root d t)
    {u : String} {a : Artifact} : (read heal root (persistent d) t).entries.get? u = some a ↔
      fileName u ∈ files t d ∧ artifactIn? t d (fileName u) = some a ∧
        t.pathExists (root.joinText a.sourcePath) = true := by
  rw [(read_of_apart heal ht hapart rfl).entries]
  show Option.or _ none = _ ↔ _
  rw [Option.or_none, ite_eq_iff, mem_validFiles]
  constructor
  · rintro (⟨⟨hfile, b, hb, hsource⟩, ha⟩ | ⟨-, hnone⟩)
    · cases hb.symm.trans ha
      exact ⟨hfile, hb, hsource⟩
    · cases hnone
  · rintro ⟨hfile, ha, hsource⟩
    exact Or.inl ⟨⟨hfile, a, ha, hsource⟩, ha⟩

end Reading

end ContractBuild.Store
