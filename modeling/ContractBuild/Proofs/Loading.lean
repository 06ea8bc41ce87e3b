import ContractBuild.Proofs.Reachability
import ContractBuild.Proofs.Readings

/-! Loading the artifacts of a directory. Afterwards memory and disk agree: the entry of a unit is the
artifact that its file holds then. All that a load does to the tree is to take away files. -/

namespace ContractBuild.Store

open FileTree ContractBuild.Path

def onDisk? (t : FileTree) (l : Location) (u : String) : Option Artifact :=
  if u ≠ "" ∧ Fits (l ++ [fileName u]) then
    match t.node? (l ++ [fileName u]) with
    | some (.file content) =>
      ((Text.ofBytes? content).bind fun text => (Artifact.ofText text).toOption).filter (·.name == u)
    | _ => none
  else none

section OnDisk

variable {t t' : FileTree} {l : Location} {u : String} {a : Artifact}

theorem onDisk?_eq_some_iff : onDisk? t l u = some a ↔ u ≠ "" ∧ Fits (l ++ [fileName u]) ∧
    ∃ content text, t.node? (l ++ [fileName u]) = some (.file content) ∧
      Text.ofBytes? content = some text ∧ Artifact.ofText text = .ok a ∧ a.name = u := by
  rw [onDisk?]
  split
  · rename_i hc
    split
    · rename_i content hnode
      rw [hnode, Option.filter_eq_some_iff, Option.bind_eq_some_iff, beq_iff_eq]
      constructor
      · rintro ⟨⟨text, htext, ha⟩, hname⟩
        refine ⟨hc.1, hc.2, content, text, rfl, htext, ?_, hname⟩
        cases hread : Artifact.ofText text with
        | error e =>
          rw [hread] at ha
          cases ha
        | ok b =>
          rw [hread] at ha
          cases ha
          rfl
      · rintro ⟨-, -, content, text, he, htext, ha, hname⟩
        cases he
        exact ⟨⟨text, htext, by rw [ha]; rfl⟩, hname⟩
    · rename_i hnode
      constructor
      · intro h
        cases h
      · rintro ⟨-, -, content, -, he, -⟩
        exact absurd he (hnode content)
  · rename_i hc
    constructor
    · intro h
      cases h
    · rintro ⟨hu, hfits, -⟩
      exact absurd ⟨hu, hfits⟩ hc

theorem onDisk?_congr (h : t'.node? (l ++ [fileName u]) = t.node? (l ++ [fileName u])) :
    onDisk? t' l u = onDisk? t l u := by
  rw [onDisk?, onDisk?, h]

theorem name_of_onDisk? (h : onDisk? t l u = some a) : a.name = u := by
  obtain ⟨-, -, -, -, -, -, -, hname⟩ := onDisk?_eq_some_iff.1 h
  exact hname

theorem ne_empty_of_onDisk? (h : onDisk? t l u = some a) : u ≠ "" := (onDisk?_eq_some_iff.1 h).1

theorem node?_of_onDisk? (h : onDisk? t l u = some a) :
    ∃ content, t.node? (l ++ [fileName u]) = some (.file content) := by
  obtain ⟨-, -, content, -, hnode, -⟩ := onDisk?_eq_some_iff.1 h
  exact ⟨content, hnode⟩

end OnDisk

theorem Trimmed.onDisk?_of_some {l : Location} {names : List String} {t t' : FileTree}
    (h : Trimmed l names t t') {m : Location} {u : String} {a : Artifact}
    (ha : onDisk? t' m u = some a) : onDisk? t m u = some a := by
  obtain ⟨content, hnode⟩ := node?_of_onDisk? ha
  rw [← ha, onDisk?_congr]
  rw [hnode, h.node?_of_some hnode]

section OneFile

variable {t : FileTree} {root : Path} {l : Location} {name : String}

theorem artifactIn?_absolute (ht : t.WellFormed) (hl : ∀ n ∈ l, IsFileName n)
    (hname : IsFileName name) (hext : extensionOf? name = some fileExtension) :
    artifactIn? t (.absolute l) name = onDisk? t l (stemOf name) := by
  have hstem : stemOf name ≠ "" := (eq_of_extensionOf? hext).2
  ext a
  rw [onDisk?_eq_some_iff, fileName_stemOf hext, artifactIn?, Option.bind_eq_some_iff,
    absolute_joinText hl hname.noSlash]
  simp only [Option.filter_eq_some_iff, toOption_eq_some_iff, beq_iff_eq, text_eq_ok_iff,
    find_absolute_iff ht (IsFileName.concat hl hname)]
  constructor
  · rintro ⟨text, ⟨k, content, ⟨hfits, -, hnode⟩, htext⟩, ha, hn⟩
    exact ⟨hstem, hfits, content, text, hnode, htext, ha, hn⟩
  · rintro ⟨-, hfits, content, text, hnode, htext, ha, hn⟩
    exact ⟨text, ⟨_, content, ⟨hfits, rfl, hnode⟩, htext⟩, ha, hn⟩

theorem readValid?_eq_some_iff (root : Path) (ht : t.WellFormed) (hl : ∀ n ∈ l, IsFileName n)
    (hname : IsFileName name) (hext : extensionOf? name = some fileExtension) {a : Artifact} :
    readValid? t root (.absolute l) name = some a ↔
      onDisk? t l (stemOf name) = some a ∧ t.pathExists (root.joinText a.sourcePath) = true := by
  rw [readValid?_eq_filter, Option.filter_eq_some_iff, artifactIn?_absolute ht hl hname hext]

theorem removeFile_absolute (ht : t.WellFormed) (hl : ∀ n ∈ l, IsFileName n)
    (hname : IsFileName name) {t' : FileTree}
    (h : t.removeFile ((Path.absolute l).joinText name) = .ok t') :
    Fits (l ++ [name]) ∧ (∃ content, t.node? (l ++ [name]) = some (.file content)) ∧
      t' = t.remove (· == l ++ [name]) := by
  have hnames := IsFileName.concat hl hname
  rw [absolute_joinText hl hname.noSlash, removeFile] at h
  split at h
  · cases h
  · cases h
  · rename_i k content hfind
    obtain ⟨hfits, rfl, hnode⟩ := (find_absolute_iff ht hnames).1 hfind
    cases h
    exact ⟨hfits, ⟨content, hnode⟩, rfl⟩

end OneFile

section Load

variable {t : FileTree} {root : Path} {l : Location} {name u : String} {a : Artifact}

theorem nameable_absolute (hl : ∀ n ∈ l, IsFileName n) (hname : IsFileName name) :
    Nameable (.absolute l) name ↔ Fits (l ++ [name]) := by
  rw [Nameable, absolute_joinText hl hname.noSlash, Fits]

theorem find_of_mem_files (ht : t.WellFormed) (hl : ∀ n ∈ l, IsFileName n)
    (h : name ∈ files t (.absolute l)) : t.find (.absolute l) = .ok (l, .directory) := by
  obtain ⟨-, -, k, hd⟩ := isFileName_of_mem ht (mem_files.1 h)
  obtain ⟨-, rfl, -⟩ := (find_absolute_iff ht hl).1 hd
  exact hd

theorem mem_artifactFiles (ht : t.WellFormed) (hl : ∀ n ∈ l, IsFileName n) :
    name ∈ artifactFiles t (.absolute l) ↔ extensionOf? name = some fileExtension ∧ Fits l ∧
      ∃ node, t.node? (l ++ [name]) = some node := by
  constructor
  · intro h
    have hd := find_of_mem_files ht hl (mem_files.2 h)
    obtain ⟨hlist, hext⟩ := List.mem_filter.1 h
    exact ⟨beq_iff_eq.1 hext, ((find_absolute_iff ht hl).1 hd).1, (mem_list_iff hd).1 hlist⟩
  · rintro ⟨hext, hfits, node, hnode⟩
    have hdir := ht.parent hnode
    rw [List.dropLast_concat] at hdir
    have hd := (find_absolute_iff ht hl).2 ⟨hfits, rfl, hdir⟩
    exact List.mem_filter.2 ⟨(mem_list_iff hd).2 ⟨node, hnode⟩, beq_iff_eq.2 hext⟩

theorem onDisk?_iff_artifactIn? (ht : t.WellFormed) (hl : ∀ n ∈ l, IsFileName n) :
    onDisk? t l u = some a ↔
      fileName u ∈ files t (.absolute l) ∧ artifactIn? t (.absolute l) (fileName u) = some a := by
  rw [mem_files]
  constructor
  · intro ha
    obtain ⟨hu, hfits, content, -, hnode, -⟩ := onDisk?_eq_some_iff.1 ha
    have hext := extensionOf?_fileName hu
    have hmem := (mem_artifactFiles ht hl).2 ⟨hext, hfits.of_concat, _, hnode⟩
    rw [artifactIn?_absolute ht hl (isFileName_of_mem ht hmem).1 hext, stemOf_fileName hu]
    exact ⟨hmem, ha⟩
  · rintro ⟨hmem, ha⟩
    obtain ⟨hname, hext, -⟩ := isFileName_of_mem ht hmem
    rwa [artifactIn?_absolute ht hl hname hext, ← (fileName_eq_iff hext).1 rfl] at ha

def Tidy (t : FileTree) (l : Location) : Prop :=
  ∀ name content, extensionOf? name = some fileExtension → Fits (l ++ [name]) →
    t.node? (l ++ [name]) = some (.file content) → ∃ a, onDisk? t l (stemOf name) = some a

def healed (root : Path) (l : Location) (t : FileTree) : FileTree :=
  ((persistent (.absolute l)).load root t).2.2

def found (root : Path) (l : Location) (t : FileTree) : Store :=
  ((persistent (.absolute l)).load root t).2.1

structure Healed (root : Path) (l : Location) (t : FileTree) (kept dropped : List String) : Prop where
  underway : Underway true root (.absolute l) t {} (files t (.absolute l)) kept dropped
    (read true root (persistent (.absolute l)) t)
  trimmed : Trimmed l dropped t (healed root l t)
  onDisk?_kept : ∀ name ∈ kept,
    onDisk? (healed root l t) l (stemOf name) = artifactIn? t (.absolute l) name
  node?_dropped : ∀ name ∈ dropped, ∀ content, Fits (l ++ [name]) →
    (healed root l t).node? (l ++ [name]) ≠ some (.file content)

theorem exists_healed (root : Path) (ht : t.WellFormed) (hl : ∀ n ∈ l, IsFileName n) :
    ∃ kept dropped, Healed root l t kept dropped := by
  obtain ⟨kept, dropped, h⟩ := read_underway true root ht (s := persistent (.absolute l)) rfl
  have hfile := fun n (hn : n ∈ files t (.absolute l)) => isFileName_of_mem ht (mem_files.1 hn)
  have htrim : Trimmed l dropped t (healed root l t) := by
    cases dropped with
    | nil =>
      have hsame : healed root l t = t := h.tree.trans (without_eq_self (List.forall_mem_nil _))
      rw [hsame]
      exact .refl ht
    | cons name rest =>
      have hd := find_of_mem_files ht hl (h.dropped_sublist.subset List.mem_cons_self)
      exact h.trimmed ht hd fun n hn => (hfile n hn).1
  refine ⟨kept, dropped, h, htrim, fun name hkept => ?_, fun name hdropped content hfits hnode => ?_⟩
  · obtain ⟨hname, hext, -⟩ := hfile name (h.kept_sublist.subset hkept)
    rw [artifactIn?_absolute ht hl hname hext]
    apply onDisk?_congr
    rw [fileName_stemOf hext]
    exact htrim.node?_of_not_mem (h.not_mem_dropped (NameSet.nodup_names _) hkept)
  · have hmem := h.dropped_sublist.subset hdropped
    have hd := find_of_mem_files ht hl hmem
    have hgone := h.fileAt?_dropped ht hd (fun n hn => (hfile n hn).1) hdropped
    have hat := (fileAt?_joinText_iff (find_of_trimmed htrim hd) (hfile name hmem).1).2
      ⟨(nameable_absolute hl (hfile name hmem).1).2 hfits, rfl, content, hnode⟩
    exact absurd (hgone.symm.trans hat) nofun

namespace Healed

variable {kept dropped : List String}

theorem mem_kept (h : Healed root l t kept dropped) (ht : t.WellFormed) (hl : ∀ n ∈ l, IsFileName n)
    (hext : extensionOf? name = some fileExtension) (hfits : Fits (l ++ [name]))
    {content : List UInt8} (hnode : (healed root l t).node? (l ++ [name]) = some (.file content)) :
    name ∈ kept := by
  have hmem : name ∈ files t (.absolute l) := mem_files.2 ((mem_artifactFiles ht hl).2
    ⟨hext, hfits.of_concat, _, h.trimmed.node?_of_some hnode⟩)
  refine (List.mem_append.1 (h.underway.split.mem_iff.1 hmem)).resolve_right fun hdropped => ?_
  exact h.node?_dropped name hdropped content hfits hnode

theorem get?_found (h : Healed root l t kept dropped) (u : String) : (found root l t).get? u =
    if fileName u ∈ kept then artifactIn? t (.absolute l) (fileName u) else none := by
  have hget : (found root l t).get? u = Option.or _ none := h.underway.entries u
  rw [hget, Option.or_none]

end Healed

theorem load_trimmed (root : Path) (ht : t.WellFormed) (hl : ∀ n ∈ l, IsFileName n) :
    Trimmed l (files t (.absolute l)) t (healed root l t) := by
  obtain ⟨kept, dropped, h⟩ := exists_healed root ht hl
  exact h.trimmed.mono h.underway.dropped_sublist.subset

theorem get?_found (ht : t.WellFormed) (hl : ∀ n ∈ l, IsFileName n) (u : String) :
    (found root l t).get? u = onDisk? (healed root l t) l u := by
  obtain ⟨kept, dropped, h⟩ := exists_healed root ht hl
  rw [h.get?_found]
  split
  · rename_i hkept
    have hext := (isFileName_of_mem ht (mem_files.1 (h.underway.kept_sublist.subset hkept))).2.1
    rw [← h.onDisk?_kept _ hkept, ← (fileName_eq_iff hext).1 rfl]
  · rename_i hkept
    cases hdisk : onDisk? (healed root l t) l u with
    | none => rfl
    | some a =>
      obtain ⟨hu, hfits, content, -, hnode, -⟩ := onDisk?_eq_some_iff.1 hdisk
      exact absurd (h.mem_kept ht hl (extensionOf?_fileName hu) hfits hnode) hkept

theorem keyedByName_found (ht : t.WellFormed) (hl : ∀ n ∈ l, IsFileName n) :
    (found root l t).KeyedByName := by
  intro u a h
  rw [get?_found ht hl] at h
  exact name_of_onDisk? h

theorem source_of_load (ht : t.WellFormed) (hl : ∀ n ∈ l, IsFileName n)
    (ha : onDisk? (healed root l t) l u = some a) :
    t.pathExists (root.joinText a.sourcePath) = true := by
  obtain ⟨kept, dropped, h⟩ := exists_healed root ht hl
  rw [← get?_found ht hl, h.get?_found] at ha
  split at ha
  · rename_i hkept
    obtain ⟨b, hb, hsource⟩ := h.underway.valid _ hkept
    cases hb.symm.trans ha
    exact hsource
  · cases ha

/-- No artifact in the directory has its source there. -/
def Outside (root : Path) (l : Location) (t : FileTree) : Prop :=
  ∀ u a, onDisk? t l u = some a → ∀ name, t.locate (root.joinText a.sourcePath) ≠ .ok (l ++ [name])

theorem Outside.apart (h : Outside root l t) (ht : t.WellFormed) (hl : ∀ n ∈ l, IsFileName n) :
    SourcesApart root (.absolute l) t := by
  intro name hmem a ha k other hk
  obtain ⟨hname, hext, -⟩ := isFileName_of_mem ht hmem
  obtain ⟨-, rfl, -⟩ := (find_absolute_iff ht hl).1 hk
  rw [artifactIn?_absolute ht hl hname hext] at ha
  exact h _ a ha other

theorem onDisk?_healed_iff (ht : t.WellFormed) (hl : ∀ n ∈ l, IsFileName n)
    (hout : Outside root l t) : onDisk? (healed root l t) l u = some a ↔
      onDisk? t l u = some a ∧ t.pathExists (root.joinText a.sourcePath) = true := by
  rw [← get?_found ht hl, onDisk?_iff_artifactIn? ht hl, and_assoc]
  exact get?_read_iff true ht fun _ => hout.apart ht hl

theorem tidy_healed (root : Path) (ht : t.WellFormed) (hl : ∀ n ∈ l, IsFileName n) :
    Tidy (healed root l t) l := by
  intro name content hext hfits hnode
  obtain ⟨kept, dropped, h⟩ := exists_healed root ht hl
  have hkept := h.mem_kept ht hl hext hfits hnode
  obtain ⟨a, ha, -⟩ := h.underway.valid name hkept
  exact ⟨a, (h.onDisk?_kept name hkept).trans ha⟩

theorem node?_healed_eq_none_iff (ht : t.WellFormed) (hl : ∀ n ∈ l, IsFileName n)
    (hu : u ≠ "") (hfits : Fits (l ++ [fileName u])) {content : List UInt8}
    (hnode : t.node? (l ++ [fileName u]) = some (.file content)) :
    (healed root l t).node? (l ++ [fileName u]) = none ↔ (found root l t).get? u = none := by
  rw [get?_found ht hl]
  constructor
  · intro hgone
    rw [onDisk?, hgone]
    exact ite_self none
  · intro hnone
    rcases (load_trimmed root ht hl).node? (l ++ [fileName u]) with hsame | ⟨hgone, -⟩
    · obtain ⟨a, ha⟩ := tidy_healed root ht hl (fileName u) content (extensionOf?_fileName hu) hfits
        (hsame.trans hnode)
      rw [stemOf_fileName hu, hnone] at ha
      cases ha
    · exact hgone

theorem healed_eq (ht : t.WellFormed) (hl : ∀ n ∈ l, IsFileName n) (htidy : Tidy t l)
    (hsources : ∀ u a, onDisk? t l u = some a →
      t.pathExists (root.joinText a.sourcePath) = true) : healed root l t = t := by
  refine foldl_tree_eq (r := ⟨{}, {}, t⟩) fun _ name hmem => ?_
  obtain ⟨hname, hext, -⟩ := isFileName_of_mem ht (mem_files.1 hmem)
  cases hat : t.fileAt? ((Path.absolute l).joinText name) with
  | none => exact Or.inr rfl
  | some k =>
    have hd := find_of_mem_files ht hl hmem
    obtain ⟨hnameable, -, content, hnode⟩ := (fileAt?_joinText_iff hd hname).1 hat
    obtain ⟨a, ha⟩ := htidy name content hext ((nameable_absolute hl hname).1 hnameable) hnode
    exact Or.inl ⟨a, (readValid?_eq_some_iff root ht hl hname hext).2 ⟨ha, hsources _ a ha⟩⟩

theorem get?_found_of_tidy (ht : t.WellFormed) (hl : ∀ n ∈ l, IsFileName n) (htidy : Tidy t l)
    (hsources : ∀ u a, onDisk? t l u = some a →
      t.pathExists (root.joinText a.sourcePath) = true) (u : String) :
    (found root l t).get? u = onDisk? t l u := by
  rw [get?_found ht hl, healed_eq ht hl htidy hsources]

def inspected (root : Path) (l : Location) (t : FileTree) : Store :=
  ((persistent (.absolute l)).inspect root t).2

theorem get?_inspected_iff (ht : t.WellFormed) (hl : ∀ n ∈ l, IsFileName n) :
    (inspected root l t).get? u = some a ↔
      onDisk? t l u = some a ∧ t.pathExists (root.joinText a.sourcePath) = true := by
  rw [onDisk?_iff_artifactIn? ht hl, and_assoc]
  exact get?_read_iff false ht nofun

theorem get?_inspected (ht : t.WellFormed) (hl : ∀ n ∈ l, IsFileName n) (hout : Outside root l t)
    (u : String) : (inspected root l t).get? u = (found root l t).get? u := by
  refine Option.ext fun a => ?_
  rw [get?_inspected_iff ht hl, get?_found ht hl, onDisk?_healed_iff ht hl hout]

end Load

end ContractBuild.Store
