import ContractBuild.Proofs.Copies

/-! Loading into an empty store heals the directory: what is left, and what a further load finds. -/

namespace ContractBuild.Store

open FileTree ContractBuild.Path

section Again

variable {t t' : FileTree} {root d : Path} {l : Location} {name : String} {a : Artifact}

theorem artifactIn?_of_canonicalText (hd : t.find d = .ok (l, .directory)) (hname : IsFileName name)
    (hnameable : Nameable d name) (hread : a.ReadsBack)
    (hnode : t.node? (l ++ [name]) = some (.file (Text.bytes a.canonicalText))) :
    artifactIn? t d name = if a.name = stemOf name then some a else none := by
  ext b
  rw [artifactIn?_eq_some_iff hd hname, hnode]
  constructor
  · rintro ⟨-, content, text, hcontent, htext, hb, hstem⟩
    cases hcontent
    cases (Text.ofBytes?_bytes _).symm.trans htext
    cases hread.symm.trans hb
    rw [if_pos hstem]
  · intro h
    split at h
    · rename_i hstem
      cases h
      exact ⟨hnameable, _, _, rfl, Text.ofBytes?_bytes _, hread, hstem⟩
    · cases h

theorem validFiles_of_trimmed (hapart : SourcesApart root d t) (ht : t.WellFormed)
    (hd : t.find d = .ok (l, .directory)) (htrim : Trimmed l (invalidFiles root d t) t t') :
    validFiles root d t' = validFiles root d t := by
  have hmem : ∀ name, name ∈ validFiles root d t' ↔ name ∈ validFiles root d t := by
    intro name
    rw [validFiles, validFiles, List.mem_filter, List.mem_filter, mem_files, mem_files,
      mem_artifactFiles_of_trimmed htrim hd]
    constructor
    · rintro ⟨⟨hfile, node, hnode⟩, hvalid⟩
      rw [readValid?_of_trimmed hapart htrim ht hd hfile
        (hnode.trans (htrim.node?_of_some hnode).symm)] at hvalid
      exact ⟨hfile, hvalid⟩
    · rintro ⟨hfile, hvalid⟩
      have hstays : name ∉ invalidFiles root d t := fun h =>
        (mem_invalidFiles.1 h).2 (List.mem_filter.2 ⟨mem_files.2 hfile, hvalid⟩)
      have hnode := htrim.node?_of_not_mem hstays
      obtain ⟨node, hthere⟩ := (mem_list_iff hd).1 (List.mem_filter.1 hfile).1
      rw [readValid?_of_trimmed hapart htrim ht hd hfile hnode]
      exact ⟨⟨hfile, node, hnode.trans hthere⟩, hvalid⟩
  have hsame := NameSet.ext_mem (s := ⟨_, (files_ascending t' d).filter _⟩)
    (t := ⟨_, (files_ascending t d).filter _⟩) hmem
  exact congrArg NameSet.names hsame

theorem left_of_mem_invalidFiles {r : Reading} {base : NameMap Artifact} (hapart : SourcesApart root d t)
    (ht : t.WellFormed) (hd : t.find d = .ok (l, .directory))
    (h : Underway true root d t base (files t d) (validFiles root d t) (invalidFiles root d t) r)
    (hmem : name ∈ invalidFiles root d r.tree) :
    name ∈ invalidFiles root d t ∧ r.tree.fileAt? (d.joinText name) = none ∧
      (t.isDirectory (d.joinText name) = true ∨ maxPathLength < (d.joinText name).byteLength) := by
  have htrim := h.trimmed ht hd (isFileName_of_mem_files ht)
  obtain ⟨hfile, hout⟩ := mem_invalidFiles.1 hmem
  rw [validFiles_of_trimmed hapart ht hd htrim] at hout
  obtain ⟨hbefore, node, hnode⟩ := (mem_artifactFiles_of_trimmed htrim hd).1 (mem_files.1 hfile)
  have hinvalid := mem_invalidFiles.2 ⟨mem_files.2 hbefore, hout⟩
  have hname := (isFileName_of_mem ht hbefore).1
  have hgone := h.fileAt?_dropped ht hd (isFileName_of_mem_files ht) hinvalid
  refine ⟨hinvalid, hgone, ?_⟩
  by_cases hnameable : Nameable d name
  · left
    cases node with
    | directory =>
      rw [isDirectory, (find_joinText_iff hd hname).2 ⟨hnameable, rfl, htrim.node?_of_some hnode⟩]
    | file content =>
      have hat := (fileAt?_joinText_iff (find_of_trimmed htrim hd) hname).2
        ⟨hnameable, rfl, content, hnode⟩
      rw [hgone] at hat
      cases hat
  · exact Or.inr (Nat.lt_of_not_le hnameable)

theorem load_of_not_nameable (ht : t.WellFormed) (hapart : SourcesApart root d t)
    (hd : t.find d = .ok (l, .directory)) (hmem : name ∈ invalidFiles root d t)
    (hlong : ¬ Nameable d name) :
    d.joinText name ∈ ((persistent d).load root t).1.discarded ∧
      ((persistent d).load root t).2.2.node? (l ++ [name]) = t.node? (l ++ [name]) := by
  have h := read_of_apart true (s := persistent d) ht (fun _ => hapart) rfl
  have hdiscarded : ((persistent d).load root t).1.discarded = _ := h.discarded
  have htree : ((persistent d).load root t).2.2 = t.without _ := h.tree
  rw [hdiscarded, htree, node?_without, if_neg]
  · exact ⟨List.mem_map_of_mem hmem, rfl⟩
  · rintro ⟨p, hp, hat⟩
    obtain ⟨other, hother, rfl⟩ := List.mem_map.1 hp
    have hname := isFileName_of_mem_files ht other (mem_invalidFiles.1 hother).1
    obtain ⟨hnameable, hsame, -⟩ := (fileAt?_joinText_iff hd hname).1 hat
    rw [List.append_cancel_left_eq, List.cons.injEq] at hsame
    exact hlong (hsame.1 ▸ hnameable)

theorem read_again {r again : Reading} (ht : t.WellFormed) (hapart : SourcesApart root d t)
    (hr : read true root (persistent d) t = r)
    (hagain : read true root (persistent d) r.tree = again) :
    again.tree = r.tree ∧ again.entries = r.entries ∧ again.report.loaded = r.report.loaded ∧
      ∀ p ∈ again.report.discarded, p ∈ r.report.discarded ∧
        (t.isDirectory p = true ∨ maxPathLength < p.byteLength) := by
  have h := read_of_apart true (s := persistent d) ht (fun _ => hapart) rfl
  rw [hr] at h
  by_cases hdir : ∃ l, t.find d = .ok (l, .directory)
  · obtain ⟨l, hd⟩ := hdir
    have htrim := h.trimmed ht hd (isFileName_of_mem_files ht)
    have h' := read_of_apart true (s := persistent d) htrim.wellFormed
      (fun _ => hapart.of_trimmed htrim ht hd) rfl
    rw [hagain, validFiles_of_trimmed hapart ht hd htrim] at h'
    have hleft : ∀ name ∈ invalidFiles root d r.tree, _ :=
      fun _ => left_of_mem_invalidFiles hapart ht hd h
    refine ⟨?_, NameMap.ext_get? fun u => ?_, h'.loaded.trans h.loaded.symm, ?_⟩
    · exact h'.tree.trans (without_eq_self (List.forall_mem_map.2 fun name hname =>
        (hleft name hname).2.1))
    · -- The valid files are still there, and hold what they held.
      rw [h'.entries, h.entries]
      by_cases hu : fileName u ∈ validFiles root d t
      · have hkept := htrim.node?_of_not_mem (h.not_mem_dropped (files_ascending t d).nodup hu)
        have hname := isFileName_of_mem_files ht _ (mem_validFiles.1 hu).1
        rw [artifactIn?_congr hd (find_of_trimmed htrim hd) hname hkept]
      · rw [if_neg hu, if_neg hu]
    · rw [h'.discarded, h.discarded]
      refine List.forall_mem_map.2 fun name hname => ?_
      obtain ⟨hinvalid, -, hkind⟩ := hleft name hname
      exact ⟨List.mem_map_of_mem hinvalid, hkind⟩
  · -- Where there is no directory there is nothing to delete.
    have hnone : invalidFiles root d t = [] := by
      refine List.eq_nil_iff_forall_not_mem.2 fun name hname => hdir ?_
      exact (isFileName_of_mem ht (mem_files.1 (mem_invalidFiles.1 hname).1)).2.2
    rw [hnone] at h
    have htree : r.tree = t := h.tree.trans (without_eq_self (List.forall_mem_nil _))
    rw [htree, hr] at hagain
    cases hagain
    refine ⟨rfl, rfl, rfl, ?_⟩
    rw [h.discarded]
    exact List.forall_mem_nil _

end Again

/-- What is discarded and stays is a directory, or has a path that is too long. -/
theorem load_heals {root d : Path} {t t' : FileTree} {report : LoadReport} {s : Store}
    (ht : t.WellFormed) (hapart : SourcesApart root d t)
    (hload : (persistent d).load root t = (report, s, t')) :
    (persistent d).inspect root t = (report, s) ∧
    (read false root (persistent d) t).tree = t ∧
    (files t d).Pairwise (· < ·) ∧
    (∀ name, name ∈ files t d ↔ name ∈ t.list d ∧ extensionOf? name = some fileExtension) ∧
    report.loaded = (validFiles root d t).map stemOf ∧
    report.discarded = (invalidFiles root d t).map d.joinText ∧
    (∀ u a, s.get? u = some a ↔ fileName u ∈ files t d ∧ artifactIn? t d (fileName u) = some a ∧
      t.pathExists (root.joinText a.sourcePath) = true) ∧
    t' = t.without report.discarded ∧
    ∃ again, (persistent d).load root t' = (again, s, t') ∧ again.loaded = report.loaded ∧
      ∀ p ∈ again.discarded, p ∈ report.discarded ∧
        (t.isDirectory p = true ∨ maxPathLength < p.byteLength) := by
  have h := read_of_apart true (s := persistent d) ht (fun _ => hapart) rfl
  have hinspect := read_of_apart false (s := persistent d) ht (fun _ => hapart) rfl
  cases hload
  refine ⟨?_, hinspect.tree, files_ascending t d, fun name => ?_, h.loaded, h.discarded,
    fun u a => ?_, ?_, ?_⟩
  · obtain ⟨hreport, hentries⟩ := h.agree hinspect
    rw [inspect, hreport, hentries]
  · rw [mem_files, artifactFiles, List.mem_filter, beq_iff_eq]
  · exact get?_read_iff true ht fun _ => hapart
  · rw [h.discarded]
    exact h.tree
  · obtain ⟨htree, hentries, hloaded, hdiscarded⟩ := read_again ht hapart rfl rfl
    exact ⟨_, Prod.ext rfl (Prod.ext (congrArg (Store.mk (some d)) hentries) htree), hloaded, hdiscarded⟩

namespace SampleLitter

open Project (artifactsAt)
open Project.Sample (root start)

def place : Location := artifactsAt root

def directory : Path := .absolute place

def tree : FileTree :=
  { start with nodes := start.nodes ++
    [(place ++ ["D.json"], .file (Text.bytes (Sample.artifact "D").canonicalText)),
      (place ++ ["E.json"], .file (Text.bytes (Sample.artifact "D").canonicalText)),
      (place ++ ["F.json"], .directory),
      (place ++ ["G.json"], .file (Text.bytes (Sample.artifact "G").canonicalText)),
      (place ++ ["H.json"], .file [255])] }

theorem tree_wellFormed : tree.WellFormed := ⟨by decide, by decide, by decide⟩

theorem find_directory : tree.find directory = .ok (place, .directory) := by decide

theorem files_tree : files tree directory = ["D.json", "E.json", "F.json", "G.json", "H.json"] := by
  decide

theorem artifactIn?_tree {name : String} {a : Artifact} (h : artifactIn? tree directory name = some a)
    (hname : name ∈ files tree directory) :
    (name = "D.json" ∧ a = Sample.artifact "D") ∨ (name = "G.json" ∧ a = Sample.artifact "G") := by
  rw [files_tree] at hname
  have hall : ∀ n ∈ ["D.json", "E.json", "F.json", "G.json", "H.json"],
      IsFileName n ∧ Nameable directory n := by decide
  obtain ⟨hfile, hnameable⟩ := hall name hname
  have hwritten := fun u => artifactIn?_of_canonicalText find_directory hfile hnameable
    (Sample.artifact_readsBack u)
  simp only [List.mem_cons, List.not_mem_nil, or_false] at hname
  rcases hname with rfl | rfl | rfl | rfl | rfl
  · rw [hwritten "D" rfl, if_pos (by decide)] at h
    cases h
    exact Or.inl ⟨rfl, rfl⟩
  · rw [hwritten "D" rfl, if_neg (by decide)] at h
    cases h
  · obtain ⟨-, content, text, hnode, -⟩ := (artifactIn?_eq_some_iff find_directory hfile).1 h
    cases hnode
  · rw [hwritten "G" rfl, if_pos (by decide)] at h
    cases h
    exact Or.inr ⟨rfl, rfl⟩
  · obtain ⟨-, content, text, hnode, htext, -⟩ := (artifactIn?_eq_some_iff find_directory hfile).1 h
    cases hnode
    have hnone : Text.ofBytes? [255] = none := by decide
    rw [hnone] at htext
    cases htext

theorem tree_apart : SourcesApart (.absolute root) directory tree := by
  intro name hmem a ha l other hd hlocate
  have hsource : ∀ u ∈ ["D", "G"], tree.locate
      ((Path.absolute root).joinText (Sample.artifact u).sourcePath) =
        .ok (root ++ [SourceSet.directory, u ++ ".sol"]) := by decide
  cases find_directory.symm.trans hd
  have hu : ∃ u ∈ ["D", "G"], a = Sample.artifact u := by
    rcases artifactIn?_tree ha (mem_files.2 hmem) with ⟨-, rfl⟩ | ⟨-, rfl⟩
    · exact ⟨"D", by decide, rfl⟩
    · exact ⟨"G", by decide, rfl⟩
  obtain ⟨u, hmemu, rfl⟩ := hu
  have hlength := congrArg List.length (Except.ok.inj ((hsource u hmemu).symm.trans hlocate))
  rw [List.length_append, List.length_append] at hlength
  revert hlength
  exact nofun

theorem mem_validFiles_tree {name : String} :
    name ∈ validFiles (.absolute root) directory tree ↔ name = "D.json" := by
  rw [mem_validFiles]
  constructor
  · rintro ⟨hname, a, ha, hsource⟩
    rcases artifactIn?_tree ha hname with ⟨hn, -⟩ | ⟨-, rfl⟩
    · exact hn
    · exact absurd hsource (by decide)
  · rintro rfl
    refine ⟨by decide, Sample.artifact "D", ?_, by decide⟩
    rw [artifactIn?_of_canonicalText find_directory (by decide) (by decide)
      (Sample.artifact_readsBack "D") rfl, if_pos (by decide)]

theorem report_tree : (validFiles (.absolute root) directory tree).map stemOf = ["D"] ∧
    invalidFiles (.absolute root) directory tree = ["E.json", "F.json", "G.json", "H.json"] := by
  have hvalid : ∀ name ∈ files tree directory,
      (readValid? tree (.absolute root) directory name).isSome = (name == "D.json") := by
    intro name hname
    rw [Bool.eq_iff_iff, beq_iff_eq, ← mem_validFiles_tree, validFiles, List.mem_filter,
      and_iff_right hname]
  rw [validFiles, invalidFiles, List.filter_congr hvalid,
    List.filter_congr fun name hname => congrArg (!·) (hvalid name hname), files_tree]
  decide

end SampleLitter

theorem load_heals_littered :
    SampleLitter.tree.WellFormed ∧
    SourcesApart (.absolute Project.Sample.root) SampleLitter.directory SampleLitter.tree ∧
    ((persistent SampleLitter.directory).load (.absolute Project.Sample.root) SampleLitter.tree).1 =
      ⟨["D"], ["E.json", "F.json", "G.json", "H.json"].map SampleLitter.directory.joinText⟩ ∧
    (((persistent SampleLitter.directory).load (.absolute Project.Sample.root)
      SampleLitter.tree).2.2.children SampleLitter.place) = ["D.json", "F.json"] := by
  rcases hload : (persistent SampleLitter.directory).load (.absolute Project.Sample.root)
    SampleLitter.tree with ⟨report, s, t'⟩
  obtain ⟨-, -, -, -, hloaded, hdiscarded, -, hleft, -⟩ :=
    load_heals SampleLitter.tree_wellFormed SampleLitter.tree_apart hload
  obtain ⟨hvalid, hinvalid⟩ := SampleLitter.report_tree
  rw [hvalid] at hloaded
  rw [hinvalid] at hdiscarded
  refine ⟨SampleLitter.tree_wellFormed, SampleLitter.tree_apart, ?_, ?_⟩
  · rw [← hloaded, ← hdiscarded]
  · rw [hleft, hdiscarded]
    dsimp only
    decide

namespace SampleDeep

open Project (artifactsAt)
open Project.Sample (root start)

def directory : Path := ⟨["", "p"] ++ (List.replicate 2036 "." ++ ["build", "contracts"])⟩

def file : String := "D.json"

def tree : FileTree := { start with nodes := start.nodes ++ [(artifactsAt root ++ [file], .file [])] }

theorem walk_idle_steps {t : FileTree} {l : Location} (h : t.node? l = some .directory) (n : Nat)
    (rest : List String) : t.walk l (List.replicate n "." ++ rest) = t.walk l rest := by
  induction n with
  | zero => rfl
  | succ n ih => rw [List.replicate_succ, List.cons_append, walk_cons h, if_pos (by decide), ih]

theorem utf8ByteSize_idle_steps (n : Nat) {rest : List String} (hrest : rest ≠ []) :
    ("/".intercalate (List.replicate n "." ++ rest)).utf8ByteSize =
      2 * n + ("/".intercalate rest).utf8ByteSize := by
  induction n with
  | zero => rw [List.replicate_zero, List.nil_append, Nat.mul_zero, Nat.zero_add]
  | succ n ih =>
    have hsizes : ".".utf8ByteSize = 1 ∧ "/".utf8ByteSize = 1 := by decide
    rw [List.replicate_succ, List.cons_append,
      String.intercalate_cons_of_ne_nil (List.append_ne_nil_of_right_ne_nil _ hrest),
      String.utf8ByteSize_append, String.utf8ByteSize_append, ih, hsizes.1, hsizes.2]
    omega

theorem byteLength_directory : directory.byteLength = 4090 := by
  have hends : ("/".intercalate ["", "p"]).utf8ByteSize = 2 ∧ "/".utf8ByteSize = 1 ∧
      ("/".intercalate ["build", "contracts"]).utf8ByteSize = 15 := by decide
  rw [byteLength, Path.text, directory,
    String.intercalate_append_of_ne_nil (List.cons_ne_nil _ _)
      (List.append_ne_nil_of_right_ne_nil _ (List.cons_ne_nil _ _)),
    String.utf8ByteSize_append, String.utf8ByteSize_append,
    utf8ByteSize_idle_steps _ (List.cons_ne_nil _ _), hends.1, hends.2.1, hends.2.2]

theorem text_directory_ne : directory.text ≠ "" := by
  intro h
  have hlength := byteLength_directory
  rw [byteLength, h] at hlength
  cases hlength

theorem find_directory : tree.find directory = .ok (artifactsAt root, .directory) := by
  refine find_eq_ok_iff.2 ⟨locate_eq_ok_iff.2 ⟨?_, text_directory_ne, ?_, ?_⟩, by decide⟩
  · refine List.forall_mem_append.2 ⟨by decide, List.forall_mem_append.2 ⟨fun s hs => ?_, by decide⟩⟩
    rw [List.eq_of_mem_replicate hs]
    decide
  · rw [byteLength_directory]
    decide
  · have habsolute : ∀ more, (⟨["", "p"] ++ more⟩ : Path).isAbsolute = true := by
      intro more
      simp [isAbsolute]
    have hstart : tree.walk [] ["", "p"] = .ok root := by decide
    rw [startOf, directory, if_pos (habsolute _)]
    refine (walk_append _ _).2 ⟨root, hstart, ?_⟩
    rw [walk_idle_steps (by decide)]
    decide

theorem not_nameable : ¬ Nameable directory file := by
  have hslash : '/' ∉ file.toList := by decide
  obtain ⟨more, htext⟩ := text_joinText text_directory_ne hslash
  have hlength := byteLength_directory
  have hname : file.utf8ByteSize = 6 := by decide
  rw [byteLength] at hlength
  rw [Nameable, byteLength, htext, String.utf8ByteSize_append, String.utf8ByteSize_append, hlength,
    hname, maxPathLength]
  omega

theorem files_tree : files tree directory = [file] := by
  have hlist : tree.list directory = [file] := by
    rw [FileTree.list, find_directory]
    decide
  rw [files, artifactFiles, hlist]
  decide

theorem tree_wellFormed : tree.WellFormed := ⟨by decide, by decide, by decide⟩

theorem artifactIn?_tree : artifactIn? tree directory file = none := by
  apply Option.eq_none_iff_forall_ne_some.2
  intro a ha
  exact not_nameable ((artifactIn?_eq_some_iff find_directory (by decide)).1 ha).1

theorem tree_apart (root : Path) : SourcesApart root directory tree := by
  intro name hmem a ha
  have hname : name ∈ files tree directory := mem_files.2 hmem
  rw [files_tree, List.mem_singleton] at hname
  rw [hname, artifactIn?_tree] at ha
  cases ha

theorem file_invalid (root : Path) : file ∈ invalidFiles root directory tree := by
  refine mem_invalidFiles.2 ⟨by rw [files_tree]; exact List.mem_cons_self, fun hvalid => ?_⟩
  obtain ⟨-, a, ha, -⟩ := mem_validFiles.1 hvalid
  rw [artifactIn?_tree] at ha
  cases ha

end SampleDeep

theorem load_keeps_overlong_file :
    let root := Path.absolute Project.Sample.root
    let place := Project.artifactsAt Project.Sample.root
    SampleDeep.tree.WellFormed ∧ SourcesApart root SampleDeep.directory SampleDeep.tree ∧
    SampleDeep.tree.find SampleDeep.directory = .ok (place, .directory) ∧
    SampleDeep.directory.joinText SampleDeep.file ∈
      ((persistent SampleDeep.directory).load root SampleDeep.tree).1.discarded ∧
    ((persistent SampleDeep.directory).load root SampleDeep.tree).2.2.node?
      (place ++ [SampleDeep.file]) = some (.file []) := by
  have hapart := SampleDeep.tree_apart (.absolute Project.Sample.root)
  obtain ⟨hdiscarded, hleft⟩ := load_of_not_nameable SampleDeep.tree_wellFormed hapart
    SampleDeep.find_directory (SampleDeep.file_invalid _) SampleDeep.not_nameable
  exact ⟨SampleDeep.tree_wellFormed, hapart, SampleDeep.find_directory, hdiscarded,
    hleft.trans (by decide)⟩

end ContractBuild.Store
