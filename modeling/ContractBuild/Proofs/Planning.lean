import ContractBuild.Proofs.Agreement
import ContractBuild.Proofs.Opening

/-! What a plan says and what a load does. A plan looks at a tree as it is; a load comes after an
opening, so that directories have been made and the artifacts have been read twice. -/

namespace ContractBuild

open FileTree ContractBuild.Path Store

theorem get?_staleReasons {sources : SourceSet} {store : Store} {settings : Settings} {u : String}
    {s : Staleness} : (staleReasons sources store settings).get? u = some s ↔
      sources.containsUnit u = true ∧ check sources store settings u = s ∧ s ≠ .fresh := by
  rw [staleReasons, SourceSet.containsUnit, NameMap.contains_iff, NameMap.get?_filterMap,
    Option.bind_eq_some_iff]
  constructor
  · rintro ⟨info, hinfo, h⟩
    dsimp only at h
    split at h
    · rename_i hstale
      cases h
      exact ⟨⟨info, hinfo⟩, rfl, bne_iff_ne.1 hstale⟩
    · cases h
  · rintro ⟨⟨info, hinfo⟩, rfl, hstale⟩
    exact ⟨info, hinfo, if_pos (bne_iff_ne.2 hstale)⟩

theorem nameSet_staleReasons (sources : SourceSet) (store : Store) (settings : Settings) :
    (staleReasons sources store settings).nameSet = staleUnits sources store settings := by
  refine NameSet.ext_mem fun u => ?_
  rw [NameMap.mem_nameSet, NameMap.contains_iff, mem_staleUnits]
  constructor
  · rintro ⟨s, hs⟩
    obtain ⟨hdeclared, rfl, hstale⟩ := get?_staleReasons.1 hs
    exact ⟨hdeclared, hstale⟩
  · rintro ⟨hdeclared, hstale⟩
    exact ⟨_, get?_staleReasons.2 ⟨hdeclared, rfl, hstale⟩⟩

theorem nothing_stale_of_no_units {sources : SourceSet} (h : ∀ u, sources.containsUnit u = false)
    {store : Store} (hstore : store.KeyedByName) (settings : Settings) :
    staleUnits sources store settings = {} ∧ rebuildSet sources store settings = {} := by
  have hnone : ∀ u, u ∉ staleUnits sources store settings := by
    intro u hu
    have hdeclared := stale_subset_declared hu
    rw [h u] at hdeclared
    cases hdeclared
  constructor
  · exact NameSet.ext_mem fun u => iff_of_false (hnone u) (NameSet.not_mem_empty u)
  · refine NameSet.ext_mem fun u => iff_of_false ?_ (NameSet.not_mem_empty u)
    intro hu
    obtain ⟨v, hv, -⟩ := (mem_rebuildSet_iff hstore).1 hu
    exact hnone v hv

namespace Project

section Twice

variable {root : Location} {t : FileTree}

theorem readAt_healedAt (ht : t.WellFormed) (hroot : ∀ n ∈ root, IsFileName n)
    (hout : Outside (.absolute root) (artifactsAt root) t) :
    readAt root (healedAt root t) = readAt root t ∧
      healedAt root (healedAt root t) = healedAt root t := by
  have hl := isFileName_artifactsAt hroot
  have htrim := load_trimmed (.absolute root) ht hl
  have hs : (readAt root t).Mirrored (artifactsAt root) (healedAt root t) :=
    found_mirrored _ ht hl
  refine readAt_of_mirrored hroot hs fun u a ha => ?_
  have hdisk := (get?_found ht hl u).symm.trans ha
  have hbefore := htrim.onDisk?_of_some hdisk
  exact (htrim.pathExists_iff_of_outside (hout u a hbefore)).2 (source_of_load ht hl hdisk)

theorem entries_readAt_eq_inspected (ht : t.WellFormed) (hroot : ∀ n ∈ root, IsFileName n)
    (hout : Outside (.absolute root) (artifactsAt root) t) :
    readAt root t = inspected (.absolute root) (artifactsAt root) t := by
  have hentries : (readAt root t).entries =
      (inspected (.absolute root) (artifactsAt root) t).entries :=
    NameMap.ext_get? fun u => (get?_inspected ht (isFileName_artifactsAt hroot) hout u).symm
  exact congrArg (Store.mk _) hentries

end Twice

section Opened

variable {root : Location} {t made t' : FileTree} {p : Project}

theorem Opened.scan_before (ht : t.WellFormed) (h : Opened root t made p t') :
    SourceSet.scan (.absolute root) t = .ok p.sources := by
  have hmade := h.extends_made
  have hleft : ∀ below, t'.node? (SourceSet.sourcesAt root ++ below) =
      made.node? (SourceSet.sourcesAt root ++ below) := by
    rw [h.tree]
    exact node?_healedAt_source hmade.wellFormed h.names
  refine SourceSet.scan_of_sameFiles h.wellFormed ht h.names ?_ ?_ h.scan
  · intro below _ node hnode
    rw [hleft]
    exact hmade.kept _ _ hnode
  · intro below _ content hnode
    rw [hleft] at hnode
    exact hmade.added _ _ hnode

theorem Opened.made_eq_of_onDisk? (ht : t.WellFormed) (h : Opened root t made p t')
    (hsources : t.node? (SourceSet.sourcesAt root) = some .directory) {u : String} {a : Artifact}
    (ha : onDisk? t (artifactsAt root) u = some a) : made = t := by
  obtain ⟨content, hnode⟩ := node?_of_onDisk? ha
  have hartifacts : t.node? (artifactsAt root) = some .directory :=
    ht.directory_above hnode (List.cons_ne_nil _ _)
  have hbelow : t.node? ((root ++ ["build"]) ++ ["contracts"]) = some .directory := by
    rw [List.append_assoc]
    exact hartifacts
  have hbuild : t.node? (root ++ ["build"]) = some .directory :=
    ht.directory_above hbelow (List.cons_ne_nil _ _)
  refine h.made_eq fun l hl => ?_
  rw [directoriesAt, List.mem_cons, List.mem_cons, List.mem_singleton] at hl
  rcases hl with rfl | rfl | rfl <;> assumption

theorem Opened.sources_directory (ht : t.WellFormed) (h : Opened root t made p t') {u : String}
    (hu : p.sources.containsUnit u = true) :
    t.node? (SourceSet.sourcesAt root) = some .directory := by
  have hscan := h.scan_before ht
  obtain ⟨files, hfiles⟩ := SourceSet.scan_ok hscan
  rw [hfiles] at hscan hu
  obtain ⟨source, hsource⟩ := SourceSet.containsUnit_iff.1 hu
  obtain ⟨text, htext, -⟩ := SourceSet.declared_at_path hsource
  obtain ⟨below, -, hat⟩ := (SourceSet.get?_scan_iff ht h.names hscan).1 htext
  obtain ⟨content, hnode, -⟩ := hat.file
  exact ht.directory_above hnode hat.isSource.ne_nil

theorem keyedByName_inspected (ht : t.WellFormed) (hroot : ∀ n ∈ root, IsFileName n) :
    (inspected (.absolute root) (artifactsAt root) t).KeyedByName :=
  fun _ _ ha => name_of_onDisk? ((get?_inspected_iff ht (isFileName_artifactsAt hroot)).1 ha).1

theorem Opened.readAt_eq_inspected (ht : t.WellFormed) (h : Opened root t made p t')
    (hout : Outside (.absolute root) (artifactsAt root) t)
    (hsources : t.node? (SourceSet.sourcesAt root) = some .directory) :
    readAt root t' = inspected (.absolute root) (artifactsAt root) t := by
  have hl := isFileName_artifactsAt h.names
  have hmade := h.extends_made
  by_cases hany : ∃ u a, onDisk? t (artifactsAt root) u = some a
  · -- There is an artifact, so all directories are there, and opening has made none.
    obtain ⟨u, a, ha⟩ := hany
    have hsame := h.made_eq_of_onDisk? ht hsources ha
    rw [h.tree, hsame, (readAt_healedAt ht h.names hout).1, entries_readAt_eq_inspected ht h.names hout]
  · have hnone : ∀ u, onDisk? t (artifactsAt root) u = none := by
      push Not at hany
      exact fun u => Option.eq_none_iff_forall_ne_some.2 (hany u)
    have hentries : (readAt root t').entries =
        (inspected (.absolute root) (artifactsAt root) t).entries := by
      refine NameMap.ext_get? fun u => Option.ext fun a => ?_
      refine iff_of_false (fun ha => ?_) fun ha => ?_
      · have hdisk := (get?_found h.wellFormed hl u).symm.trans ha
        have hread := (load_trimmed _ h.wellFormed hl).onDisk?_of_some hdisk
        rw [h.tree] at hread
        have hbefore := (load_trimmed _ hmade.wellFormed hl).onDisk?_of_some hread
        rw [onDisk?_of_extends hmade, hnone] at hbefore
        cases hbefore
      · have hdisk := ((get?_inspected_iff ht hl).1 ha).1
        rw [hnone] at hdisk
        cases hdisk
    exact congrArg (Store.mk _) hentries

theorem Opened.stale_eq (ht : t.WellFormed) (h : Opened root t made p t')
    (hout : Outside (.absolute root) (artifactsAt root) t) (settings : Settings) :
    staleUnits p.sources (readAt root t') settings =
        staleUnits p.sources (inspected (.absolute root) (artifactsAt root) t) settings ∧
      rebuildSet p.sources (readAt root t') settings =
        rebuildSet p.sources (inspected (.absolute root) (artifactsAt root) t) settings := by
  have hl := isFileName_artifactsAt h.names
  by_cases hdeclared : ∃ u, p.sources.containsUnit u = true
  · obtain ⟨u, hu⟩ := hdeclared
    rw [h.readAt_eq_inspected ht hout (h.sources_directory ht hu)]
    exact ⟨rfl, rfl⟩
  · have hno : ∀ u, p.sources.containsUnit u = false := by
      push Not at hdeclared
      exact fun u => Bool.eq_false_iff.2 (hdeclared u)
    obtain ⟨hstale, hclosure⟩ := nothing_stale_of_no_units hno
      (keyedByName_found h.wellFormed hl : (readAt root t').KeyedByName) settings
    obtain ⟨hstale', hclosure'⟩ := nothing_stale_of_no_units hno
      (keyedByName_inspected ht h.names) settings
    exact ⟨hstale.trans hstale'.symm, hclosure.trans hclosure'.symm⟩

end Opened

theorem inspectAt_eq {path : Path} {root : Location} {node : Node} {t : FileTree}
    {sources : SourceSet} (name : Option String) (hroot : ∀ n ∈ root, IsFileName n)
    (hfind : t.find path = .ok (root, node))
    (hscan : SourceSet.scan (.absolute root) t = .ok sources) :
    inspectAt path name t =
      .ok ⟨name.getD (nameOfDirectory ((Path.absolute root).segments.getLastD "")), .absolute root,
        sources, inspected (.absolute root) (artifactsAt root) t, {}, .idle⟩ := by
  rw [inspectAt, canonicalRoot, FileTree.canonical, hfind]
  dsimp only [Except.mapError]
  rw [storeIn_absolute hroot, ← inspected, ofStore, hscan]

theorem plan_eq {p : Project} {t : FileTree} {sources : SourceSet}
    (hscan : SourceSet.scan p.root t = .ok sources) (settings : Settings) :
    p.plan settings t = .ok
      ⟨staleReasons sources p.store settings, rebuildSet sources p.store settings⟩ := by
  rw [plan, hscan]
  dsimp only
  rw [nameSet_staleReasons, rebuildSet]

/-- Looking at a project tells what a load will find to do, whatever the compiler. -/
theorem plan_agrees_with_load {path : Path} {root : Location} {node : Node} {t : FileTree}
    (name : Option String) (settings : Settings) (ht : t.WellFormed)
    (hfind : t.find path = .ok (root, node)) (hout : Outside (.absolute root) (artifactsAt root) t) :
    (Store.read false (.absolute root) (storeIn (.absolute root)) t).tree = t ∧
    ∀ (p : Project) (t' : FileTree) (registry : Registry) (compiler : FileTree → Compiler)
      (summary : BuildSummary), openAt path name t = (.ok p, t') →
      (p.load registry compiler settings t').result = .ok summary →
      ∃ looked plan, inspectAt path name t = .ok looked ∧ looked.root = .absolute root ∧
        looked.plan settings t = .ok plan ∧ plan.stale.nameSet = summary.stale ∧
        plan.closure = summary.closure := by
  have hroot : ∀ n ∈ root, IsFileName n := ht.names (find_eq_ok_iff.1 hfind).2
  constructor
  · rw [storeIn_absolute hroot, Store.read]
    exact foldl_inspect_tree _ _ _ _
  · intro p t' registry compiler summary hopen h
    obtain ⟨root', node', made, hfind', hopened⟩ := openAt_ok ht hopen
    cases hfind.symm.trans hfind'
    have hscan := hopened.scan_before ht
    obtain ⟨hstale, hclosure⟩ := hopened.stale_eq ht hout settings
    obtain ⟨files, inner, hran, hresult, hs, hc, -⟩ := load_ok hroot hopened.root_eq h
    have hsources : p.sources = .ofFiles files :=
      Except.ok.inj (hopened.scan.symm.trans hran.scan)
    obtain ⟨hinner, hinner', -⟩ := rebuild_ok hresult
    refine ⟨_, _, inspectAt_eq name hroot hfind hscan, rfl, plan_eq hscan settings, ?_, ?_⟩
    · rw [hs, hinner, nameSet_staleReasons, ← hstale, hsources]
    · rw [hc, hinner', ← hclosure, hsources]

namespace Sample

theorem find_start : start.find (.absolute root) = .ok (root, .directory) := by decide

theorem start_directories :
    makeDirectories (.absolute root) start directories = (.ok (), start) := by decide

def reopened : Project :=
  ⟨"P", .absolute root, .ofFiles (.ofList editedFiles), firstRound.store.over unbuilt, {}, .idle⟩

theorem edited_directories :
    makeDirectories (.absolute root) edited directories = (.ok (), edited) := by decide +kernel

theorem find_edited : edited.find (.absolute root) = .ok (root, .directory) := by decide

theorem edited_sources (u : String) (a : Artifact)
    (ha : (firstRound.store.over unbuilt).get? u = some a) :
    edited.pathExists ((Path.absolute root).joinText a.sourcePath) = true :=
  second_leads.1 (u, a) (NameMap.get?_eq_some_iff.1 ha)

theorem readAt_edited : Project.readAt root edited = firstRound.store.over unbuilt ∧
    healedAt root edited = edited := readAt_of_mirrored names_root edited_mirrored edited_sources

theorem opened_edited :
    openAt (.absolute root) (some "P") edited = (.ok reopened, edited) := by
  have hopen := openAt_eq (some "P") names_root find_edited edited_directories
    (by rw [readAt_edited.2]; exact second_leads.2.1)
  rwa [readAt_edited.1, readAt_edited.2] at hopen

end Sample

theorem plan_agrees_with_load_after_edit :
    ∃ p looked plan discarded handles,
      openAt (.absolute Sample.root) (some "P") Sample.edited = (.ok p, Sample.edited) ∧
      (p.load {} (fun _ => Compiler.outline) {} Sample.edited).result =
        .ok { Sample.secondSummary with discarded, handles } ∧
      inspectAt (.absolute Sample.root) (some "P") Sample.edited = .ok looked ∧
      looked.plan {} Sample.edited = .ok plan ∧
      plan.stale.nameSet = .ofList ["D"] ∧ plan.closure = .ofList ["D", "M"] := by
  obtain ⟨-, hscan, hresult⟩ := Sample.second_leads
  obtain ⟨-, -, -, -, -, -, hended⟩ := load_of_mirrored Sample.reopened {}
    (fun _ => Compiler.outline) {} Sample.names_root rfl rfl rfl Sample.edited_mirrored
    Sample.edited_sources hscan
  obtain ⟨discarded, handles, hloaded⟩ := hended _ hresult
  obtain ⟨looked, plan, hlooked, -, hplan, hstale, hclosure⟩ :=
    (plan_agrees_with_load (some "P") {} Sample.edited_mirrored.wellFormed Sample.find_edited
      Sample.edited_outside).2 Sample.reopened _ {} (fun _ => Compiler.outline) _ Sample.opened_edited
      hloaded
  exact ⟨_, looked, plan, discarded, handles, Sample.opened_edited, hloaded, hlooked, hplan, hstale,
    hclosure⟩

end Project
end ContractBuild
