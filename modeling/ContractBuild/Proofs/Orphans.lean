import ContractBuild.Proofs.Copies
import ContractBuild.Proofs.Filing
import ContractBuild.Proofs.Lifecycle
import ContractBuild.Proofs.Planning
import ContractBuild.Proofs.Retry

/-! Removing orphans. The artifacts are read anew, those of units that no source declares are dropped,
and so is every artifact file without an entry; what is declared stands as it stood. -/

namespace ContractBuild

open FileTree ContractBuild.Path Store Relation

theorem Store.close_subset_of_records {s s' : Store} (hs : s.KeyedByName) (hs' : s'.KeyedByName)
    (h : ∀ u v, s'.Records u v → s.Records u v) {names : NameSet} {u : String}
    (hu : u ∈ s'.close names) : u ∈ s.close names := by
  obtain ⟨v, hv, huv⟩ := (mem_close_iff hs').1 hu
  exact (mem_close_iff hs).2 ⟨v, hv, ReflTransGen.mono h u v huv⟩

theorem staleReasons_congr {sources : SourceSet} {s s' : Store}
    (h : ∀ u, sources.containsUnit u = true → s.get? u = s'.get? u) (settings : Settings) :
    staleReasons sources s settings = staleReasons sources s' settings := by
  refine NameMap.ext_get? fun u => ?_
  rw [staleReasons, staleReasons, NameMap.get?_filterMap, NameMap.get?_filterMap]
  cases hu : sources.units.get? u with
  | none => rfl
  | some info =>
    have hdeclared : sources.containsUnit u = true := NameMap.contains_iff.2 ⟨info, hu⟩
    rw [Option.bind_some, Option.bind_some, check_congr (h u hdeclared)]

theorem Store.Outside.trimmed {root : Path} {l : Location} {names : List String}
    {t t' : FileTree} (h : Outside root l t) (htrim : Trimmed l names t t') : Outside root l t' := by
  intro u a ha name hlocate
  exact h u a (htrim.onDisk?_of_some ha) name
    (locate_of_keepsDirectories htrim.keepsDirectories_before hlocate)

theorem Store.onDisk?_of_readValid? {root : Path} {l : Location} {t : FileTree} {u : String}
    {a : Artifact} (ht : t.WellFormed) (hl : ∀ n ∈ l, IsFileName n) (hu : IsUnitName u)
    (h : readValid? t root (.absolute l) (fileName u) = some a) :
    onDisk? t l u = some a ∧ t.pathExists (root.joinText a.sourcePath) = true := by
  have hslash := fileName_noSlash.2 hu.noSlash
  have hname : IsFileName (fileName u) := by
    rw [readValid?_eq_filter, Option.filter_eq_some_iff] at h
    obtain ⟨text, htext, -⟩ := Option.bind_eq_some_iff.1 h.1
    rw [toOption_eq_some_iff, text_eq_ok_iff, absolute_joinText hl hslash] at htext
    obtain ⟨k, content, hfind, -⟩ := htext
    exact (locate_concat_ok hl (isStep_fileName u).1 (isStep_fileName u).2 hslash
      (find_eq_ok_iff.1 hfind).1).1
  have hvalid := (readValid?_eq_some_iff root ht hl hname (extensionOf?_fileName hu.ne_empty)).1 h
  rwa [stemOf_fileName hu.ne_empty] at hvalid

theorem Store.mem_withoutEntry_iff (kept : NameMap Artifact) {names : List String}
    (hnames : ∀ n ∈ names, extensionOf? n = some fileExtension) (name : String) :
    name ∈ withoutEntry kept names ↔
      ∃ u, name = fileName u ∧ kept.contains u = false ∧ fileName u ∈ names := by
  rw [withoutEntry, List.mem_filter, Bool.not_eq_true']
  constructor
  · rintro ⟨hmem, hno⟩
    have hname := fileName_stemOf (hnames name hmem)
    exact ⟨stemOf name, hname.symm, hno, hname.symm ▸ hmem⟩
  · rintro ⟨u, rfl, hno, hmem⟩
    refine ⟨hmem, ?_⟩
    rw [← (fileName_eq_iff (hnames _ hmem)).1 rfl]
    exact hno

namespace Project

structure Cleared (root : Location) (p : Project) (t : FileTree) (removed : NameSet) (p' : Project)
    (t' : FileTree) : Prop where
  scan : SourceSet.scan (.absolute root) t = .ok p'.sources
  root_eq : p'.root = .absolute root
  get? : ∀ u, p'.store.get? u =
    if p'.sources.containsUnit u = true then (readAt root t).get? u else none
  mem_removed : ∀ u, u ∈ removed ↔ p'.store.contains u = false ∧
    fileName u ∈ artifactFiles (healedAt root t) (.absolute (artifactsAt root))
  handles : ∀ u, p'.handles.get? u = if u ∈ removed then none else p.handles.get? u
  wellFormed : t'.WellFormed
  node?_of_removed : ∀ u ∈ removed, t'.node? (artifactsAt root ++ [fileName u]) = none
  node?_eq : ∀ k, (∀ u ∈ removed, k ≠ artifactsAt root ++ [fileName u]) →
    t'.node? k = (healedAt root t).node? k

section Clearing

variable {root : Location} {p p' : Project} {t t' : FileTree} {removed : NameSet}

theorem mem_collected_iff (ht : t.WellFormed) (hroot : ∀ n ∈ root, IsFileName n) (live : NameSet)
    {u : String} :
    let kept := (readAt root t).entries.filter fun name _ => live.contains name
    let files := artifactFiles (healedAt root t) (.absolute (artifactsAt root))
    u ∈ ((withoutEntry kept files).map stemOf).foldl .insert
        ((readAt root t).entries.nameSet.filter (!live.contains ·)) ↔
      kept.contains u = false ∧ fileName u ∈ files := by
  intro kept files
  have hl := isFileName_artifactsAt hroot
  have hhealed := healedAt_wellFormed ht hroot
  have hfile := fun n (hn : n ∈ files) => (isFileName_of_mem hhealed hn).2.1
  have hgone := mem_withoutEntry_iff kept hfile
  rw [NameSet.mem_foldl_insert, List.mem_map, NameSet.mem_filter, NameMap.mem_nameSet]
  constructor
  · rintro (⟨name, hname, rfl⟩ | ⟨hentry, hdead⟩)
    · obtain ⟨v, rfl, hno, hlisted⟩ := (hgone name).1 hname
      rw [← (fileName_eq_iff (hfile _ hlisted)).1 rfl]
      exact ⟨hno, hlisted⟩
    · -- An entry that was read has its file.
      obtain ⟨a, ha⟩ := NameMap.contains_iff.1 hentry
      have hdisk : onDisk? (healedAt root t) (artifactsAt root) u = some a :=
        (get?_found ht hl u).symm.trans ha
      rw [Bool.not_eq_true', NameSet.contains_eq_false_iff] at hdead
      refine ⟨?_, mem_files.1 ((onDisk?_iff_artifactIn? hhealed hl).1 hdisk).1⟩
      rw [NameMap.contains_eq_false_iff, NameMap.get?_within, if_neg hdead]
  · rintro ⟨hno, hlisted⟩
    refine Or.inl ⟨fileName u, (hgone _).2 ⟨u, rfl, hno, hlisted⟩, ?_⟩
    exact ((fileName_eq_iff (hfile _ hlisted)).1 rfl).symm

theorem collect_readAt (ht : t.WellFormed) (hroot : ∀ n ∈ root, IsFileName n) {live : NameSet}
    {s : Store} (h : (readAt root t).collect live (healedAt root t) = (.ok removed, s, t')) :
    (∀ u, s.get? u = if u ∈ live then (readAt root t).get? u else none) ∧
    (∀ u, u ∈ removed ↔ s.contains u = false ∧
      fileName u ∈ artifactFiles (healedAt root t) (.absolute (artifactsAt root))) ∧
    t'.WellFormed ∧
    (∀ u ∈ removed, t'.node? (artifactsAt root ++ [fileName u]) = none) ∧
    ∀ k, (∀ u ∈ removed, k ≠ artifactsAt root ++ [fileName u]) →
      t'.node? k = (healedAt root t).node? k := by
  have hl := isFileName_artifactsAt hroot
  have hhealed := healedAt_wellFormed ht hroot
  have hfile := fun n (hn : n ∈ artifactFiles (healedAt root t) (.absolute (artifactsAt root))) =>
    isFileName_of_mem hhealed hn
  have hdirectory : (readAt root t).directory = some (.absolute (artifactsAt root)) := rfl
  rw [collect, hdirectory] at h
  dsimp only at h
  rcases hsweep : sweep ((readAt root t).entries.filter fun name _ => live.contains name)
      (.absolute (artifactsAt root)) ((readAt root t).entries.nameSet.filter (!live.contains ·))
      (healedAt root t) (artifactFiles (healedAt root t) (.absolute (artifactsAt root)))
    with ⟨result, swept⟩
  rw [hsweep] at h
  cases h
  obtain ⟨hanswer, hwf, hnode⟩ := sweep_ok hhealed hl (fun n hn => (hfile n hn).1) hsweep
  -- The files that are swept are those of the units that are reported.
  have hmem := fun u => mem_collected_iff ht hroot live (u := u)
  dsimp only at hmem
  rw [← hanswer] at hmem
  have hgone := mem_withoutEntry_iff
    ((readAt root t).entries.filter fun name _ => live.contains name) fun n hn => (hfile n hn).2.1
  refine ⟨NameMap.get?_within (readAt root t).entries live, hmem, hwf, fun u hu => ?_,
    fun k hk => ?_⟩
  · rw [hnode, if_pos]
    exact List.mem_map.2 ⟨fileName u, (hgone _).2 ⟨u, rfl, (hmem u).1 hu⟩, rfl⟩
  · rw [hnode, if_neg]
    intro hin
    obtain ⟨name, hname, rfl⟩ := List.mem_map.1 hin
    obtain ⟨u, rfl, hu⟩ := (hgone name).1 hname
    exact hk u ((hmem u).2 hu) rfl

theorem removeOrphans_eq (hroot : ∀ n ∈ root, IsFileName n) (hp : p.root = .absolute root)
    {sources : SourceSet} (hscan : SourceSet.scan (.absolute root) t = .ok sources) :
    p.removeOrphans t =
      match (readAt root t).collect sources.units.nameSet (healedAt root t) with
      | (.error e, _, t) => (.error (.store e), p, t)
      | (.ok removed, store, t) =>
        let handles := p.handles.filter fun unit _ => !removed.contains unit
        (.ok removed, { p with sources, store, handles }, t) := by
  rw [removeOrphans, hp, storeIn_absolute hroot, hscan]
  rfl

theorem removeOrphans_ok (ht : t.WellFormed) (hroot : ∀ n ∈ root, IsFileName n)
    (hp : p.root = .absolute root) (h : p.removeOrphans t = (.ok removed, p', t')) :
    Cleared root p t removed p' t' := by
  cases hscan : SourceSet.scan (.absolute root) t with
  | error e =>
    rw [removeOrphans, hp, hscan] at h
    cases h
  | ok sources =>
    rw [removeOrphans_eq hroot hp hscan] at h
    rcases hcollect : (readAt root t).collect sources.units.nameSet (healedAt root t) with
      ⟨_ | _, s, t₁⟩
    · rw [hcollect] at h
      cases h
    · rw [hcollect] at h
      cases h
      obtain ⟨hget, hmem, hwf, hgone, hnode⟩ := collect_readAt ht hroot hcollect
      exact ⟨hscan, hp, fun u => (hget u).trans (if_congr NameMap.mem_nameSet rfl rfl), hmem,
        NameMap.get?_without p.handles removed, hwf, hgone, hnode⟩

namespace Cleared

theorem contains_store (h : Cleared root p t removed p' t') {u : String}
    (hu : p'.store.contains u = true) : p'.sources.containsUnit u = true := by
  obtain ⟨a, ha⟩ := NameMap.contains_iff.1 hu
  by_contra hno
  have hget := h.get? u
  rw [if_neg hno] at hget
  exact absurd (ha.symm.trans hget) nofun

theorem node?_elsewhere (h : Cleared root p t removed p' t') {k : Location}
    (hk : ∀ name, k ≠ artifactsAt root ++ [name]) : t'.node? k = (healedAt root t).node? k :=
  h.node?_eq k fun u _ => hk (fileName u)

theorem scan_after (h : Cleared root p t removed p' t') (ht : t.WellFormed)
    (hroot : ∀ n ∈ root, IsFileName n) :
    SourceSet.scan (.absolute root) t' = .ok p'.sources := by
  refine SourceSet.scan_congr ht h.wellFormed hroot (fun below _ => ?_) h.scan
  rw [h.node?_elsewhere fun name => sourcesAt_append_ne root below [name],
    node?_healedAt_source ht hroot]

theorem contains_of_mem_artifactFiles (h : Cleared root p t removed p' t') (ht : t.WellFormed)
    (hroot : ∀ n ∈ root, IsFileName n) {name : String}
    (hname : name ∈ artifactFiles t' (.absolute (artifactsAt root))) :
    p'.store.contains (stemOf name) = true := by
  have hl := isFileName_artifactsAt hroot
  obtain ⟨hext, hfits, node, hnode⟩ := (mem_artifactFiles h.wellFormed hl).1 hname
  have hfile := fileName_stemOf hext
  have hkept : stemOf name ∉ removed := by
    intro hgone
    have hnone := h.node?_of_removed _ hgone
    rw [hfile, hnode] at hnone
    cases hnone
  have hsame := h.node?_eq (artifactsAt root ++ [name]) fun u hu he => by
    rw [List.append_cancel_left_eq, List.cons.injEq] at he
    rw [(fileName_eq_iff hext).1 he.1.symm] at hu
    exact hkept hu
  have hlisted := (mem_artifactFiles (healedAt_wellFormed ht hroot) hl).2
    ⟨hext, hfits, node, hsame.symm.trans hnode⟩
  by_contra hno
  rw [Bool.not_eq_true] at hno
  exact hkept ((h.mem_removed _).2 ⟨hno, hfile.symm ▸ hlisted⟩)

theorem node?_of_contains (h : Cleared root p t removed p' t') {u : String}
    (hu : p'.store.contains u = true) : t'.node? (artifactsAt root ++ [fileName u]) =
      (healedAt root t).node? (artifactsAt root ++ [fileName u]) := by
  refine h.node?_eq _ fun v hv he => ?_
  rw [List.append_cancel_left_eq, List.cons.injEq, fileName_inj] at he
  rw [he.1, ((h.mem_removed v).1 hv).1] at hu
  cases hu

end Cleared
end Clearing

section Reading

variable {root : Location} {node : Node} {path : Path} {name : Option String} {t t' made : FileTree}
  {p : Project}

theorem Opened.store_eq (ht : t.WellFormed) (h : Opened root t made p t')
    (hout : Outside (.absolute root) (artifactsAt root) t) {u : String}
    (hu : p.sources.containsUnit u = true) :
    p.store = readAt root t' ∧ Outside (.absolute root) (artifactsAt root) t' := by
  have hsources := h.sources_directory ht hu
  by_cases hany : ∃ v a, onDisk? t (artifactsAt root) v = some a
  · -- All directories are there, so opening has read the tree as it was.
    obtain ⟨v, a, ha⟩ := hany
    have hmade := h.made_eq_of_onDisk? ht hsources ha
    obtain ⟨_, htrim⟩ := healedAt_trimmed ht h.names
    rw [h.store, h.tree, hmade, (readAt_healedAt ht h.names hout).1]
    exact ⟨rfl, hout.trimmed htrim⟩
  · have hnone : ∀ v a, onDisk? t' (artifactsAt root) v ≠ some a :=
      fun v a ha => hany ⟨v, a, h.onDisk?_of_some ha⟩
    have hl := isFileName_artifactsAt h.names
    have hentries : p.store.entries = (readAt root t').entries := by
      rw [h.store]
      refine NameMap.ext_get? fun v => Option.ext fun a => iff_of_false (fun ha => ?_) fun ha => ?_
      · have hdisk := (get?_found h.extends_made.wellFormed hl v).symm.trans ha
        exact hnone v a (h.tree ▸ hdisk)
      · have hdisk := (get?_found h.wellFormed hl v).symm.trans ha
        exact hnone v a ((load_trimmed _ h.wellFormed hl).onDisk?_of_some hdisk)
    rw [h.store] at hentries ⊢
    exact ⟨congrArg (Store.mk _) hentries, fun v a ha => absurd ha (hnone v a)⟩

/-- A project right after its opening, or after one has only looked at it. -/
structure JustRead (root : Location) (t : FileTree) (p : Project) : Prop where
  names : ∀ n ∈ root, IsFileName n
  wellFormed : t.WellFormed
  root_eq : p.root = .absolute root
  scan : SourceSet.scan (.absolute root) t = .ok p.sources
  keyedByName : p.store.KeyedByName
  store_eq : ∀ u, p.sources.containsUnit u = true →
    p.store = readAt root t ∧ Outside (.absolute root) (artifactsAt root) t

theorem justRead (ht : t.WellFormed) (hfind : t.find path = .ok (root, node))
    (hout : Outside (.absolute root) (artifactsAt root) t)
    (h : openAt path name t = (.ok p, t') ∨ inspectAt path name t = .ok p ∧ t' = t) :
    JustRead root t' p := by
  rcases h with hopen | ⟨hlook, rfl⟩
  · obtain ⟨root', node', made, hfind', hopened⟩ := openAt_ok ht hopen
    cases hfind.symm.trans hfind'
    refine ⟨hopened.names, hopened.wellFormed, hopened.root_eq, hopened.scan, ?_,
      fun u hu => hopened.store_eq ht hout hu⟩
    rw [hopened.store]
    exact keyedByName_found hopened.extends_made.wellFormed (isFileName_artifactsAt hopened.names)
  · have hroot : ∀ n ∈ root, IsFileName n := ht.names (find_eq_ok_iff.1 hfind).2
    have hl := isFileName_artifactsAt hroot
    rw [inspectAt, canonicalRoot, FileTree.canonical, hfind] at hlook
    obtain ⟨hat, hstore, hscan, -⟩ := ofStore_ok hlook
    have hread : p.store = readAt root t' := by
      rw [hstore, storeIn_absolute hroot, ← inspected, entries_readAt_eq_inspected ht hroot hout]
    exact ⟨hroot, ht, hat, hscan, hread ▸ keyedByName_found ht hl, fun _ _ => ⟨hread, hout⟩⟩

end Reading

theorem JustRead.get?_removed {root : Location} {p p' : Project} {t t' : FileTree}
    {removed : NameSet} (h : JustRead root t p) (hcleared : Cleared root p t removed p' t') {u : String}
    (hu : p.sources.containsUnit u = true) : p.store.get? u = p'.store.get? u := by
  have hsources : p'.sources = p.sources := Except.ok.inj (hcleared.scan.symm.trans h.scan)
  rw [hcleared.get?, hsources, if_pos hu, (h.store_eq u hu).1]

/-- The closure of the plan may lose units; nothing else of it changes. -/
theorem removeOrphans_keeps_plan {path : Path} {root : Location} {node : Node}
    {name : Option String} {t t' t'' : FileTree} {p p' : Project} {removed : NameSet}
    (ht : t.WellFormed) (hfind : t.find path = .ok (root, node))
    (hout : Outside (.absolute root) (artifactsAt root) t)
    (hopen : openAt path name t = (.ok p, t') ∨ inspectAt path name t = .ok p ∧ t' = t)
    (h : p.removeOrphans t' = (.ok removed, p', t'')) :
    p'.sources = p.sources ∧
    (∀ settings, ∃ before after, p.plan settings t' = .ok before ∧
      p'.plan settings t'' = .ok after ∧ after.stale = before.stale ∧
      ∀ u ∈ after.closure, u ∈ before.closure) ∧
    (∀ u a, p.sources.containsUnit u = true →
      readValid? t' (.absolute root) (.absolute (artifactsAt root)) (fileName u) = some a →
        p'.store.get? u = some a ∧
        t''.node? (artifactsAt root ++ [fileName u]) = t'.node? (artifactsAt root ++ [fileName u])) ∧
    (∀ u, p'.store.contains u = true → p.sources.containsUnit u = true) ∧
    ∀ file ∈ artifactFiles t'' (.absolute (artifactsAt root)),
      p.sources.containsUnit (stemOf file) = true := by
  have hread := justRead ht hfind hout hopen
  have hroot := hread.names
  have hl := isFileName_artifactsAt hroot
  have ht' := hread.wellFormed
  have hcleared := removeOrphans_ok ht' hroot hread.root_eq h
  have hsources : p'.sources = p.sources := Except.ok.inj (hcleared.scan.symm.trans hread.scan)
  have hstored : ∀ u, p'.store.contains u = true → p.sources.containsUnit u = true :=
    fun u hu => hsources ▸ hcleared.contains_store hu
  refine ⟨hsources, fun settings => ?_, fun u a hu ha => ?_, hstored, fun file hfile => ?_⟩
  · have hscan : SourceSet.scan p.root t' = .ok p.sources := hread.root_eq ▸ hread.scan
    have hscan' : SourceSet.scan p'.root t'' = .ok p.sources := by
      rw [hcleared.root_eq, ← hsources]
      exact hcleared.scan_after ht' hroot
    have hsame := staleReasons_congr (fun u hu => (hread.get?_removed hcleared hu).symm) settings
    refine ⟨_, _, plan_eq hscan settings, plan_eq hscan' settings, hsame, fun u hu => ?_⟩
    have hkeys : p'.store.KeyedByName := by
      intro v a ha
      have hv := hstored v (NameMap.contains_iff.2 ⟨a, ha⟩)
      exact hread.keyedByName v a ((hread.get?_removed hcleared hv).trans ha)
    rw [rebuildSet, ← nameSet_staleReasons, hsame, nameSet_staleReasons] at hu
    -- The stale units are the same, and a dependency that is still recorded was so before.
    refine close_subset_of_records hread.keyedByName hkeys (fun v w => ?_) hu
    rintro ⟨a, ha, hw⟩
    have hv := hstored v (NameMap.contains_iff.2 ⟨a, ha⟩)
    exact ⟨a, (hread.get?_removed hcleared hv).trans ha, hw⟩
  · obtain ⟨hstore, hout'⟩ := hread.store_eq u hu
    obtain ⟨files, hfiles⟩ := SourceSet.scan_ok hread.scan
    have hname := isUnitName_of_containsUnit (hfiles ▸ hu)
    obtain ⟨hdisk, hsource⟩ := onDisk?_of_readValid? ht' hl hname ha
    have hhealed := (onDisk?_healed_iff ht' hl hout').2 ⟨hdisk, hsource⟩
    have hentry : p'.store.get? u = some a := by
      rw [← hread.get?_removed hcleared hu, hstore]
      exact (get?_found ht' hl u).trans hhealed
    refine ⟨hentry, ?_⟩
    obtain ⟨_, htrim⟩ := healedAt_trimmed ht' hroot
    obtain ⟨content, hnode⟩ := node?_of_onDisk? hhealed
    rw [hcleared.node?_of_contains (NameMap.contains_iff.2 ⟨a, hentry⟩), healedAt, hnode]
    exact (htrim.node?_of_some hnode).symm
  · exact hstored _ (hcleared.contains_of_mem_artifactFiles ht' hroot hfile)

namespace Sample

def sweptEdit : Except StoreError NameSet × Store × FileTree :=
  (firstRound.store.over unbuilt).collect
    (SourceSet.ofFiles (.ofList editedFiles)).units.nameSet edited

theorem swept_result :
    sweptEdit.1 = .ok (.ofList ["M"]) ∧ sweptEdit.2.1.entries.names = ["D"] := by decide +kernel

theorem removeOrphans_edited {p : Project} (hp : p.root = .absolute root) :
    p.removeOrphans edited = (.ok (.ofList ["M"]),
      { p with
        sources := .ofFiles (.ofList editedFiles)
        store := sweptEdit.2.1
        handles := p.handles.filter fun unit _ => !(NameSet.ofList ["M"]).contains unit },
      sweptEdit.2.2) := by
  rw [removeOrphans_eq names_root hp second_leads.2.1, readAt_edited.1, readAt_edited.2, ← sweptEdit]
  have h := swept_result.1
  generalize sweptEdit = r at h ⊢
  obtain ⟨result, store, t⟩ := r
  cases h
  rfl

theorem reopened_swept : reopened.removeOrphans edited = (.ok (.ofList ["M"]),
    { reopened with store := sweptEdit.2.1 }, sweptEdit.2.2) := removeOrphans_edited rfl

end Sample

theorem removeOrphans_keeps_plan_after_edit :
    ∃ p' t' before after,
      Sample.reopened.removeOrphans Sample.edited = (.ok (.ofList ["M"]), p', t') ∧
      Sample.reopened.plan {} Sample.edited = .ok before ∧ p'.plan {} t' = .ok after ∧
      before.closure = .ofList ["D", "M"] ∧ after.stale = before.stale ∧
      before.stale.nameSet = .ofList ["D"] ∧ p'.store.entries.names = ["D"] := by
  obtain ⟨-, hplans, -⟩ := removeOrphans_keeps_plan Sample.edited_mirrored.wellFormed
    Sample.find_edited Sample.edited_outside (.inl Sample.opened_edited) Sample.reopened_swept
  obtain ⟨before, after, hbefore, hafter, hstale, -⟩ := hplans {}
  obtain ⟨hstale', hclosure, -⟩ := rebuild_ok Sample.second_leads.2.2
  have hplan := plan_eq (p := Sample.reopened) Sample.second_leads.2.1 {}
  rw [hbefore] at hplan
  cases hplan
  refine ⟨_, _, _, after, Sample.reopened_swept, hbefore, hafter, hclosure.symm, hstale, ?_,
    Sample.swept_result.2⟩
  rw [nameSet_staleReasons]
  exact hstale'.symm

end Project
end ContractBuild
