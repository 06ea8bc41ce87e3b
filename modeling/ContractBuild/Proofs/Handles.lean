import ContractBuild.Proofs.Discards
import ContractBuild.Proofs.Orphans

/-! Handles and removed orphans. A removal takes away the handles of what its sweep has removed, but
not of what the reading before it has thrown away. -/

namespace ContractBuild

open FileTree ContractBuild.Path Store

theorem Store.collect_of_entries {s : Store} {d : Path} {live : NameSet} {t : FileTree}
    (hs : s.directory = some d) (hlive : ∀ u ∈ s.entries.names, u ∈ live)
    (hfiles : ∀ name ∈ artifactFiles t d, s.contains (stemOf name) = true) :
    s.collect live t = (.ok {}, s, t) := by
  have hkept : s.entries.filter (fun name _ => live.contains name) = s.entries := by
    refine NameMap.ext_get? fun u => Option.ext fun a => ?_
    rw [NameMap.get?_filter, Option.filter_eq_some_iff]
    refine and_iff_left_of_imp fun ha => NameSet.contains_iff.2 (hlive u ?_)
    exact NameMap.mem_names_iff.2 (NameMap.contains_iff.2 ⟨a, ha⟩)
  have hremoved : s.entries.nameSet.filter (!live.contains ·) = {} := by
    refine NameSet.ext_mem fun u => iff_of_false (fun hu => ?_) (NameSet.not_mem_empty u)
    rw [NameSet.mem_filter, Bool.not_eq_true', NameSet.contains_eq_false_iff] at hu
    exact hu.2 (hlive u hu.1)
  have hsweep : ∀ names : List String, (∀ name ∈ names, s.contains (stemOf name) = true) →
      sweep s.entries d {} t names = (.ok {}, t) := by
    intro names hnames
    induction names with
    | nil => rfl
    | cons name rest ih =>
      have hentry : s.entries.contains (stemOf name) = true := hnames name List.mem_cons_self
      rw [sweep, if_pos hentry]
      exact ih fun n hn => hnames n (List.mem_cons_of_mem name hn)
  rw [collect, hs, hkept, hremoved]
  dsimp only
  rw [hsweep _ hfiles, ← hs]

namespace Project

section Handles

variable {root : Location} {p p' : Project} {t t' : FileTree} {removed : NameSet}

theorem Cleared.contains_handles (h : Cleared root p t removed p' t') (u : String) :
    p'.handles.contains u = true ↔ p.handles.contains u = true ∧ (p'.store.contains u = true ∨
      fileName u ∉ artifactFiles (healedAt root t) (.absolute (artifactsAt root))) := by
  have hkept : u ∉ removed ↔ p'.store.contains u = true ∨
      fileName u ∉ artifactFiles (healedAt root t) (.absolute (artifactsAt root)) := by
    rw [h.mem_removed, not_and_or, Bool.not_eq_false]
  rw [NameMap.contains, h.handles, ← hkept]
  by_cases hu : u ∈ removed
  · rw [if_pos hu]
    exact iff_of_false Bool.false_ne_true fun hboth => hboth.2 hu
  · rw [if_neg hu]
    exact (and_iff_left hu).symm

theorem Cleared.mem_artifactFiles (h : Cleared root p t removed p' t') (ht : t.WellFormed)
    (hroot : ∀ n ∈ root, IsFileName n) {u : String} (hu : p'.store.contains u = true) :
    fileName u ∈ artifactFiles (healedAt root t) (.absolute (artifactsAt root)) := by
  have hl := isFileName_artifactsAt hroot
  obtain ⟨a, ha⟩ := NameMap.contains_iff.1 hu
  have hget := h.get? u
  rw [if_pos (h.contains_store hu)] at hget
  have hdisk : onDisk? (healedAt root t) (artifactsAt root) u = some a :=
    (get?_found ht hl u).symm.trans (hget.symm.trans ha)
  exact mem_files.1 ((onDisk?_iff_artifactIn? (healedAt_wellFormed ht hroot) hl).1 hdisk).1

theorem artifactFiles_reread (hroot : ∀ n ∈ root, IsFileName n) (hat : p.root = .absolute root) :
    artifactFiles ((storeIn p.root).load p.root t).2.2 (p.root.joinText Store.projectDirectory) =
      artifactFiles (healedAt root t) (.absolute (artifactsAt root)) := by
  have hplace : (Path.absolute root).joinText Store.projectDirectory =
      .absolute (artifactsAt root) :=
    Option.some.inj (congrArg Store.directory (storeIn_absolute hroot))
  rw [hat, hplace, load_tree_eq hroot]

end Handles

/-- A removal passes over the units whose files the reading before it has thrown away. -/
theorem handles_backed_iff {p p' : Project} {t t' : FileTree} {removed : NameSet} (hp : p.Reached)
    (ht : t.WellFormed) (h : p.removeOrphans t = (.ok removed, p', t')) :
    let reread := ((storeIn p.root).load p.root t).2.2
    let files := artifactFiles reread (p.root.joinText Store.projectDirectory)
    (∀ u, p'.store.contains u = true → p'.sources.containsUnit u = true) ∧
    (∀ u, p'.handles.contains u = true ↔ p.handles.contains u = true ∧
      (p'.store.contains u = true ∨ fileName u ∉ files)) ∧
    ((∀ u, p'.handles.contains u = true →
        p'.sources.containsUnit u = true ∧ p'.store.contains u = true) ↔
      ∀ u, p.handles.contains u = true → fileName u ∈ files) := by
  obtain ⟨root, hroot, hat⟩ := hp.exists_root
  have hcleared := removeOrphans_ok ht hroot hat h
  intro reread files
  have hfiles : files = artifactFiles (healedAt root t) (.absolute (artifactsAt root)) :=
    artifactFiles_reread hroot hat
  rw [hfiles]
  refine ⟨fun u hu => hcleared.contains_store hu, hcleared.contains_handles, fun hbacked u hu => ?_,
    fun hthere u hu => ?_⟩
  · -- What the reading has thrown away keeps its handle, and has no artifact to back it.
    by_contra hgone
    have hleft := (hcleared.contains_handles u).2 ⟨hu, Or.inr hgone⟩
    exact hgone (hcleared.mem_artifactFiles ht hroot (hbacked u hleft).2)
  · obtain ⟨hbefore, hstored⟩ := (hcleared.contains_handles u).1 hu
    have hstored := hstored.resolve_right fun hgone => hgone (hthere u hbefore)
    exact ⟨hcleared.contains_store hstored, hstored⟩

namespace Sample

def opened : Project :=
  ⟨"P", .absolute root, .ofFiles (.ofList startFiles), unbuilt, {}, .idle⟩

def active : Project := (opened.load {} (fun _ => Compiler.outline) {} start).project

theorem opened_start : openAt (.absolute root) (some "P") start = (.ok opened, start) := by
  have hread : readAt root start = unbuilt ∧ healedAt root start = start := by decide
  have hopen := openAt_eq (some "P") names_root find_start start_directories
    (by rw [hread.2]; exact first_leads.2.1)
  rwa [hread.1, hread.2] at hopen

theorem active_reached : active.Reached :=
  .loaded (.opened start_wellFormed opened_start) _ _ _ _

theorem active_eq : active.root = .absolute root ∧ active.store = firstRound.store ∧
    active.handles = firstRound.store.handles := by
  obtain ⟨hat, -, hstore, -, -, -, hended⟩ := load_of_mirrored opened {} (fun _ => Compiler.outline)
    {} names_root rfl rfl rfl start_mirrored
    (fun u a ha => first_leads.1 (u, a) (NameMap.get?_eq_some_iff.1 ha)) first_leads.2.1
  obtain ⟨_, _, hresult⟩ := hended _ first_leads.2.2
  refine ⟨hat, hstore, ?_⟩
  cases load_ends opened {} (fun _ => Compiler.outline) {} start with
  | refused _ hrefused => exact absurd (hresult.symm.trans hrefused) nofun
  | failed _ e hfailed => exact absurd (hresult.symm.trans hfailed) nofun
  | loaded _ _ _ _ _ hhandles => exact hhandles.trans (congrArg Store.handles hstore)

theorem active_orphaned : active.removeOrphans orphaned = (.ok {},
    { active with sources := .ofFiles (.ofList orphanedFiles), store := remaining },
    healedAt root orphaned) := by
  have hlisted : ∀ name ∈ artifactFiles (healedAt root orphaned) (.absolute (artifactsAt root)),
      remaining.contains (stemOf name) = true := by
    intro name hname
    have hl := names_artifacts
    have hhealed := healedAt_wellFormed orphaned_mirrored.wellFormed names_root
    obtain ⟨hext, hfits, node, hnode⟩ := (mem_artifactFiles hhealed hl).1 hname
    obtain ⟨_, htrim⟩ := healedAt_trimmed orphaned_mirrored.wellFormed names_root
    -- The reading makes no files, and of the two that were there it has deleted one.
    have hbefore := (mem_artifactFiles orphaned_mirrored.wellFormed hl).2
      ⟨hext, hfits, node, htrim.node?_of_some hnode⟩
    have hfiles : artifactFiles orphaned (.absolute (artifactsAt root)) = ["M.json", "D.json"] := by
      decide
    rw [hfiles, List.mem_cons, List.mem_singleton] at hbefore
    rcases hbefore with rfl | rfl
    · decide
    · have hgone := (discards_base orphaned_mirrored readAt_orphaned).2
      exact absurd (hgone.symm.trans hnode) nofun
  rw [removeOrphans_eq names_root active_eq.1 orphaned_settled.1, readAt_orphaned,
    collect_of_entries rfl (by decide) hlisted]
  have hhandles : active.handles.filter (fun unit _ => !({} : NameSet).contains unit) =
      active.handles := by
    refine NameMap.ext_get? fun u => Option.ext fun handle => ?_
    rw [NameMap.get?_filter, Option.filter_eq_some_iff]
    exact and_iff_left rfl
  dsimp only
  rw [hhandles]

theorem handles_first : firstRound.store.handles.names = ["D", "M"] := by decide

end Sample

theorem handles_backed_after_edit :
    ∃ p' t', Sample.active.removeOrphans Sample.edited = (.ok (.ofList ["M"]), p', t') ∧
      Sample.active.handles.contains "M" = true ∧ p'.handles.contains "M" = false ∧
      ∀ u, p'.handles.contains u = true →
        p'.sources.containsUnit u = true ∧ p'.store.contains u = true := by
  obtain ⟨-, hhandles, hiff⟩ := handles_backed_iff Sample.active_reached
    Sample.edited_mirrored.wellFormed (Sample.removeOrphans_edited Sample.active_eq.1)
  obtain ⟨hat, -, hfirst⟩ := Sample.active_eq
  have hnames : ∀ u, Sample.active.handles.contains u = true ↔ u = "D" ∨ u = "M" := by
    intro u
    rw [hfirst, ← NameMap.mem_names_iff, Sample.handles_first, List.mem_cons, List.mem_singleton]
  refine ⟨_, _, (Sample.removeOrphans_edited Sample.active_eq.1), (hnames "M").2 (Or.inr rfl), ?_, hiff.2 fun u hu => ?_⟩
  · rw [NameMap.contains_eq_false_iff, NameMap.get?_filter]
    cases Sample.active.handles.get? "M" <;> rfl
  · rw [artifactFiles_reread Sample.names_root hat, Sample.readAt_edited.2]
    rcases (hnames u).1 hu with rfl | rfl
    · decide
    · decide

theorem handle_outlives_artifact :
    Sample.active.Reached ∧ Edited Sample.root Sample.firstRound.tree Sample.orphaned ∧
    ∃ p' t', Sample.active.removeOrphans Sample.orphaned = (.ok {}, p', t') ∧
      p'.handles.contains "D" = true ∧ p'.sources.containsUnit "D" = false ∧
      p'.store.contains "D" = false := by
  refine ⟨Sample.active_reached, Sample.orphaned_edited, _, _, Sample.active_orphaned, ?_, by decide,
    by decide⟩
  show Sample.active.handles.contains "D" = true
  rw [Sample.active_eq.2.2]
  decide

end Project
end ContractBuild
