import ContractBuild.Proofs.Agreement

/-! Artifact files that are thrown away. A unit whose file is gone has no artifact any more, so it is
stale as long as something declares it, and all that depends on it is built anew. A unit that nothing
declares any more is never stale, and what depends on it stays. -/

namespace ContractBuild

open FileTree ContractBuild.Path Store

theorem Store.Reaches.eq_of_get?_none {s : Store} {u v : String} (h : s.Reaches u v)
    (hu : s.get? u = none) : v = u := by
  rcases Relation.ReflTransGen.cases_head h with rfl | ⟨w, ⟨a, ha, -⟩, -⟩
  · rfl
  · rw [hu] at ha
    cases ha

theorem mem_staleUnits_of_get?_none {sources : SourceSet} {store : Store} {settings : Settings}
    {u : String} (hu : store.get? u = none) :
    u ∈ staleUnits sources store settings ↔ sources.containsUnit u = true := by
  rw [mem_staleUnits]
  refine and_iff_left ?_
  rw [check, hu]
  rintro ⟨⟩

namespace Project

/-- The artifact file of a unit is there in the first tree, and not in the second one. -/
def Discards (root : Location) (t t' : FileTree) (u : String) : Prop :=
  (∃ content, t.node? (artifactsAt root ++ [fileName u]) = some (.file content)) ∧
    t'.node? (artifactsAt root ++ [fileName u]) = none

section Discarded

variable {root : Location} {t : FileTree}

theorem get?_readAt_of_no_file (ht : t.WellFormed) (hroot : ∀ n ∈ root, IsFileName n) {u : String}
    (h : (healedAt root t).node? (artifactsAt root ++ [fileName u]) = none) :
    (readAt root t).get? u = none := by
  rw [readAt, get?_found ht (isFileName_artifactsAt hroot), onDisk?]
  rw [healedAt] at h
  rw [h]
  exact ite_self none

theorem node?_healedAt_of_none (ht : t.WellFormed) (hroot : ∀ n ∈ root, IsFileName n)
    {k : Location} (h : t.node? k = none) : (healedAt root t).node? k = none := by
  obtain ⟨_, htrim⟩ := healedAt_trimmed ht hroot
  rcases htrim.node? k with hsame | ⟨hnone, -⟩
  · rw [hsame, h]
  · exact hnone

end Discarded

/-- The dependents of a unit whose file is thrown away are rebuilt if some source still declares it.
-/
theorem discarded_dependents_rebuilt {root : Location} {p : Project} {registry : Registry}
    {compiler : FileTree → Compiler} {settings : Settings} {t : FileTree} {summary : BuildSummary}
    (ht : t.WellFormed) (hroot : ∀ n ∈ root, IsFileName n) (hp : p.root = .absolute root)
    (h : (p.load registry compiler settings t).result = .ok summary) :
    let loaded := p.load registry compiler settings t
    let declared := fun u => loaded.project.sources.containsUnit u = true
    ∀ d, Discards root t (healedAt root t) d ∨
        (∃ path name before, openAt path name before = (.ok p, t) ∧ Discards root before t d) →
      (d ∈ summary.closure ↔ declared d) ∧
      (declared d → d ∈ summary.stale ∧ ∀ u, (readAt root t).Reaches u d →
        u ∈ summary.closure ∧
          (u ∈ summary.installed ∨ loaded.project.store.get? u = none)) := by
  have hl := isFileName_artifactsAt hroot
  obtain ⟨files, inner, hran, hresult, hstale, hclosure, hinstalled⟩ := load_ok hroot hp h
  generalize p.load registry compiler settings t = loaded at hran ⊢
  obtain ⟨-, -, hsources, hmemory, -, -⟩ := hran
  rw [roundAt] at hmemory hresult
  obtain ⟨hinner, hinner', -⟩ := rebuild_ok hresult
  have hkeys : (readAt root t).KeyedByName := keyedByName_found ht hl
  dsimp only
  intro d hd
  have hnone : (readAt root t).get? d = none := by
    refine get?_readAt_of_no_file ht hroot ?_
    rcases hd with ⟨-, hgone⟩ | ⟨-, -, -, -, -, hgone⟩
    · exact hgone
    · exact node?_healedAt_of_none ht hroot hgone
  have hmem : ∀ u, u ∈ summary.closure ↔
      ∃ v ∈ staleUnits (.ofFiles files) (readAt root t) settings, (readAt root t).Reaches u v := by
    intro u
    rw [hclosure, hinner', mem_rebuildSet_iff hkeys]
  have hdeclared : d ∈ staleUnits (.ofFiles files) (readAt root t) settings ↔
      (SourceSet.ofFiles files).containsUnit d = true := mem_staleUnits_of_get?_none hnone
  rw [hsources]
  refine ⟨⟨fun hin => ?_, fun hin => ?_⟩, fun hin => ⟨?_, fun u hu => ⟨?_, ?_⟩⟩⟩
  · obtain ⟨v, hv, hreach⟩ := (hmem d).1 hin
    rw [hreach.eq_of_get?_none hnone] at hv
    exact hdeclared.1 hv
  · exact (hmem d).2 ⟨d, hdeclared.2 hin, .refl⟩
  · rw [hstale, hinner]
    exact hdeclared.2 hin
  · exact (hmem u).2 ⟨d, hdeclared.2 hin, hu⟩
  · rw [hmemory, hinstalled]
    rcases get?_rebuild hresult u with ⟨-, hget⟩ | ⟨_, _, _, -, -, -, hin, -⟩
    · right
      rw [hget, if_pos]
      rw [← hclosure]
      exact (hmem u).2 ⟨d, hdeclared.2 hin, hu⟩
    · exact Or.inl hin

namespace Sample

def erase (t : FileTree) (name : String) : FileTree :=
  (t.removeFile (.absolute (sourceAt name))).toOption.getD t

def orphaned : FileTree := erase firstRound.tree "D.sol"

def moved : FileTree := write orphaned "E.sol" "contract D \x7b uint a; \x7d"

theorem erase_edited {t : FileTree} (ht : t.WellFormed) {name : String} (hname : IsFileName name) :
    Edited root t (erase t name) := by
  rw [erase]
  cases herased : t.removeFile (.absolute (sourceAt name)) with
  | error e => exact ⟨ht, fun _ _ => rfl⟩
  | ok t' =>
    refine edited_removeFile ht (isFileName_sourceAt hname) ?_ herased
    exact ⟨[name], by rw [sourceAt, List.append_assoc, List.singleton_append]⟩

theorem orphaned_edited : Edited root firstRound.tree orphaned :=
  erase_edited first_mirrored.wellFormed (by decide)

theorem orphaned_mirrored : (firstRound.store.over unbuilt).Mirrored (artifactsAt root) orphaned :=
  orphaned_edited.mirrored first_mirrored

theorem moved_mirrored : (firstRound.store.over unbuilt).Mirrored (artifactsAt root) moved :=
  (write_edited orphaned_mirrored.wellFormed (by decide) _).mirrored orphaned_mirrored

def remaining : Store :=
  { firstRound.store.over unbuilt with
    entries := (firstRound.store.over unbuilt).entries.filter fun name _ => name == "M" }

def orphanedFiles : List (String × String) := [("contracts/M.sol", "contract M is D \x7b\x7d")]

def movedFiles : List (String × String) :=
  [("contracts/E.sol", "contract D \x7b uint a; \x7d"), ("contracts/M.sol", "contract M is D \x7b\x7d")]

theorem readAt_orphaned : readAt root orphaned = remaining := by
  rw [readAt_eq_filter names_root orphaned_mirrored
    (orphaned_mirrored.outside _ (by decide))]
  decide

theorem readAt_moved : readAt root moved = remaining := by
  rw [readAt_eq_filter names_root moved_mirrored (moved_mirrored.outside _ (by decide))]
  decide

theorem discards_base {t : FileTree} (ht : (firstRound.store.over unbuilt).Mirrored (artifactsAt root) t)
    (hread : readAt root t = remaining) : Discards root t (healedAt root t) "D" := by
  have hthere : (firstRound.store.over unbuilt).contains "D" = true := by decide
  obtain ⟨a, ha⟩ := NameMap.contains_iff.1 hthere
  obtain ⟨content, hnode⟩ := node?_of_onDisk? ((ht.onDisk?_eq "D").trans ha)
  refine ⟨⟨content, hnode⟩, ?_⟩
  refine (node?_healed_eq_none_iff ht.wellFormed names_artifacts (by decide) (by decide)
    hnode).2 ?_
  have hgone : (readAt root t).get? "D" = none := by
    rw [hread]
    decide
  exact hgone

theorem remaining_records : remaining.Records "M" "D" := by
  have hthere : ∃ a ∈ remaining.get? "M", "D" ∈ a.dependencies := by decide
  exact hthere

theorem orphaned_settled :
    SourceSet.scan (.absolute root) orphaned = .ok (.ofFiles (.ofList orphanedFiles)) ∧
    staleUnits (.ofFiles (.ofList orphanedFiles)) remaining {} = {} ∧
    rebuildSet (.ofFiles (.ofList orphanedFiles)) remaining {} = {} ∧
    compileRequest? (.ofFiles (.ofList orphanedFiles)) {}
      (rebuildSet (.ofFiles (.ofList orphanedFiles)) remaining {}) = none ∧
    (keptStore (.ofFiles (.ofList orphanedFiles)) remaining {}).get? "M" = remaining.get? "M" := by
  decide

theorem moved_asks :
    SourceSet.scan (.absolute root) moved = .ok (.ofFiles (.ofList movedFiles)) ∧
    (compileRequest? (.ofFiles (.ofList movedFiles)) {}
      (rebuildSet (.ofFiles (.ofList movedFiles)) remaining {})).isSome = true := by
  decide

end Sample

theorem discarded_dependents_rebuilt_after_move :
    ∃ summary,
      (Sample.project.load {} (fun _ _ => .ok {}) {} Sample.moved).result = .ok summary ∧
      Discards Sample.root Sample.moved (healedAt Sample.root Sample.moved) "D" ∧
      "D" ∈ summary.stale ∧ "M" ∈ summary.closure := by
  obtain ⟨hscan, hasks⟩ := Sample.moved_asks
  obtain ⟨request, hrequest⟩ := Option.isSome_iff_exists.1 hasks
  have hdiscards := Sample.discards_base Sample.moved_mirrored Sample.readAt_moved
  obtain ⟨hran, -, hended⟩ := load_of_round {} (fun _ _ => .ok {}) {} Sample.names_root
    (p := Sample.project) rfl rfl rfl hscan
  obtain ⟨inner, hinner⟩ : ∃ inner, (roundAt Sample.root (.ofFiles (.ofList Sample.movedFiles))
      (fun _ _ => .ok {}) {} Sample.moved).result = .ok inner := by
    rw [roundAt, Sample.readAt_moved, rebuild_of_answer hrequest rfl rfl]
    exact ⟨_, rfl⟩
  obtain ⟨discarded, handles, hresult⟩ := hended inner hinner
  obtain ⟨-, hbase⟩ := discarded_dependents_rebuilt Sample.moved_mirrored.wellFormed
    Sample.names_root rfl hresult "D" (Or.inl hdiscards)
  rw [hran.sources] at hbase
  obtain ⟨hstale, hdependents⟩ := hbase (by decide)
  rw [Sample.readAt_moved] at hdependents
  exact ⟨_, hresult, hdiscards, hstale, (hdependents "M" (.single Sample.remaining_records)).1⟩

theorem orphaned_dependent_is_kept :
    let first := Sample.project.load {} (fun _ => Compiler.outline) {} Sample.start
    let loaded := Sample.project.load {} (fun _ => Compiler.outline) {} Sample.orphaned
    (∃ discarded handles, first.result = .ok { Sample.firstSummary with discarded, handles }) ∧
    Edited Sample.root first.tree Sample.orphaned ∧
    (∃ discarded handles,
      loaded.result = .ok { stale := {}, closure := {}, discarded, handles }) ∧
    Discards Sample.root Sample.orphaned loaded.tree "D" ∧
    loaded.project.sources.containsUnit "M" = true ∧
    (readAt Sample.root Sample.orphaned).Reaches "M" "D" ∧
    loaded.project.store.get? "M" = (readAt Sample.root Sample.orphaned).get? "M" := by
  obtain ⟨-, -, htree, -, hfirst⟩ := Sample.first_leads.load Sample.start_mirrored
  obtain ⟨hscan, hstale, hclosure, hrequest, hkept⟩ := Sample.orphaned_settled
  obtain ⟨hran, -, hended⟩ := load_of_round {} (fun _ => Compiler.outline) {} Sample.names_root
    (p := Sample.project) rfl rfl rfl hscan
  have hround : roundAt Sample.root (.ofFiles (.ofList Sample.orphanedFiles))
      (fun _ => Compiler.outline) {} Sample.orphaned =
        { result := .ok {}
          store := keptStore (.ofFiles (.ofList Sample.orphanedFiles)) Sample.remaining {}
          tree := healedAt Sample.root Sample.orphaned, state := .detectingChanges } := by
    rw [roundAt, Sample.readAt_orphaned, rebuild_of_no_request hrequest, hstale, hclosure]
  rw [hround] at hended
  obtain ⟨-, -, hsources, hstore, hleft, -⟩ := hran
  rw [hround] at hstore hleft
  have hresult := hended _ rfl
  generalize Sample.project.load {} (fun _ => Compiler.outline) {} Sample.start = first
    at htree hfirst ⊢
  generalize Sample.project.load {} (fun _ => Compiler.outline) {} Sample.orphaned = loaded
    at hsources hstore hleft hresult ⊢
  dsimp only at hstore hleft ⊢
  rw [htree, hsources, hleft, hstore, Sample.readAt_orphaned]
  exact ⟨hfirst _ rfl, Sample.orphaned_edited, hresult,
    Sample.discards_base Sample.orphaned_mirrored Sample.readAt_orphaned, by decide,
    .single Sample.remaining_records, hkept⟩

end Project
end ContractBuild
