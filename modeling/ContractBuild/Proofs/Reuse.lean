import ContractBuild.Proofs.Answers
import ContractBuild.Proofs.Rebuild

/-! A round of building keeps an artifact only if its unit is fresh and leads to no stale unit. -/

namespace ContractBuild

section Kept

variable {files : NameMap String} {store : Store} {compiler : Compiler} {settings : Settings}
  {t : FileTree}

theorem stale_subset_declared {sources : SourceSet} {u : String}
    (h : u ∈ staleUnits sources store settings) : sources.containsUnit u = true :=
  (mem_staleUnits.1 h).1

theorem mem_rebuildSet_iff {sources : SourceSet} (hstore : store.KeyedByName) {u : String} :
    u ∈ rebuildSet sources store settings ↔
      ∃ v ∈ staleUnits sources store settings, store.Reaches u v :=
  Store.mem_close_iff hstore

theorem exists_request_iff {sources : SourceSet} (hstore : store.KeyedByName) :
    (∃ request, (rebuild sources store compiler settings t).request? = some request) ↔
      ∃ u, u ∈ staleUnits sources store settings := by
  rw [rebuild_request?, ← Option.ne_none_iff_exists', ne_eq, compileRequest?_eq_none_iff]
  constructor
  · intro h
    push Not at h
    obtain ⟨u, hu, -⟩ := h
    obtain ⟨v, hv, -⟩ := (mem_rebuildSet_iff hstore).1 hu
    exact ⟨v, hv⟩
  · rintro ⟨u, hu⟩ hnone
    obtain ⟨path, hpath⟩ := SourceSet.containsUnit_iff.1 (stale_subset_declared hu)
    rw [hnone u (Store.subset_close hstore hu)] at hpath
    cases hpath

theorem request_declares {request : CompileRequest} {u : String}
    (hrequest : compileRequest? (.ofFiles files) settings
      (rebuildSet (.ofFiles files) store settings) = some request)
    (hu : u ∈ rebuildSet (.ofFiles files) store settings)
    (hdeclared : (SourceSet.ofFiles files).containsUnit u = true) : request.Declares u := by
  obtain ⟨path, hpath⟩ := SourceSet.containsUnit_iff.1 hdeclared
  obtain ⟨text, htext, hd⟩ := SourceSet.declared_at_path hpath
  exact ⟨path, text, (get?_request hrequest).2 ⟨htext, u, hu, hpath⟩, hd⟩

theorem request_within {request : CompileRequest} {units : NameSet}
    (hrequest : compileRequest? (.ofFiles files) settings units = some request) :
    request.Within (.ofFiles files) :=
  fun _ _ h => ((get?_request hrequest).1 h).1

theorem not_mem_rebuildSet_of_not_installed (hcomplete : compiler.Complete) {summary : BuildSummary}
    (h : (rebuild (.ofFiles files) store compiler settings t).result = .ok summary) {u : String}
    (hdeclared : (SourceSet.ofFiles files).containsUnit u = true) (hu : u ∉ summary.installed) :
    u ∉ rebuildSet (.ofFiles files) store settings := by
  intro hmem
  obtain ⟨-, hclosure, hround⟩ := rebuild_ok h
  rw [hclosure] at hround
  rcases hround with ⟨hnone, -⟩ | ⟨request, artifacts, hrequest, hanswer, hinstalled, -⟩
  · obtain ⟨path, hpath⟩ := SourceSet.containsUnit_iff.1 hdeclared
    rw [compileRequest?_eq_none_iff.1 hnone u hmem] at hpath
    cases hpath
  · apply hu
    rw [hinstalled, NameMap.mem_names_iff]
    exact hcomplete request artifacts hanswer u (request_declares hrequest hmem hdeclared)

theorem get?_rebuild {sources : SourceSet} {summary : BuildSummary}
    (h : (rebuild sources store compiler settings t).result = .ok summary) (u : String) :
    (u ∉ summary.installed ∧ (rebuild sources store compiler settings t).store.get? u =
        if u ∈ summary.closure then none else store.get? u) ∨
      ∃ request artifacts a,
        (rebuild sources store compiler settings t).request? = some request ∧
        compiler request = .ok artifacts ∧ artifacts.get? u = some a ∧ u ∈ summary.installed ∧
        (rebuild sources store compiler settings t).store.get? u =
          some (a.adopted u sources settings.minifySource) := by
  obtain ⟨-, hclosure, hround⟩ := rebuild_ok h
  rcases hround with ⟨-, hinstalled, hstore, -⟩ |
    ⟨request, artifacts, hrequest, hanswer, hinstalled, hinstall⟩
  · rw [hinstalled, hstore, hclosure, get?_keptStore]
    exact Or.inl ⟨List.not_mem_nil, rfl⟩
  · have hget := Store.get?_install hinstall u
    rw [hinstalled, NameMap.mem_names_iff, hget]
    cases ha : artifacts.get? u with
    | none =>
      rw [hclosure, get?_keptStore, Option.map_none, Option.none_or]
      refine Or.inl ⟨?_, rfl⟩
      rw [Bool.not_eq_true, NameMap.contains_eq_false_iff]
      exact ha
    | some a =>
      refine Or.inr ⟨request, artifacts, a, ?_, hanswer, ha, NameMap.contains_iff.2 ⟨a, ha⟩, rfl⟩
      rw [rebuild_request?, ← hclosure]
      exact hrequest

theorem entry_after_rebuild (hstore : store.KeyedByName) (hcomplete : compiler.Complete)
    {summary : BuildSummary}
    (h : (rebuild (.ofFiles files) store compiler settings t).result = .ok summary) {u : String}
    (hdeclared : (SourceSet.ofFiles files).containsUnit u = true) :
    (∃ request artifacts a f,
      (rebuild (.ofFiles files) store compiler settings t).request? = some request ∧
      compiler request = .ok artifacts ∧ artifacts.get? u = some a ∧
      (SourceSet.ofFiles files).fingerprint? u settings.minifySource = some f ∧
      (rebuild (.ofFiles files) store compiler settings t).store.get? u =
        some { a with name := u, fingerprint := f }) ∨
    (∃ a, store.get? u = some a ∧
        (rebuild (.ofFiles files) store compiler settings t).store.get? u = some a) ∧
      check (.ofFiles files) store settings u = .fresh ∧
      u ∉ rebuildSet (.ofFiles files) store settings := by
  rcases get?_rebuild h u with ⟨hnot, hget⟩ | ⟨request, artifacts, a, hrequest, hanswer, ha, -, hget⟩
  · have hout := not_mem_rebuildSet_of_not_installed hcomplete h hdeclared hnot
    have hfresh : check (.ofFiles files) store settings u = .fresh := by
      by_contra hne
      exact hout (Store.subset_close hstore (mem_staleUnits.2 ⟨hdeclared, hne⟩))
    obtain ⟨a, ha, -⟩ := check_eq_fresh_iff.1 hfresh
    rw [(rebuild_ok h).2.1, if_neg hout] at hget
    exact Or.inr ⟨⟨a, ha, hget.trans ha⟩, hfresh, hout⟩
  · obtain ⟨f, hf⟩ := SourceSet.fingerprint?_of_containsUnit hdeclared settings.minifySource
    refine Or.inl ⟨request, artifacts, a, f, hrequest, hanswer, ha, hf, hget.trans ?_⟩
    rw [Artifact.adopted, hf, Option.getD_some]

end Kept

/-- Units keep their old artifacts only if these were fresh and led to nothing stale. -/
theorem rebuild_keeps_only_current (files : NameMap String) (store : Store) (compiler : Compiler)
    (settings : Settings) (t : FileTree) (summary : BuildSummary) (hstore : store.KeyedByName)
    (hcomplete : compiler.Complete)
    (h : (rebuild (.ofFiles files) store compiler settings t).result = .ok summary) :
    let sources := SourceSet.ofFiles files
    let built := rebuild sources store compiler settings t
    let stale := staleUnits sources store settings
    (∀ u, u ∈ summary.closure ↔ ∃ v ∈ stale, store.Reaches u v) ∧
    ((∃ request, built.request? = some request) ↔ ∃ u, u ∈ stale) ∧
    (∀ request, built.request? = some request → request.settings = settings ∧
      ∀ path text, request.sources.get? path = some text ↔
        files.get? path = some text ∧ ∃ u ∈ summary.closure, sources.path? u = some path) ∧
    (∀ other : Compiler, (∀ request, built.request? = some request →
      other request = compiler request) → rebuild sources store other settings t = built) ∧
    (∀ u, sources.containsUnit u = true → built.store.contains u = true) ∧
    ∀ u, sources.containsUnit u = true →
      (∃ request artifacts a f, built.request? = some request ∧ compiler request = .ok artifacts ∧
        artifacts.get? u = some a ∧ sources.fingerprint? u settings.minifySource = some f ∧
        built.store.get? u = some { a with name := u, fingerprint := f }) ∨
      ((∃ a, store.get? u = some a ∧ built.store.get? u = some a) ∧
        check sources store settings u = .fresh ∧ ∀ v ∈ stale, ¬ store.Reaches u v) := by
  intro sources built stale
  obtain ⟨-, hclosure, -⟩ := rebuild_ok h
  have hmem : ∀ u, u ∈ summary.closure ↔ ∃ v ∈ stale, store.Reaches u v := by
    intro u
    rw [hclosure]
    exact mem_rebuildSet_iff hstore
  have hentry : ∀ u, sources.containsUnit u = true →
      (∃ request artifacts a f, built.request? = some request ∧ compiler request = .ok artifacts ∧
        artifacts.get? u = some a ∧ sources.fingerprint? u settings.minifySource = some f ∧
        built.store.get? u = some { a with name := u, fingerprint := f }) ∨
      ((∃ a, store.get? u = some a ∧ built.store.get? u = some a) ∧
        check sources store settings u = .fresh ∧ ∀ v ∈ stale, ¬ store.Reaches u v) := by
    intro u hdeclared
    rcases entry_after_rebuild hstore hcomplete h hdeclared with hnew | ⟨hold, hfresh, hout⟩
    · exact Or.inl hnew
    · refine Or.inr ⟨hold, hfresh, fun v hv hreach => ?_⟩
      exact hout ((mem_rebuildSet_iff hstore).2 ⟨v, hv, hreach⟩)
  refine ⟨hmem, exists_request_iff hstore, ?_, fun other => rebuild_congr, ?_, hentry⟩
  · intro request hrequest
    rw [rebuild_request?, ← hclosure] at hrequest
    refine ⟨?_, fun path text => get?_request hrequest⟩
    rw [compileRequest?_eq_some hrequest]
  · intro u hdeclared
    refine NameMap.contains_iff.2 ?_
    rcases hentry u hdeclared with ⟨_, _, _, _, -, -, -, -, hget⟩ | ⟨⟨a, -, hget⟩, -⟩
    · exact ⟨_, hget⟩
    · exact ⟨a, hget⟩

namespace Sample

def files (body : String) : NameMap String :=
  .ofList [("contracts/D.sol", "contract D \x7b\x7d"),
    ("contracts/M.sol", "contract M is D \x7b" ++ body ++ "\x7d")]

def built (body : String) (store : Store) : Rebuilt :=
  rebuild (.ofFiles (files body)) store Compiler.outline {} default

def onceBuilt : Store := (built "" .inMemory).store

def editSummary : BuildSummary :=
  { stale := .ofList ["M"], closure := .ofList ["M"], compiledPaths := ["contracts/M.sol"]
    installed := ["M"] }

end Sample

theorem rebuild_keeps_only_current_edited :
    Sample.onceBuilt.KeyedByName ∧ Compiler.outline.Complete ∧
      (Sample.built "uint a;" Sample.onceBuilt).result = .ok Sample.editSummary ∧
      (∃ request, (Sample.built "uint a;" Sample.onceBuilt).request? = some request) ∧
      (Sample.built "uint a;" Sample.onceBuilt).store.contains "D" = true := by
  have hkeys : Sample.onceBuilt.KeyedByName := Store.keyedByName_of_entries (by decide)
  have hok : (Sample.built "uint a;" Sample.onceBuilt).result = .ok Sample.editSummary := by
    decide
  have h := rebuild_keeps_only_current (Sample.files "uint a;") Sample.onceBuilt Compiler.outline {}
    default Sample.editSummary hkeys Compiler.outline_exact.complete hok
  exact ⟨hkeys, Compiler.outline_exact.complete, hok, h.2.1.2 ⟨"M", by decide⟩,
    h.2.2.2.2.1 "D" (by decide)⟩

end ContractBuild
