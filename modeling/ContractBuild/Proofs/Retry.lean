import ContractBuild.Proofs.Agreement
import ContractBuild.Proofs.Reuse

/-! What is left to do after a load that failed to store an artifact. The artifacts that were stored
before the failure record the new fingerprints of their sources, so their units are no longer stale,
and a unit that was to be built anew only because of them may be passed over. -/

namespace ContractBuild

open FileTree ContractBuild.Path Store

theorem fingerprint?_eq_adopted {files : NameMap String} {u : String} (minified : Bool)
    (h : (SourceSet.ofFiles files).containsUnit u = true) (a : Artifact) :
    (SourceSet.ofFiles files).fingerprint? u minified =
      some (a.adopted u (.ofFiles files) minified).fingerprint := by
  obtain ⟨f, hf⟩ := SourceSet.fingerprint?_of_containsUnit h minified
  rw [Artifact.adopted, hf, Option.getD_some]

theorem check_installed_iff {files : NameMap String} {s : Store} {settings : Settings} {u : String}
    {a b : Artifact} (hu : (SourceSet.ofFiles files).containsUnit u = true)
    (hb : s.get? u = some b)
    (hread : Artifact.ofText (a.adopted u (.ofFiles files) settings.minifySource).canonicalText =
      .ok b) :
    check (.ofFiles files) s settings u = .fresh ↔ settings.mismatch? b.compiler = none := by
  have hsame := congrArg Artifact.fingerprint (Artifact.eq_of_ofText_canonicalText hread)
  rw [check_eq_fresh_of_get? hb, fingerprint?_eq_adopted settings.minifySource hu a, hsame]
  exact and_iff_right rfl

section Written

variable {sources : SourceSet} {store memory : Store} {settings : Settings} {t t' : FileTree}
  {l : Location} {written : List (String × Artifact)}

theorem contains_install_iff
    (h : (keptStore sources store settings).install sources settings.minifySource t written =
      (.ok (), memory, t')) {u : String} (hu : u ∈ rebuildSet sources store settings) :
    memory.contains u = true ↔ u ∈ written.map (·.1) := by
  have hget : memory.get? u =
      ((adoptedEntries sources settings.minifySource written).reverse.lookup u).or
        ((keptStore sources store settings).get? u) := by
    rw [install_ok h, get?, NameMap.get?_foldl_insert, get?]
  have hkeys : (adoptedEntries sources settings.minifySource written).map (·.1) =
      written.map (·.1) := by
    rw [adoptedEntries, List.map_map]
    rfl
  have hcontains : memory.contains u = (memory.get? u).isSome := rfl
  rw [hcontains, hget, get?_keptStore, if_pos hu, Option.or_none, ← hkeys]
  constructor
  · intro hsome
    obtain ⟨a, ha⟩ := Option.isSome_iff_exists.1 hsome
    rw [List.lookup_eq_some_iff] at ha
    obtain ⟨front, back, he, -⟩ := ha
    have hmem : (u, a) ∈ (adoptedEntries sources settings.minifySource written).reverse := by
      rw [he]
      exact List.mem_append_right _ List.mem_cons_self
    exact List.mem_map.2 ⟨(u, a), List.mem_reverse.1 hmem, rfl⟩
  · intro hmem
    obtain ⟨⟨k, a⟩, ha, rfl⟩ := List.mem_map.1 hmem
    obtain ⟨b, hb⟩ := NameMap.exists_lookup_of_mem (List.mem_reverse.2 ha)
    rw [hb]
    rfl

theorem mem_staleUnits_after_install {files : NameMap String} (hl : ∀ n ∈ l, IsFileName n)
    (hstore : store.Mirrored l t)
    (h : (keptStore (.ofFiles files) store settings).install (.ofFiles files) settings.minifySource t
      written = (.ok (), memory, t'))
    {next : Store} (hnext : ∀ u b, next.get? u = some b → onDisk? t' l u = some b) {u : String}
    (hu : (SourceSet.ofFiles files).containsUnit u = true) :
    u ∈ staleUnits (.ofFiles files) next settings ↔
      next.get? u = none ∨
      (∃ b, next.get? u = some b ∧ settings.mismatch? b.compiler ≠ none) ∨
      (u ∈ staleUnits (.ofFiles files) store settings ∧ memory.contains u = false) := by
  have hclosed : ∀ {v}, v ∈ staleUnits (.ofFiles files) store settings →
      v ∈ rebuildSet (.ofFiles files) store settings := Store.subset_close hstore.keyedByName
  have hstale : ∀ s : Store, u ∈ staleUnits (.ofFiles files) s settings ↔
      check (.ofFiles files) s settings u ≠ .fresh := by
    intro s
    rw [mem_staleUnits, hu]
    exact and_iff_right rfl
  cases hget : next.get? u with
  | none =>
    rw [hstale, ne_eq, check_eq_fresh_iff, hget]
    exact iff_of_true (fun ⟨_, ha, _⟩ => nomatch ha) (Or.inl rfl)
  | some b =>
    have hmismatch : (∃ b', some b = some b' ∧ settings.mismatch? b'.compiler ≠ none) ↔
        settings.mismatch? b.compiler ≠ none := by simp
    rw [hmismatch, or_iff_right (nofun : some b ≠ none)]
    have hdirectory : (keptStore (.ofFiles files) store settings).directory = some (.absolute l) :=
      hstore.directory
    rcases onDisk?_install hstore.wellFormed hl hdirectory h (hnext u b hget) with
      ⟨a, hwritten, hread⟩ | ⟨hout, hold⟩
    · -- The unit was installed, so what was stale about it is in memory again.
      have hin : u ∈ written.map (·.1) := List.mem_map_of_mem (f := (·.1)) hwritten
      rw [hstale, ne_eq, check_installed_iff hu hget hread]
      refine (or_iff_left ?_).symm
      rintro ⟨hbefore, hmissing⟩
      rw [(contains_install_iff h (hclosed hbefore)).2 hin] at hmissing
      cases hmissing
    · -- The unit was not installed: its artifact is the one that was read before.
      rw [hstore.onDisk?_eq] at hold
      have hsame : u ∈ staleUnits (.ofFiles files) next settings ↔
          u ∈ staleUnits (.ofFiles files) store settings := by
        rw [hstale, hstale, check_congr (hget.trans hold.symm)]
      constructor
      · intro hafter
        have hbefore := hsame.1 hafter
        refine Or.inr ⟨hbefore, ?_⟩
        rw [← Bool.not_eq_true, contains_install_iff h (hclosed hbefore)]
        exact hout
      · rintro (hne | ⟨hbefore, -⟩)
        · rw [hstale, ne_eq, check_eq_fresh_of_get? hget]
          exact fun hfresh => hne hfresh.2
        · exact hsame.2 hbefore

end Written

namespace Project

/-- Stale units that were stored before the failure give their dependents away no more. -/
theorem retry_closure_iff {root : Location} {p : Project} {registry : Registry}
    {compiler : FileTree → Compiler} {settings : Settings} {t : FileTree} {files : NameMap String}
    {e : StoreError} (ht : t.WellFormed) (hroot : ∀ n ∈ root, IsFileName n)
    (hp : p.root = .absolute root)
    (hscan : SourceSet.scan (.absolute root) t = .ok (.ofFiles files))
    (h : (p.load registry compiler settings t).result = .error (.store e)) :
    let loaded := p.load registry compiler settings t
    let sources := SourceSet.ofFiles files
    let memory := loaded.project.store
    let stale := staleUnits sources (readAt root t) settings
    let closure := rebuildSet sources (readAt root t) settings
    (∃ request artifacts written failing rest, loaded.request? = some request ∧
      compiler (healedAt root t) request = .ok artifacts ∧
      artifacts.entries = written ++ failing :: rest ∧
      ∀ u ∈ closure, memory.contains u = true ↔ u ∈ written.map (·.1)) ∧
    ∀ t' : FileTree, t'.WellFormed →
      (∀ u a, onDisk? t' (artifactsAt root) u = some a →
        onDisk? loaded.tree (artifactsAt root) u = some a) →
      (∀ v, v ∈ rebuildSet sources (readAt root t') settings ↔
        ∃ u, sources.containsUnit u = true ∧ (readAt root t').Reaches v u ∧
          ((readAt root t').get? u = none ∨
            (∃ b, (readAt root t').get? u = some b ∧ settings.mismatch? b.compiler ≠ none) ∨
            (u ∈ stale ∧ memory.contains u = false))) ∧
      ∀ (p' : Project) (registry' : Registry) (compiler' : FileTree → Compiler)
        (summary : BuildSummary), p'.root = .absolute root →
        SourceSet.scan (.absolute root) t' = .ok sources →
        (p'.load registry' compiler' settings t').result = .ok summary →
        summary.closure = rebuildSet sources (readAt root t') settings := by
  have hl := isFileName_artifactsAt hroot
  have hstore : (readAt root t).Mirrored (artifactsAt root) (healedAt root t) :=
    found_mirrored _ ht hl
  obtain ⟨files', hran, hresult⟩ := load_store_error hroot hp h
  cases hran.scan.symm.trans hscan
  generalize p.load registry compiler settings t = loaded at hran ⊢
  obtain ⟨-, -, -, hmemory, htree, hrequest⟩ := hran
  rw [roundAt] at hmemory htree hrequest hresult
  obtain ⟨request, artifacts, hasked, hanswer, hinstall⟩ := rebuild_store_error hresult
  obtain ⟨written, u, a, rest, t₁, hentries, hwritten, hfailed⟩ := install_error hinstall
  rw [← hmemory] at hwritten hfailed
  rw [← htree] at hfailed
  rw [rebuild_request?, hasked] at hrequest
  dsimp only
  refine ⟨⟨request, artifacts, written, (u, a), rest, hrequest, hanswer, hentries,
    fun v hv => contains_install_iff hwritten hv⟩, fun t' ht' hsame => ⟨fun v => ?_, ?_⟩⟩
  · have hdirectory : loaded.project.store.directory = some (.absolute (artifactsAt root)) := by
      rw [install_ok hwritten]
      rfl
    -- The addition that failed has made directories at most: what is on disk was stored before it.
    have hextends := add_error_extends (install_wellFormed hstore.wellFormed hl rfl hwritten) hl
      hdirectory hfailed
    have hnext : ∀ w b, (readAt root t').get? w = some b →
        onDisk? t₁ (artifactsAt root) w = some b := by
      intro w b hb
      have hb' := (get?_found ht' hl w).symm.trans hb
      have hdisk := hsame w b ((load_trimmed _ ht' hl).onDisk?_of_some hb')
      rw [onDisk?_of_extends hextends] at hdisk
      exact hdisk
    have hstale := fun w hw => mem_staleUnits_after_install hl hstore hwritten hnext (u := w) hw
    have hkeys : (readAt root t').KeyedByName := keyedByName_found ht' hl
    rw [mem_rebuildSet_iff hkeys]
    constructor
    · rintro ⟨w, hw, hreach⟩
      have hdeclared := stale_subset_declared hw
      exact ⟨w, hdeclared, hreach, (hstale w hdeclared).1 hw⟩
    · rintro ⟨w, hdeclared, hreach, hwhy⟩
      exact ⟨w, (hstale w hdeclared).2 hwhy, hreach⟩
  · intro p' registry' compiler' summary hp' hscan' hok
    exact closure_of_load hroot hp' hscan' hok

namespace Sample

def obstacle : Path := .absolute (artifactsAt root ++ ["E.json"])

def extended : FileTree :=
  write (write firstRound.tree "D.sol" "contract D \x7b uint b; \x7d") "E.sol"
    "contract E \x7b\x7d"

def obstructed : FileTree := (extended.makeDirectory obstacle).toOption.getD extended

def extendedFiles : List (String × String) :=
  [("contracts/D.sol", "contract D \x7b uint b; \x7d"), ("contracts/E.sol", "contract E \x7b\x7d"),
    ("contracts/M.sol", "contract M is D \x7b\x7d")]

def failedRound : Rebuilt := round extendedFiles (firstRound.store.over unbuilt) obstructed

def cleared : FileTree := (failedRound.tree.removeAll obstacle).2

def retriedSummary : BuildSummary :=
  { stale := .ofList ["E"], closure := .ofList ["E"], compiledPaths := ["contracts/E.sol"]
    installed := ["E"] }

theorem names_obstacle : ∀ n ∈ artifactsAt root ++ ["E.json"], IsFileName n := by decide

theorem extended_mirrored : (firstRound.store.over unbuilt).Mirrored (artifactsAt root) extended := by
  have h := write_edited first_mirrored.wellFormed (by decide : IsFileName "D.sol")
    "contract D \x7b uint b; \x7d"
  exact (h.trans (write_edited h.wellFormed (by decide) _)).mirrored first_mirrored

theorem obstructed_mirrored :
    (firstRound.store.over unbuilt).Mirrored (artifactsAt root) obstructed := by
  rw [obstructed]
  cases hmade : extended.makeDirectory obstacle with
  | error e => exact extended_mirrored
  | ok t =>
    have h := makeDirectory_extends extended_mirrored.wellFormed (plain_absolute names_obstacle) hmade
    exact extended_mirrored.of_sameFiles h.wellFormed fun _ _ => h.node?_file_iff

theorem failed_round :
    Leads extendedFiles (firstRound.store.over unbuilt) obstructed
      (.error (.store (.file obstacle .isDirectory))) ∧
    failedRound.store.contains "M" = false ∧ failedRound.tree.workingDirectory = [] ∧
    failedRound.tree.find obstacle = .ok (artifactsAt root ++ ["E.json"], .directory) ∧
    (failedRound.tree.nodes.all fun e =>
      !(artifactsAt root ++ ["E.json"]).isPrefixOf e.1 || e.2 == .directory) = true := by
  decide +kernel

theorem obstructed_leads : Leads extendedFiles (firstRound.store.over unbuilt) obstructed
    (.error (.store (.file obstacle .isDirectory))) := failed_round.1

theorem failed_mirrored : (failedRound.store.over (firstRound.store.over unbuilt)).Mirrored
    (artifactsAt root) failedRound.tree := obstructed_leads.failed_mirrored obstructed_mirrored

theorem cleared_sameFiles (k : Location) (content : List UInt8) :
    cleared.node? k = some (.file content) ↔ failedRound.tree.node? k = some (.file content) := by
  obtain ⟨-, -, -, hobstacle, hempty⟩ := failed_round
  exact removeAll_sameFiles hobstacle hempty k content

theorem cleared_mirrored : (failedRound.store.over (firstRound.store.over unbuilt)).Mirrored
    (artifactsAt root) cleared := by
  obtain ⟨-, -, hworking, hobstacle, -⟩ := failed_round
  refine failed_mirrored.of_sameFiles ?_ cleared_sameFiles
  rw [cleared, removeAll, hobstacle]
  refine failed_mirrored.wellFormed.removeBelow ?_
  rw [hworking]
  decide

theorem cleared_round :
    Leads extendedFiles (failedRound.store.over (firstRound.store.over unbuilt)) cleared
      (.ok retriedSummary) ∧
    (SourceSet.ofFiles (.ofList extendedFiles)).containsUnit "E" = true ∧
    (SourceSet.ofFiles (.ofList extendedFiles)).containsUnit "M" = true ∧
    (failedRound.store.over (firstRound.store.over unbuilt)).get? "E" = none ∧
    "M" ∈ rebuildSet (.ofFiles (.ofList extendedFiles)) (firstRound.store.over unbuilt) {} ∧
    "M" ∉ retriedSummary.closure := by decide +kernel

theorem cleared_leads : Leads extendedFiles (failedRound.store.over (firstRound.store.over unbuilt))
    cleared (.ok retriedSummary) := cleared_round.1

end Sample

theorem retry_closure_after_obstacle :
    let failed := Sample.project.load {} (fun _ => Compiler.outline) {} Sample.obstructed
    failed.result = .error (.store (.file Sample.obstacle .isDirectory)) ∧
    "E" ∈ rebuildSet (.ofFiles (.ofList Sample.extendedFiles)) (readAt Sample.root Sample.cleared)
      {} := by
  obtain ⟨-, -, htree, hended, -⟩ := Sample.obstructed_leads.load Sample.obstructed_mirrored
  have hfailed := hended _ rfl
  have h := (retry_closure_iff Sample.obstructed_mirrored.wellFormed Sample.names_root rfl
    Sample.obstructed_leads.2.1 hfailed).2 Sample.cleared Sample.cleared_mirrored.wellFormed
  generalize Sample.project.load {} (fun _ => Compiler.outline) {} Sample.obstructed = failed
    at htree hfailed h ⊢
  dsimp only at h ⊢
  refine ⟨hfailed, ?_⟩
  have hsame : ∀ u a, onDisk? Sample.cleared (artifactsAt Sample.root) u = some a →
      onDisk? failed.tree (artifactsAt Sample.root) u = some a := by
    intro u a ha
    rw [onDisk?_of_sameFiles Sample.cleared_sameFiles] at ha
    rw [htree]
    exact ha
  obtain ⟨-, hdeclared, -, hnone, -⟩ := Sample.cleared_round
  refine ((h hsame).1 "E").2 ⟨"E", hdeclared, .refl, Or.inl ?_⟩
  rw [Sample.cleared_leads.readAt Sample.cleared_mirrored]
  exact hnone

/-- The dependent would have been stored after the obstacle. -/
theorem retry_passes_over_dependent :
    let failed := Sample.project.load {} (fun _ => Compiler.outline) {} Sample.obstructed
    let retried := Sample.project.load {} (fun _ => Compiler.outline) {} Sample.cleared
    Compiler.outline.Complete ∧
    failed.result = .error (.store (.file Sample.obstacle .isDirectory)) ∧
    Sample.cleared = (failed.tree.removeAll Sample.obstacle).2 ∧
    SourceSet.scan (.absolute Sample.root) Sample.obstructed =
      .ok (.ofFiles (.ofList Sample.extendedFiles)) ∧
    SourceSet.scan (.absolute Sample.root) Sample.cleared =
      .ok (.ofFiles (.ofList Sample.extendedFiles)) ∧
    (SourceSet.ofFiles (.ofList Sample.extendedFiles)).containsUnit "M" = true ∧
    "M" ∈ rebuildSet (.ofFiles (.ofList Sample.extendedFiles)) (readAt Sample.root Sample.obstructed)
      {} ∧
    failed.project.store.contains "M" = false ∧
    (∃ discarded handles, retried.result =
      .ok { Sample.retriedSummary with discarded, handles }) ∧
    "M" ∉ Sample.retriedSummary.closure := by
  obtain ⟨-, hstore, htree, hended, -⟩ := Sample.obstructed_leads.load Sample.obstructed_mirrored
  obtain ⟨-, -, -, -, hretried⟩ := Sample.cleared_leads.load Sample.cleared_mirrored
  have hfailed := hended _ rfl
  have hresult := hretried _ rfl
  generalize Sample.project.load {} (fun _ => Compiler.outline) {} Sample.obstructed = failed
    at hstore htree hfailed ⊢
  generalize Sample.project.load {} (fun _ => Compiler.outline) {} Sample.cleared = retried
    at hresult ⊢
  obtain ⟨-, -, hdeclared, -, hbefore, hout⟩ := Sample.cleared_round
  refine ⟨Compiler.outline_exact.complete, hfailed, ?_, Sample.obstructed_leads.2.1,
    Sample.cleared_leads.2.1, hdeclared, ?_, ?_, hresult, hout⟩
  · rw [htree]
    rfl
  · rw [Sample.obstructed_leads.readAt Sample.obstructed_mirrored]
    exact hbefore
  · rw [hstore]
    exact Sample.failed_round.2.1

end Project
end ContractBuild
