import ContractBuild.Proofs.Agreement

/-! Loading once more. After a load with a faithful compiler every declared unit is fresh, on disk as
in memory, so that the next load finds nothing to do. Artifacts of units that nothing declares may
come back from the disk; they are never stale. -/

namespace ContractBuild

open FileTree ContractBuild.Path Store

section Round

variable {files : NameMap String} {store : Store} {compiler : Compiler} {settings : Settings}
  {t : FileTree} {summary : BuildSummary}

theorem check_after_round (hstore : store.KeyedByName) (hcompiler : compiler.Faithful)
    (h : (rebuild (.ofFiles files) store compiler settings t).result = .ok summary) {u : String}
    (hu : (SourceSet.ofFiles files).containsUnit u = true) (old : Store) :
    check (.ofFiles files) ((rebuild (.ofFiles files) store compiler settings t).store.over old)
      settings u = .fresh := by
  rw [check_eq_fresh_iff]
  rcases entry_after_rebuild hstore hcompiler.exact.complete h hu with
    ⟨request, artifacts, a, f, hrequest, hanswer, ha, hf, hget⟩ | ⟨⟨a, ha, hget⟩, hfresh, -⟩
  · have hsettings := (hcompiler.answers request artifacts hanswer u a ha).settings
    rw [rebuild_request?] at hrequest
    rw [compileRequest?_eq_some hrequest] at hsettings
    exact ⟨{ a with name := u, fingerprint := f }, by rw [get?_over, hget, Option.some_or], hf,
      hsettings⟩
  · exact ⟨a, by rw [get?_over, hget, Option.some_or], (check_eq_fresh_of_get? ha).1 hfresh⟩

theorem settled_after_round (hstore : store.KeyedByName) (hcompiler : compiler.Faithful)
    (h : (rebuild (.ofFiles files) store compiler settings t).result = .ok summary) {next : Store}
    (hnext : next = (rebuild (.ofFiles files) store compiler settings t).store.over store)
    (hkeys : next.KeyedByName) :
    staleUnits (.ofFiles files) next settings = {} ∧
      rebuildSet (.ofFiles files) next settings = {} ∧
      compileRequest? (.ofFiles files) settings (rebuildSet (.ofFiles files) next settings) = none := by
  have hstale : ∀ u, u ∉ staleUnits (.ofFiles files) next settings := by
    intro u hu
    obtain ⟨hdeclared, hne⟩ := mem_staleUnits.1 hu
    rw [hnext] at hne
    exact hne (check_after_round hstore hcompiler h hdeclared store)
  have hclosure : ∀ u, u ∉ rebuildSet (.ofFiles files) next settings := by
    intro u hu
    obtain ⟨v, hv, -⟩ := (mem_rebuildSet_iff hkeys).1 hu
    exact hstale v hv
  refine ⟨NameSet.ext_mem fun u => ?_, NameSet.ext_mem fun u => ?_, ?_⟩
  · exact iff_of_false (hstale u) (NameSet.not_mem_empty u)
  · exact iff_of_false (hclosure u) (NameSet.not_mem_empty u)
  · exact compileRequest?_eq_none_iff.2 fun u hu => absurd hu (hclosure u)

end Round

theorem Registry.contains_unregister (r : Registry) (name : String) :
    (r.unregister name).contains name = false := by
  rw [unregister, contains, NameSet.contains_eq_false_iff, NameSet.erase, NameSet.mem_filter,
    bne_self_eq_false]
  exact fun h => nomatch h.2

namespace Project

section Tree

variable {root : Location} {files : NameMap String} {compiler : Compiler} {settings : Settings}
  {store : Store} {t : FileTree} {summary : BuildSummary}

theorem node?_rebuild_source (ht : t.WellFormed) (hroot : ∀ n ∈ root, IsFileName n)
    (hs : store.directory = some (.absolute (artifactsAt root))) (hcompiler : compiler.Storable)
    (h : (rebuild (.ofFiles files) store compiler settings t).result = .ok summary)
    (below : List String) :
    (rebuild (.ofFiles files) store compiler settings t).tree.node?
        (SourceSet.sourcesAt root ++ below) = t.node? (SourceSet.sourcesAt root ++ below) := by
  obtain ⟨-, -, hround⟩ := rebuild_ok h
  rcases hround with ⟨-, -, -, htree⟩ | ⟨request, artifacts, -, hanswer, -, hinstall⟩
  · rw [htree]
  · obtain ⟨hnames, -⟩ := hcompiler.entries hanswer (.ofFiles files) settings.minifySource
    have hkept : (keptStore (.ofFiles files) store settings).directory =
        some (.absolute (artifactsAt root)) := hs
    refine node?_install ht (isFileName_artifactsAt hroot) hkept hinstall hnames fun name hprefix => ?_
    rw [SourceSet.sourcesAt, artifactsAt, List.append_assoc, List.append_assoc,
      List.prefix_append_right_inj] at hprefix
    exact absurd (List.cons_prefix_cons.1 hprefix).1 (by decide)

theorem pathExists_rebuild (ht : t.WellFormed) (hroot : ∀ n ∈ root, IsFileName n)
    (hs : store.directory = some (.absolute (artifactsAt root)))
    (h : (rebuild (.ofFiles files) store compiler settings t).result = .ok summary) {path : Path}
    (hpath : t.pathExists path = true) :
    (rebuild (.ofFiles files) store compiler settings t).tree.pathExists path = true := by
  obtain ⟨-, -, hround⟩ := rebuild_ok h
  rcases hround with ⟨-, -, -, htree⟩ | ⟨request, artifacts, -, -, -, hinstall⟩
  · rw [htree]
    exact hpath
  · have hkept : (keptStore (.ofFiles files) store settings).directory =
        some (.absolute (artifactsAt root)) := hs
    exact pathExists_install ht (isFileName_artifactsAt hroot) hkept hinstall hpath

end Tree

section Load

variable {root : Location} {files : NameMap String} {compiler : FileTree → Compiler}
  {settings : Settings} {t : FileTree} {summary : BuildSummary}

theorem scan_after_round (ht : t.WellFormed) (hroot : ∀ n ∈ root, IsFileName n)
    (hcompiler : ∀ t, (compiler t).Storable)
    (hscan : SourceSet.scan (.absolute root) t = .ok (.ofFiles files))
    (h : (roundAt root (.ofFiles files) compiler settings t).result = .ok summary) :
    SourceSet.scan (.absolute root) (roundAt root (.ofFiles files) compiler settings t).tree =
      .ok (.ofFiles files) := by
  have hl := isFileName_artifactsAt hroot
  have hhealed := healedAt_wellFormed ht hroot
  have hround := (found_mirrored (.absolute root) ht hl).round hl (hcompiler _) h
  refine SourceSet.scan_congr ht hround.wellFormed hroot (fun below _ => ?_) hscan
  exact (node?_rebuild_source hhealed hroot rfl (hcompiler _) h below).trans
    (node?_healedAt_source ht hroot below)

theorem sources_after_round (ht : t.WellFormed) (hroot : ∀ n ∈ root, IsFileName n)
    (hout : Outside (.absolute root) (artifactsAt root) t)
    (hcompiler : ∀ t, (compiler t).Faithful)
    (hscan : SourceSet.scan (.absolute root) t = .ok (.ofFiles files))
    (h : (roundAt root (.ofFiles files) compiler settings t).result = .ok summary) {u : String}
    {a : Artifact} (ha : ((roundAt root (.ofFiles files) compiler settings t).store.over
      (readAt root t)).get? u = some a) :
    (roundAt root (.ofFiles files) compiler settings t).tree.pathExists
      ((Path.absolute root).joinText a.sourcePath) = true := by
  have hl := isFileName_artifactsAt hroot
  have htrim := load_trimmed (.absolute root) ht hl
  have hscanned : SourceSet.scan (.absolute root) (roundAt root (.ofFiles files) compiler settings
      t).tree = .ok (.ofFiles files) :=
    scan_after_round ht hroot (fun t => (hcompiler t).storable) hscan h
  have hround := (found_mirrored (.absolute root) ht hl).round hl (hcompiler _).storable h
  have hread : (readAt root t).get? u = some a →
      (roundAt root (.ofFiles files) compiler settings t).tree.pathExists
        ((Path.absolute root).joinText a.sourcePath) = true := by
    intro hold
    have hdisk := (get?_found ht hl u).symm.trans hold
    have hbefore := htrim.onDisk?_of_some hdisk
    refine pathExists_rebuild htrim.wellFormed hroot rfl h ?_
    exact (htrim.pathExists_iff_of_outside (hout u a hbefore)).2 (source_of_load ht hl hdisk)
  rw [get?_over, Option.or_eq_some_iff] at ha
  rcases ha with ha | ⟨-, ha⟩
  · rcases get?_rebuild h u with ⟨-, hget⟩ | ⟨request, artifacts, b, hrequest, hanswer, hb, -, hget⟩
    · have hkept := ha.symm.trans hget
      split at hkept
      · cases hkept
      · exact hread hkept.symm
    · -- The artifact is new: its source is one of the files that were scanned.
      cases Option.some.inj (ha.symm.trans hget)
      obtain ⟨text, htext, -⟩ := ((hcompiler _).answers request artifacts hanswer u b hb).source
      rw [rebuild_request?] at hrequest
      exact SourceSet.pathExists_of_scan hround.wellFormed hroot hscanned
        (request_within hrequest _ text htext)
  · exact hread ha

theorem round_of_settled (compiler : FileTree → Compiler)
    (hsettled : staleUnits (.ofFiles files) (readAt root t) settings = {} ∧
      rebuildSet (.ofFiles files) (readAt root t) settings = {} ∧
      compileRequest? (.ofFiles files) settings
        (rebuildSet (.ofFiles files) (readAt root t) settings) = none)
    (hleft : healedAt root t = t) :
    (roundAt root (.ofFiles files) compiler settings t).result = .ok {} ∧
      (roundAt root (.ofFiles files) compiler settings t).tree = t ∧
      (roundAt root (.ofFiles files) compiler settings t).request? = none := by
  obtain ⟨hstale, hclosure, hrequest⟩ := hsettled
  rw [roundAt, rebuild_of_no_request hrequest, hstale, hclosure]
  exact ⟨rfl, hleft, rfl⟩

end Load

/-- The compiler is not asked again, so that it may be any other one. -/
theorem second_load_changes_nothing {root : Location} {p : Project} {registry : Registry}
    {compiler : FileTree → Compiler} {settings : Settings} {t : FileTree} {summary : BuildSummary}
    (ht : t.WellFormed) (hroot : ∀ n ∈ root, IsFileName n) (hp : p.root = .absolute root)
    (hout : Outside (.absolute root) (artifactsAt root) t)
    (hcompiler : ∀ t, (compiler t).Faithful)
    (h : (p.load registry compiler settings t).result = .ok summary) :
    let loaded := p.load registry compiler settings t
    ∃ closed registry', loaded.project.close loaded.registry = .ok (closed, registry') ∧
      ∀ other : FileTree → Compiler,
        let again := closed.load registry' other settings loaded.tree
        again.request? = none ∧ again.tree = loaded.tree ∧
          ∃ discarded handles, again.result =
            .ok { stale := {}, closure := {}, compiledPaths := [], installed := [], discarded,
                  handles } := by
  have hl := isFileName_artifactsAt hroot
  obtain ⟨hactive, -, -⟩ := load_ok_registered h
  obtain ⟨files, inner, hran, hresult, -⟩ := load_ok hroot hp h
  generalize p.load registry compiler settings t = loaded at hactive hran ⊢
  obtain ⟨hscan, hat, -, -, htree, -⟩ := hran
  have hstorable := fun t => (hcompiler t).storable
  have hround := (found_mirrored (.absolute root) ht hl).round hl (hstorable _) hresult
  -- The next load scans the same files, and reads what the round has left of the artifacts.
  have hscanned : SourceSet.scan (.absolute root) loaded.tree = .ok (.ofFiles files) := by
    rw [htree]
    exact scan_after_round ht hroot hstorable hscan hresult
  obtain ⟨hread, hleft⟩ : readAt root loaded.tree =
        (roundAt root (.ofFiles files) compiler settings t).store.over (readAt root t) ∧
      healedAt root loaded.tree = loaded.tree := by
    rw [htree]
    exact readAt_of_mirrored hroot hround fun u a ha =>
      sources_after_round ht hroot hout hcompiler hscan hresult ha
  have hsettled := settled_after_round (keyedByName_found ht hl) (hcompiler _) hresult hread
    (by rw [hread]; exact hround.keyedByName)
  dsimp only
  refine ⟨{ loaded.project with handles := {}, state := .idle },
    loaded.registry.unregister loaded.project.name, ?_, fun other => ?_⟩
  · rw [close, if_pos hactive]
  · obtain ⟨hquiet, hsame, hunasked⟩ := round_of_settled other hsettled hleft
    have hfree := Registry.contains_unregister loaded.registry loaded.project.name
    obtain ⟨hran, -, hended⟩ := load_of_round (loaded.registry.unregister loaded.project.name) other
      settings hroot (p := { loaded.project with handles := {}, state := .idle }) hat rfl hfree
      hscanned
    exact ⟨hran.request.trans hunasked, hran.tree.trans hsame, hended _ hquiet⟩

theorem second_load_changes_nothing_after_edit :
    let loaded := Sample.project.load {} (fun _ => Compiler.outline) {} Sample.edited
    (∃ discarded handles, loaded.result = .ok { Sample.secondSummary with discarded, handles }) ∧
    ∃ closed registry', loaded.project.close loaded.registry = .ok (closed, registry') ∧
      let again := closed.load registry' (fun _ => Compiler.outline) {} loaded.tree
      again.request? = none ∧ again.tree = loaded.tree ∧
        ∃ discarded handles, again.result = .ok { stale := {}, discarded, handles } := by
  obtain ⟨-, -, -, -, hended⟩ := Sample.second_leads.load Sample.edited_mirrored
  obtain ⟨discarded, handles, hresult⟩ := hended _ rfl
  obtain ⟨closed, registry', hclosed, hagain⟩ :=
    second_load_changes_nothing Sample.edited_mirrored.wellFormed Sample.names_root rfl
      Sample.edited_outside (fun _ => Compiler.outline_faithful) hresult
  exact ⟨⟨discarded, handles, hresult⟩, closed, registry', hclosed, hagain fun _ => Compiler.outline⟩

end Project
end ContractBuild
