import ContractBuild.Proofs.Lifecycle
import ContractBuild.Proofs.Planning

/-! A load whose compiler fails. By then invalid files have been deleted and stale artifacts are out
of memory, but the next load reads the artifacts anew, and it finds what this one found. -/

namespace ContractBuild

open FileTree ContractBuild.Path Store

/-- Two loads that agree on all but the invalid files that they came across. -/
structure Loaded.Alike (l l' : Loaded) : Prop where
  result : ∃ discarded, l.result = l'.result.map fun summary => { summary with discarded }
  project : l.project = l'.project
  registry : l.registry = l'.registry
  tree : l.tree = l'.tree
  request : l.request? = l'.request?

namespace Project

section Healed

variable {root : Location} {t : FileTree}

theorem scan_healedAt (ht : t.WellFormed) (hroot : ∀ n ∈ root, IsFileName n) {sources : SourceSet}
    (hscan : SourceSet.scan (.absolute root) t = .ok sources) :
    SourceSet.scan (.absolute root) (healedAt root t) = .ok sources :=
  SourceSet.scan_congr ht (healedAt_wellFormed ht hroot) hroot
    (fun below _ => node?_healedAt_source ht hroot below) hscan

theorem roundAt_healedAt (ht : t.WellFormed) (hroot : ∀ n ∈ root, IsFileName n)
    (hout : Outside (.absolute root) (artifactsAt root) t) (sources : SourceSet)
    (compiler : FileTree → Compiler) (settings : Settings) :
    roundAt root sources compiler settings (healedAt root t) =
      roundAt root sources compiler settings t := by
  obtain ⟨hread, hhealed⟩ := readAt_healedAt ht hroot hout
  rw [roundAt, hread, hhealed, ← roundAt]

end Healed

section Alike

variable {root : Location} {p q : Project} {registry : Registry} {compiler : FileTree → Compiler}
  {settings : Settings} {t t' : FileTree} {files : NameMap String}

theorem load_alike (registry : Registry) (hroot : ∀ n ∈ root, IsFileName n)
    (hp : p.root = .absolute root) (hp' : p.isActive = false) (hq' : q.isActive = false)
    (hname : q.name = p.name) (hat : q.root = p.root) (hhandles : q.handles = p.handles)
    (hscan : SourceSet.scan (.absolute root) t = .ok (.ofFiles files))
    (hscan' : SourceSet.scan (.absolute root) t' = .ok (.ofFiles files))
    (hround : roundAt root (.ofFiles files) compiler settings t' =
      roundAt root (.ofFiles files) compiler settings t)
    (htaken : registry.contains p.name = false) :
    (q.load registry compiler settings t').Alike (p.load registry compiler settings t) := by
  obtain ⟨discarded, hbuild⟩ := build_eq compiler settings hroot hp hscan
  obtain ⟨discarded', hbuild'⟩ := build_eq compiler settings hroot (hat.trans hp) hscan'
  rw [hround] at hbuild'
  generalize roundAt root (.ofFiles files) compiler settings t = r at hbuild hbuild'
  have hregister : registry.register p.name = .ok ⟨registry.active.insert p.name⟩ := by
    rw [Registry.register, if_neg (by rw [htaken]; exact Bool.false_ne_true)]
  rw [load, load, if_neg (by rw [hq']; exact Bool.false_ne_true),
    if_neg (by rw [hp']; exact Bool.false_ne_true), hname, hregister]
  dsimp only at hbuild hbuild' ⊢
  rw [hbuild, hbuild']
  -- Where the projects still differ, a building has written over it.
  rw [hname, hat, hhandles]
  cases r.result with
  | error e => exact ⟨⟨{}, rfl⟩, rfl, rfl, rfl, rfl⟩
  | ok inner => exact ⟨⟨discarded', rfl⟩, rfl, rfl, rfl, rfl⟩

theorem scan_of_asked {request : CompileRequest}
    (hasked : (p.load registry compiler settings t).request? = some request) :
    ∃ files, SourceSet.scan p.root t = .ok (.ofFiles files) := by
  cases hscan : SourceSet.scan p.root t with
  | ok sources =>
    obtain ⟨files, rfl⟩ := SourceSet.scan_ok hscan
    exact ⟨files, rfl⟩
  | error e =>
    have hbuild : p.build compiler settings t =
        (.error (.source e), { p with state := .scanningSources }, t, none) := by
      rw [build, hscan]
    rw [load] at hasked
    split at hasked
    · cases hasked
    · split at hasked
      · cases hasked
      · rw [hbuild] at hasked
        cases hasked

end Alike

def SourcesOutside (p : Project) (t : FileTree) : Prop :=
  ∀ root, (∀ n ∈ root, IsFileName n) → p.root = .absolute root →
    Outside (.absolute root) (artifactsAt root) t

/-- The next load goes as if the failed one had not been. -/
theorem failed_compilation_leaves_no_trace {p : Project} {registry : Registry}
    {compiler : FileTree → Compiler} {settings : Settings} {t : FileTree} {request : CompileRequest}
    {e : CompileError} (hp : p.Reached) (hstate : p.state ≠ .active)
    (hfree : registry.contains p.name = false) (ht : t.WellFormed) (hout : p.SourcesOutside t)
    (hasked : (p.load registry compiler settings t).request? = some request)
    (hfailed : compiler ((storeIn p.root).load p.root t).2.2 request = .error e) :
    let loaded := p.load registry compiler settings t
    loaded.result = .error (.compilation e) ∧ loaded.project.state = .failed ∧
    loaded.project.handles = {} ∧ loaded.registry = registry ∧
    loaded.tree = ((storeIn p.root).load p.root t).2.2 ∧
    (∀ l node, loaded.tree.node? l = some node → t.node? l = some node) ∧
    ∀ other : FileTree → Compiler,
      (loaded.project.load loaded.registry other settings loaded.tree).Alike
        (p.load registry other settings t) := by
  obtain ⟨root, hroot, hat⟩ := hp.exists_root
  have hidle := isActive_eq_false_iff.2 hstate
  rw [hat, load_tree_eq hroot] at hfailed ⊢
  obtain ⟨files, hscan⟩ := scan_of_asked hasked
  rw [hat] at hscan
  obtain ⟨hran, herror, -⟩ :=
    load_of_round registry compiler settings hroot hat hidle hfree hscan
  -- What is asked for is settled before the compiler answers, so it gives the round away.
  have hrequest := hran.request.symm.trans hasked
  rw [roundAt, rebuild_request?] at hrequest
  have hround : roundAt root (.ofFiles files) compiler settings t = _ :=
    rebuild_of_failure hrequest hfailed
  have hresult := herror _ (congrArg Rebuilt.result hround)
  have htree : (p.load registry compiler settings t).tree = healedAt root t :=
    hran.tree.trans (congrArg Rebuilt.tree hround)
  obtain ⟨hname, hkept⟩ := load_identity p registry compiler settings t
  obtain ⟨_, htrim⟩ := healedAt_trimmed ht hroot
  obtain ⟨hended, hhandles, hregistry⟩ :
      (p.load registry compiler settings t).project.state = .failed ∧
        (p.load registry compiler settings t).project.handles = p.handles ∧
        (p.load registry compiler settings t).registry = registry := by
    cases load_ends p registry compiler settings t with
    | refused htaken =>
      rw [hidle, hfree] at htaken
      simp at htaken
    | failed _ _ _ hended hhandles hregistry => exact ⟨hended, hhandles, hregistry⟩
    | loaded _ _ _ hok => cases hresult.symm.trans hok
  generalize p.load registry compiler settings t = loaded at *
  dsimp only
  refine ⟨hresult, hended, hhandles.trans (hp.settled.handles hstate), hregistry, htree, ?_,
    fun other => ?_⟩
  · rw [htree]
    exact fun l node => htrim.node?_of_some
  · rw [htree, hregistry]
    refine load_alike registry hroot hat hidle ?_ hname hkept hhandles hscan
      (scan_healedAt ht hroot hscan)
      (roundAt_healedAt ht hroot (hout root hroot hat) _ other settings) hfree
    rw [isActive, hended]
    rfl

namespace Sample

theorem reopened_reached : reopened.Reached := .opened edited_mirrored.wellFormed opened_edited

theorem reopened_outside : reopened.SourcesOutside edited := by
  rintro (_ | ⟨name, rest⟩) _ hat
  · exact absurd hat (by decide)
  · have hnames : root = name :: rest := (List.cons.inj (congrArg Path.segments hat)).2
    rw [← hnames]
    exact edited_outside

def editedRequest : CompileRequest :=
  ⟨.ofList [("contracts/D.sol", "contract D \x7b uint b; \x7d")], {}⟩

def refusing : Compiler := fun _ => .error (.rejected "no compiler")

def refusedRound : Rebuilt :=
  rebuild (.ofFiles (.ofList editedFiles)) (firstRound.store.over unbuilt) refusing {} edited

theorem refused_round :
    refusedRound.request? = some editedRequest ∧ refusedRound.store.entries = {} := by
  decide +kernel

end Sample

theorem failed_compilation_leaves_no_trace_after_edit :
    let failed := Sample.reopened.load {} (fun _ => Sample.refusing) {} Sample.edited
    failed.request? = some Sample.editedRequest ∧
    failed.result = .error (.compilation (.rejected "no compiler")) ∧
    failed.project.state = .failed ∧ failed.project.store.entries = {} ∧
    failed.tree = Sample.edited ∧
    ∃ discarded handles,
      (failed.project.load failed.registry (fun _ => Compiler.outline) {} failed.tree).result =
        .ok { Sample.secondSummary with discarded, handles } := by
  obtain ⟨-, hscan, hresult⟩ := Sample.second_leads
  obtain ⟨hrequest, hentries⟩ := Sample.refused_round
  have hloaded := fun compiler => load_of_mirrored Sample.reopened {} compiler {} Sample.names_root
    rfl rfl rfl Sample.edited_mirrored Sample.edited_sources hscan
  obtain ⟨-, -, hstore, -, hasked, -⟩ := hloaded fun _ => Sample.refusing
  obtain ⟨-, -, -, -, -, -, hended⟩ := hloaded fun _ => Compiler.outline
  obtain ⟨discarded, handles, hdirect⟩ := hended _ hresult
  have hread : ((storeIn (.absolute Sample.root)).load (.absolute Sample.root)
      Sample.edited).2.2 = Sample.edited := by
    rw [load_tree_eq Sample.names_root]
    exact Sample.readAt_edited.2
  obtain ⟨hfailed, hstate, -, -, htree, -, hagain⟩ :=
    failed_compilation_leaves_no_trace Sample.reopened_reached nofun rfl
      Sample.edited_mirrored.wellFormed Sample.reopened_outside (hasked.trans hrequest) rfl
  obtain ⟨⟨discarded', hsame⟩, -⟩ := hagain fun _ => Compiler.outline
  rw [hdirect] at hsame
  exact ⟨hasked.trans hrequest, hfailed, hstate, (congrArg Store.entries hstore).trans hentries,
    htree.trans hread, discarded', handles, hsame⟩

end Project
end ContractBuild
