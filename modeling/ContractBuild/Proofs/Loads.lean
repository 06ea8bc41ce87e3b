import ContractBuild.Project
import ContractBuild.Proofs.Reuse
import ContractBuild.Proofs.Scanning
import ContractBuild.Proofs.Storing

/-! What a load of a project comes to: a scan, a reading of the artifact directory, and one round of
building in the tree that the reading left. -/

namespace ContractBuild

open FileTree ContractBuild.Path

namespace Project

def artifactsAt (root : Location) : Location := root ++ ["build", "contracts"]

theorem isFileName_artifactsAt {root : Location} (hroot : ∀ n ∈ root, IsFileName n) :
    ∀ n ∈ artifactsAt root, IsFileName n := by
  have hown : ∀ n ∈ ["build", "contracts"], IsFileName n := by decide
  exact List.forall_mem_append.2 ⟨hroot, hown⟩

theorem storeIn_absolute {root : Location} (hroot : ∀ n ∈ root, IsFileName n) :
    storeIn (.absolute root) = .persistent (.absolute (artifactsAt root)) := by
  have hparts : Path.ofText Store.projectDirectory = ⟨["build", "contracts"]⟩ := by decide
  rw [storeIn, joinText, hparts, absolute_join hroot (by decide) (List.cons_ne_nil _ _), artifactsAt]

def readAt (root : Location) (t : FileTree) : Store :=
  Store.found (.absolute root) (artifactsAt root) t

/-- What a load leaves of the artifact files before it builds. -/
def healedAt (root : Location) (t : FileTree) : FileTree :=
  Store.healed (.absolute root) (artifactsAt root) t

def roundAt (root : Location) (sources : SourceSet) (compiler : FileTree → Compiler)
    (settings : Settings) (t : FileTree) : Rebuilt :=
  rebuild sources (readAt root t) (compiler (healedAt root t)) settings (healedAt root t)

theorem sourcesAt_append_ne (root : Location) (below names : List String) :
    SourceSet.sourcesAt root ++ below ≠ artifactsAt root ++ names := by
  rw [SourceSet.sourcesAt, artifactsAt, List.append_assoc, List.append_assoc, ne_eq,
    List.append_cancel_left_eq]
  exact fun h => absurd (List.cons.inj h).1 (by decide)

section Reading

variable {root : Location} {t : FileTree}

theorem load_tree_eq (hroot : ∀ n ∈ root, IsFileName n) :
    ((storeIn (.absolute root)).load (.absolute root) t).2.2 = healedAt root t := by
  rw [storeIn_absolute hroot]
  rfl

theorem healedAt_trimmed (ht : t.WellFormed) (hroot : ∀ n ∈ root, IsFileName n) :
    ∃ names, Store.Trimmed (artifactsAt root) names t (healedAt root t) :=
  ⟨_, Store.load_trimmed _ ht (isFileName_artifactsAt hroot)⟩

theorem healedAt_wellFormed (ht : t.WellFormed) (hroot : ∀ n ∈ root, IsFileName n) :
    (healedAt root t).WellFormed := by
  obtain ⟨_, htrim⟩ := healedAt_trimmed ht hroot
  exact htrim.wellFormed

theorem node?_healedAt_source (ht : t.WellFormed) (hroot : ∀ n ∈ root, IsFileName n)
    (below : List String) : (healedAt root t).node? (SourceSet.sourcesAt root ++ below) =
      t.node? (SourceSet.sourcesAt root ++ below) := by
  obtain ⟨_, htrim⟩ := healedAt_trimmed ht hroot
  rcases htrim.node? (SourceSet.sourcesAt root ++ below) with hsame | ⟨-, -, name, -, he⟩
  · exact hsame
  · exact absurd he (sourcesAt_append_ne root below [name])

end Reading

structure Ran (root : Location) (files : NameMap String) (compiler : FileTree → Compiler)
    (settings : Settings) (t : FileTree) (p : Project) (t' : FileTree)
    (request? : Option CompileRequest) : Prop where
  scan : SourceSet.scan (.absolute root) t = .ok (.ofFiles files)
  root_eq : p.root = .absolute root
  sources : p.sources = .ofFiles files
  store : p.store = (roundAt root (.ofFiles files) compiler settings t).store
  tree : t' = (roundAt root (.ofFiles files) compiler settings t).tree
  request : request? = (roundAt root (.ofFiles files) compiler settings t).request?

section Load

variable {root : Location} {p p' : Project} {registry : Registry} {compiler : FileTree → Compiler}
  {settings : Settings} {t t' : FileTree} {request? : Option CompileRequest}

theorem build_eq (compiler : FileTree → Compiler) (settings : Settings)
    (hroot : ∀ n ∈ root, IsFileName n) (hp : p.root = .absolute root) {sources : SourceSet}
    (hscan : SourceSet.scan (.absolute root) t = .ok sources) :
    ∃ discarded, p.build compiler settings t =
      let r := roundAt root sources compiler settings t
      let left := { p with sources, store := r.store, state := r.state }
      match r.result with
      | .error e => (.error e, left, r.tree, r.request?)
      | .ok inner =>
        (.ok { inner with discarded, handles := r.store.handles.size },
          { left with handles := r.store.handles }, r.tree, r.request?) := by
  rcases hload : (Store.persistent (.absolute (artifactsAt root))).load (.absolute root) t with
    ⟨report, store, t'⟩
  have hround : roundAt root sources compiler settings t =
      rebuild sources store (compiler t') settings t' := by
    rw [roundAt, readAt, healedAt, Store.found, Store.healed, hload]
  refine ⟨report.discarded, ?_⟩
  rw [hround, build, hp, hscan, storeIn_absolute hroot]
  dsimp only
  cases hresult : (rebuild sources store (compiler t') settings t').result with
  | error e => simp only [hload, hresult]
  | ok inner => simp only [hload, hresult]

theorem build_ran (hroot : ∀ n ∈ root, IsFileName n) (hp : p.root = .absolute root)
    {result : Except ProjectError BuildSummary} (hsource : ∀ e, result ≠ .error (.source e))
    (h : p.build compiler settings t = (result, p', t', request?)) :
    ∃ files, Ran root files compiler settings t p' t' request? ∧
      (∀ e, (roundAt root (.ofFiles files) compiler settings t).result = .error e →
        result = .error e) ∧
      ∀ inner, (roundAt root (.ofFiles files) compiler settings t).result = .ok inner →
        ∃ summary, result = .ok summary ∧ summary.stale = inner.stale ∧
          summary.closure = inner.closure ∧ summary.installed = inner.installed := by
  cases hscan : SourceSet.scan (.absolute root) t with
  | error e =>
    rw [build, hp, hscan] at h
    cases h
    exact absurd rfl (hsource e)
  | ok sources =>
    obtain ⟨files, rfl⟩ := SourceSet.scan_ok hscan
    obtain ⟨discarded, hbuild⟩ := build_eq compiler settings hroot hp hscan
    refine ⟨files, ?_⟩
    obtain ⟨r, hr⟩ : ∃ r, roundAt root (.ofFiles files) compiler settings t = r := ⟨_, rfl⟩
    rw [hr] at hbuild ⊢
    rw [h] at hbuild
    dsimp only at hbuild
    split at hbuild
    · rename_i hresult
      cases hbuild
      refine ⟨⟨hscan, hp, rfl, by rw [hr], by rw [hr], by rw [hr]⟩, fun e he => ?_, fun i hi => ?_⟩
      · cases he.symm.trans hresult
        rfl
      · cases hi.symm.trans hresult
    · rename_i inner hresult
      cases hbuild
      refine ⟨⟨hscan, hp, rfl, by rw [hr], by rw [hr], by rw [hr]⟩, fun e he => ?_, fun i hi => ?_⟩
      · cases he.symm.trans hresult
      · cases hi.symm.trans hresult
        exact ⟨_, rfl, rfl, rfl, rfl⟩

theorem load_of_round (registry : Registry) (compiler : FileTree → Compiler)
    (settings : Settings) (hroot : ∀ n ∈ root, IsFileName n) (hp : p.root = .absolute root)
    (hidle : p.isActive = false) (hname : registry.contains p.name = false)
    {files : NameMap String} (hscan : SourceSet.scan (.absolute root) t = .ok (.ofFiles files)) :
    Ran root files compiler settings t (p.load registry compiler settings t).project
        (p.load registry compiler settings t).tree (p.load registry compiler settings t).request? ∧
      (∀ e, (roundAt root (.ofFiles files) compiler settings t).result = .error e →
        (p.load registry compiler settings t).result = .error e) ∧
      ∀ inner, (roundAt root (.ofFiles files) compiler settings t).result = .ok inner →
        ∃ discarded handles, (p.load registry compiler settings t).result =
          .ok { inner with discarded, handles } := by
  obtain ⟨discarded, hbuild⟩ := build_eq compiler settings hroot hp hscan
  have hregister : registry.register p.name = .ok ⟨registry.active.insert p.name⟩ := by
    rw [Registry.register, if_neg (by rw [hname]; exact Bool.false_ne_true)]
  obtain ⟨r, hr⟩ : ∃ r, roundAt root (.ofFiles files) compiler settings t = r := ⟨_, rfl⟩
  rw [load, if_neg (by rw [hidle]; exact Bool.false_ne_true), hregister, hr]
  rw [hr] at hbuild
  dsimp only at hbuild ⊢
  rw [hbuild]
  cases hresult : r.result with
  | error e =>
    refine ⟨⟨hscan, hp, rfl, by rw [hr], by rw [hr], by rw [hr]⟩, fun e' he => ?_, fun i hi => ?_⟩
    · cases he
      rfl
    · cases hi
  | ok inner =>
    refine ⟨⟨hscan, hp, rfl, by rw [hr], by rw [hr], by rw [hr]⟩, fun e' he => ?_, fun i hi => ?_⟩
    · cases he
    · cases hi
      exact ⟨discarded, r.store.handles.size, rfl⟩

theorem load_built {result : Except ProjectError BuildSummary}
    (h : (p.load registry compiler settings t).result = result)
    (hname : ∀ name, result ≠ .error (.alreadyLoaded name)) :
    ∃ p', p.build compiler settings t = (result, p', (p.load registry compiler settings t).tree,
        (p.load registry compiler settings t).request?) ∧
      (p.load registry compiler settings t).project.root = p'.root ∧
      (p.load registry compiler settings t).project.sources = p'.sources ∧
      (p.load registry compiler settings t).project.store = p'.store := by
  subst h
  unfold load at hname ⊢
  split at hname
  · exact absurd rfl (hname _)
  · split at hname
    · rename_i hregister
      rw [Registry.register] at hregister
      split at hregister
      · cases hregister
        exact absurd rfl (hname _)
      · cases hregister
    · rename_i hidle _ registered hregister
      rw [if_neg hidle]
      rcases p.build compiler settings t with ⟨_ | _, p', t', request?⟩
      · exact ⟨p', rfl, rfl, rfl, rfl⟩
      · exact ⟨p', rfl, rfl, rfl, rfl⟩

theorem name_of_build (p : Project) (compiler : FileTree → Compiler) (settings : Settings)
    (t : FileTree) : (p.build compiler settings t).2.1.name = p.name := by
  unfold build
  split
  · rfl
  · dsimp only
    split
    · rfl
    · rfl

theorem load_ok_registered {summary : BuildSummary}
    (h : (p.load registry compiler settings t).result = .ok summary) :
    (p.load registry compiler settings t).project.isActive = true ∧
      (p.load registry compiler settings t).project.name = p.name ∧
      (p.load registry compiler settings t).registry = ⟨registry.active.insert p.name⟩ := by
  have hname := name_of_build p compiler settings t
  unfold load at h ⊢
  split at h
  · cases h
  · rename_i hidle
    split at h
    · cases h
    · rename_i registered hregister
      rw [if_neg hidle]
      rw [Registry.register] at hregister
      split at hregister
      · cases hregister
      · cases hregister
        rcases hbuild : p.build compiler settings t with ⟨_ | _, p', t', request?⟩
        · rw [hbuild] at h
          cases h
        · rw [hbuild] at hname
          exact ⟨rfl, hname, rfl⟩

theorem load_ran (hroot : ∀ n ∈ root, IsFileName n) (hp : p.root = .absolute root)
    {result : Except ProjectError BuildSummary}
    (h : (p.load registry compiler settings t).result = result)
    (hname : ∀ name, result ≠ .error (.alreadyLoaded name))
    (hsource : ∀ e, result ≠ .error (.source e)) :
    ∃ files, Ran root files compiler settings t (p.load registry compiler settings t).project
        (p.load registry compiler settings t).tree (p.load registry compiler settings t).request? ∧
      (∀ e, (roundAt root (.ofFiles files) compiler settings t).result = .error e →
        result = .error e) ∧
      ∀ inner, (roundAt root (.ofFiles files) compiler settings t).result = .ok inner →
        ∃ summary, result = .ok summary ∧ summary.stale = inner.stale ∧
          summary.closure = inner.closure ∧ summary.installed = inner.installed := by
  obtain ⟨p', hbuild, hroot', hsources, hstore⟩ := load_built h hname
  obtain ⟨files, hran, hend⟩ := build_ran hroot hp hsource hbuild
  exact ⟨files, ⟨hran.scan, hroot'.trans hran.root_eq, hsources.trans hran.sources,
    hstore.trans hran.store, hran.tree, hran.request⟩, hend⟩

theorem load_ok (hroot : ∀ n ∈ root, IsFileName n) (hp : p.root = .absolute root)
    {summary : BuildSummary} (h : (p.load registry compiler settings t).result = .ok summary) :
    ∃ files inner, Ran root files compiler settings t (p.load registry compiler settings t).project
        (p.load registry compiler settings t).tree (p.load registry compiler settings t).request? ∧
      (roundAt root (.ofFiles files) compiler settings t).result = .ok inner ∧
      summary.stale = inner.stale ∧ summary.closure = inner.closure ∧
      summary.installed = inner.installed := by
  obtain ⟨files, hran, hfailed, hended⟩ := load_ran hroot hp h (fun _ => nofun) fun _ => nofun
  cases hresult : (roundAt root (.ofFiles files) compiler settings t).result with
  | error e => cases hfailed e hresult
  | ok inner =>
    obtain ⟨_, hsummary, hparts⟩ := hended inner hresult
    cases hsummary
    exact ⟨files, inner, hran, hresult, hparts⟩

theorem closure_of_load (hroot : ∀ n ∈ root, IsFileName n) (hp : p.root = .absolute root)
    {sources : SourceSet} (hscan : SourceSet.scan (.absolute root) t = .ok sources)
    {summary : BuildSummary} (h : (p.load registry compiler settings t).result = .ok summary) :
    summary.closure = rebuildSet sources (readAt root t) settings := by
  obtain ⟨files, inner, hran, hresult, -, hclosure, -⟩ := load_ok hroot hp h
  cases hran.scan.symm.trans hscan
  rw [hclosure]
  exact (rebuild_ok hresult).2.1

theorem load_store_error (hroot : ∀ n ∈ root, IsFileName n) (hp : p.root = .absolute root)
    {e : StoreError} (h : (p.load registry compiler settings t).result = .error (.store e)) :
    ∃ files, Ran root files compiler settings t (p.load registry compiler settings t).project
        (p.load registry compiler settings t).tree (p.load registry compiler settings t).request? ∧
      (roundAt root (.ofFiles files) compiler settings t).result = .error (.store e) := by
  obtain ⟨files, hran, hfailed, hended⟩ := load_ran hroot hp h (fun _ => nofun) fun _ => nofun
  cases hresult : (roundAt root (.ofFiles files) compiler settings t).result with
  | error e' =>
    cases hfailed e' hresult
    exact ⟨files, hran, hresult⟩
  | ok inner =>
    obtain ⟨_, hsummary, -⟩ := hended inner hresult
    cases hsummary

end Load

end Project
end ContractBuild
