import ContractBuild.Project.Rebuild
import ContractBuild.Proofs.Reachability
import ContractBuild.Proofs.SourceIndex

/-! What one round of building asks of the compiler and what it leaves in memory: the artifacts that
were read, less the closure of the stale units, overwritten by what the compiler returned. -/

namespace ContractBuild

theorem mem_staleUnits {sources : SourceSet} {store : Store} {settings : Settings} {u : String} :
    u ∈ staleUnits sources store settings ↔
      sources.containsUnit u = true ∧ check sources store settings u ≠ .fresh := by
  rw [staleUnits, NameSet.mem_filter, NameMap.mem_nameSet, Staleness.isStale, bne_iff_ne,
    SourceSet.containsUnit]

theorem check_eq_fresh_iff {sources : SourceSet} {store : Store} {settings : Settings} {u : String} :
    check sources store settings u = .fresh ↔
      ∃ a, store.get? u = some a ∧
        sources.fingerprint? u settings.minifySource = some a.fingerprint ∧
        settings.mismatch? a.compiler = none := by
  rw [check]
  cases store.get? u with
  | none => simp
  | some a =>
    cases sources.fingerprint? u settings.minifySource with
    | none => simp
    | some f =>
      by_cases hf : f = a.fingerprint
      · cases hm : settings.mismatch? a.compiler <;> simp [hf, hm]
      · simp [hf]

theorem check_eq_fresh_of_get? {sources : SourceSet} {s : Store} {settings : Settings} {u : String}
    {a : Artifact} (ha : s.get? u = some a) :
    check sources s settings u = .fresh ↔
      sources.fingerprint? u settings.minifySource = some a.fingerprint ∧
        settings.mismatch? a.compiler = none := by
  rw [check_eq_fresh_iff, ha]
  simp

theorem check_congr {sources : SourceSet} {s s' : Store} {settings : Settings} {u : String}
    (h : s.get? u = s'.get? u) : check sources s settings u = check sources s' settings u := by
  rw [check, check, h]

namespace SourceSet

theorem mem_pathsOf {s : SourceSet} {units : NameSet} {path : String} :
    path ∈ s.pathsOf units ↔ ∃ u ∈ units, s.path? u = some path := by
  rw [pathsOf, NameSet.mem_ofList, List.mem_filterMap]
  rfl

theorem get?_textsOf {s : SourceSet} {paths : NameSet} {path text : String} :
    (s.textsOf paths).get? path = some text ↔ path ∈ paths ∧ s.text? path = some text := by
  have hmem : ∀ v, (path, v) ∈ paths.names.filterMap (fun p => (s.text? p).map (p, ·)) ↔
      path ∈ paths ∧ s.text? path = some v := by
    intro v
    simp only [List.mem_filterMap, Option.map_eq_some_iff, Prod.mk.injEq]
    constructor
    · rintro ⟨p, hp, w, hw, rfl, rfl⟩
      exact ⟨hp, hw⟩
    · rintro ⟨hp, hv⟩
      exact ⟨path, hp, v, hv, rfl, rfl⟩
  rw [textsOf, NameMap.get?_ofList_iff, hmem]
  intro v w hv hw
  exact Option.some.inj (((hmem v).1 hv).2.symm.trans ((hmem w).1 hw).2)

end SourceSet

theorem compileRequest?_eq_none_iff {sources : SourceSet} {settings : Settings} {units : NameSet} :
    compileRequest? sources settings units = none ↔ ∀ u ∈ units, sources.path? u = none := by
  rw [compileRequest?]
  simp only [ite_eq_left_iff, reduceCtorEq, imp_false, not_not, NameSet.isEmpty_iff,
    SourceSet.mem_pathsOf]
  constructor
  · intro h u hu
    exact Option.eq_none_iff_forall_ne_some.2 fun path hpath => h path ⟨u, hu, hpath⟩
  · rintro h path ⟨u, hu, hpath⟩
    rw [h u hu] at hpath
    cases hpath

theorem compileRequest?_eq_some {sources : SourceSet} {settings : Settings} {units : NameSet}
    {request : CompileRequest} (h : compileRequest? sources settings units = some request) :
    request = ⟨sources.textsOf (sources.pathsOf units), settings⟩ := by
  rw [compileRequest?] at h
  split at h
  · cases h
  · exact (Option.some.inj h).symm

theorem get?_request {files : NameMap String} {settings : Settings} {units : NameSet}
    {request : CompileRequest} (h : compileRequest? (.ofFiles files) settings units = some request)
    {path text : String} : request.sources.get? path = some text ↔
      files.get? path = some text ∧ ∃ u ∈ units, (SourceSet.ofFiles files).path? u = some path := by
  rw [compileRequest?_eq_some h, SourceSet.get?_textsOf, SourceSet.mem_pathsOf]
  constructor
  · rintro ⟨⟨u, hu, hpath⟩, htext⟩
    obtain ⟨t, ht, -⟩ := SourceSet.declared_at_path hpath
    rw [SourceSet.text?_of_path ht] at htext
    exact ⟨ht.trans htext, u, hu, hpath⟩
  · rintro ⟨htext, hu⟩
    exact ⟨hu, SourceSet.text?_of_path htext⟩

namespace Store

theorem add_ok {s s' : Store} {a : Artifact} {t t' : FileTree} (h : s.add a t = (.ok (), s', t')) :
    s' = { s with entries := s.entries.insert a.name a } := by
  rw [add] at h
  split at h
  · cases h
    rfl
  · split at h
    · cases h
    · cases h
      rfl

theorem add_error {s s' : Store} {a : Artifact} {t t' : FileTree} {e : StoreError}
    (h : s.add a t = (.error e, s', t')) : s' = s := by
  rw [add] at h
  split at h
  · cases h
  · split at h
    · cases h
      rfl
    · cases h

variable {sources : SourceSet} {minified : Bool}

def adoptedEntries (sources : SourceSet) (minified : Bool) (l : List (String × Artifact)) :
    List (String × Artifact) :=
  l.map fun e => (e.1, e.2.adopted e.1 sources minified)

theorem lookup_adoptedEntries (l : List (String × Artifact)) (u : String) :
    (adoptedEntries sources minified l).lookup u =
      (l.lookup u).map (·.adopted u sources minified) := by
  induction l with
  | nil => rfl
  | cons e rest ih =>
    obtain ⟨k, a⟩ := e
    rw [adoptedEntries, List.map_cons, NameMap.lookup_cons_ite, NameMap.lookup_cons_ite,
      ← adoptedEntries, ih]
    by_cases h : u = k
    · rw [if_pos h, if_pos h, h, Option.map_some]
    · rw [if_neg h, if_neg h]

theorem install_ok {l : List (String × Artifact)} {s s' : Store} {t t' : FileTree}
    (h : s.install sources minified t l = (.ok (), s', t')) :
    s' = { s with entries :=
      (adoptedEntries sources minified l).foldl (fun m e => m.insert e.1 e.2) s.entries } := by
  induction l generalizing s t with
  | nil =>
    cases h
    rfl
  | cons e rest ih =>
    obtain ⟨unit, a⟩ := e
    rw [install] at h
    split at h
    · cases h
    · rename_i hadd
      rw [ih h, add_ok hadd]
      rfl

theorem install_error {l : List (String × Artifact)} {s s' : Store} {t t' : FileTree}
    {e : StoreError} (h : s.install sources minified t l = (.error e, s', t')) :
    ∃ written unit a rest t₁, l = written ++ (unit, a) :: rest ∧
      s.install sources minified t written = (.ok (), s', t₁) ∧
      s'.add (a.adopted unit sources minified) t₁ = (.error e, s', t') := by
  induction l generalizing s t with
  | nil => cases h
  | cons entry rest ih =>
    obtain ⟨unit, a⟩ := entry
    rw [install] at h
    split at h
    · rename_i hadd
      cases h
      refine ⟨[], unit, a, rest, t, rfl, ?_, ?_⟩
      · rw [add_error hadd, install]
      · have hs := add_error hadd
        subst hs
        exact hadd
    · rename_i hadd
      obtain ⟨written, u, b, more, t₁, rfl, hok, herr⟩ := ih h
      refine ⟨(unit, a) :: written, u, b, more, t₁, rfl, ?_, herr⟩
      rw [install, hadd]
      exact hok

theorem lookup_reverse_adoptedEntries (artifacts : NameMap Artifact) (u : String) :
    (adoptedEntries sources minified artifacts.entries).reverse.lookup u =
      (artifacts.get? u).map (·.adopted u sources minified) := by
  have hrev : (adoptedEntries sources minified artifacts.entries).reverse =
      adoptedEntries sources minified artifacts.entries.reverse := by
    rw [adoptedEntries, adoptedEntries, List.map_reverse]
  rw [hrev, lookup_adoptedEntries, NameMap.lookup_reverse_entries]

theorem get?_install {artifacts : NameMap Artifact} {s s' : Store} {t t' : FileTree}
    (h : s.install sources minified t artifacts.entries = (.ok (), s', t')) (u : String) :
    s'.get? u = ((artifacts.get? u).map (·.adopted u sources minified)).or (s.get? u) := by
  rw [install_ok h, get?, NameMap.get?_foldl_insert, lookup_reverse_adoptedEntries, get?]

end Store

section Rounds

variable {sources : SourceSet} {store : Store} {compiler : Compiler} {settings : Settings}
  {t : FileTree}

def rebuildSet (sources : SourceSet) (store : Store) (settings : Settings) : NameSet :=
  store.close (staleUnits sources store settings)

def keptStore (sources : SourceSet) (store : Store) (settings : Settings) : Store :=
  (store.evict (rebuildSet sources store settings)).2

theorem get?_keptStore (sources : SourceSet) (store : Store) (settings : Settings) (u : String) :
    (keptStore sources store settings).get? u =
      if u ∈ rebuildSet sources store settings then none else store.get? u :=
  Store.get?_evict store _ u

theorem rebuild_of_no_request
    (h : compileRequest? sources settings (rebuildSet sources store settings) = none) :
    rebuild sources store compiler settings t =
      { result := .ok { stale := staleUnits sources store settings
                        closure := rebuildSet sources store settings }
        store := keptStore sources store settings, tree := t, state := .detectingChanges } := by
  rw [rebuildSet] at h
  rw [rebuild, keptStore, rebuildSet, h]

theorem rebuild_of_answer {request : CompileRequest} {artifacts : NameMap Artifact} {s' : Store}
    {t' : FileTree}
    (h : compileRequest? sources settings (rebuildSet sources store settings) = some request)
    (hanswer : compiler request = .ok artifacts)
    (hinstall : (keptStore sources store settings).install sources settings.minifySource t
      artifacts.entries = (.ok (), s', t')) :
    rebuild sources store compiler settings t =
      { result := .ok { stale := staleUnits sources store settings
                        closure := rebuildSet sources store settings
                        compiledPaths := request.sources.names, installed := artifacts.names }
        store := s', tree := t', state := .installingArtifacts, request? := some request } := by
  rw [keptStore, rebuildSet] at hinstall
  rw [rebuildSet] at h
  rw [rebuild, rebuildSet, h]
  dsimp only
  rw [hanswer]
  dsimp only
  rw [hinstall]

theorem rebuild_of_failure {request : CompileRequest} {e : CompileError}
    (h : compileRequest? sources settings (rebuildSet sources store settings) = some request)
    (hanswer : compiler request = .error e) :
    rebuild sources store compiler settings t =
      { result := .error (.compilation e), store := keptStore sources store settings, tree := t
        state := .compiling, request? := some request } := by
  rw [rebuildSet] at h
  rw [rebuild, keptStore, rebuildSet, h]
  dsimp only
  rw [hanswer]

theorem rebuild_of_store_error {request : CompileRequest} {artifacts : NameMap Artifact}
    {e : StoreError} {s' : Store} {t' : FileTree}
    (h : compileRequest? sources settings (rebuildSet sources store settings) = some request)
    (hanswer : compiler request = .ok artifacts)
    (hinstall : (keptStore sources store settings).install sources settings.minifySource t
      artifacts.entries = (.error e, s', t')) :
    rebuild sources store compiler settings t =
      { result := .error (.store e), store := s', tree := t', state := .installingArtifacts
        request? := some request } := by
  rw [keptStore, rebuildSet] at hinstall
  rw [rebuildSet] at h
  rw [rebuild, h]
  dsimp only
  rw [hanswer]
  dsimp only
  rw [hinstall]

/-- The ways in which a round can end. -/
inductive Rebuilt.Ends (sources : SourceSet) (store : Store) (compiler : Compiler)
    (settings : Settings) (t : FileTree) : Rebuilt → Prop where
  | unasked (h : compileRequest? sources settings (rebuildSet sources store settings) = none) :
    Ends sources store compiler settings t
      { result := .ok { stale := staleUnits sources store settings
                        closure := rebuildSet sources store settings }
        store := keptStore sources store settings, tree := t, state := .detectingChanges }
  | unanswered {request : CompileRequest} {e : CompileError}
      (h : compileRequest? sources settings (rebuildSet sources store settings) = some request)
      (hanswer : compiler request = .error e) :
    Ends sources store compiler settings t
      { result := .error (.compilation e), store := keptStore sources store settings, tree := t
        state := .compiling, request? := some request }
  | stopped {request : CompileRequest} {artifacts : NameMap Artifact} {e : StoreError} {s' : Store}
      {t' : FileTree}
      (h : compileRequest? sources settings (rebuildSet sources store settings) = some request)
      (hanswer : compiler request = .ok artifacts)
      (hinstall : (keptStore sources store settings).install sources settings.minifySource t
        artifacts.entries = (.error e, s', t')) :
    Ends sources store compiler settings t
      { result := .error (.store e), store := s', tree := t', state := .installingArtifacts
        request? := some request }
  | installed {request : CompileRequest} {artifacts : NameMap Artifact} {s' : Store}
      {t' : FileTree}
      (h : compileRequest? sources settings (rebuildSet sources store settings) = some request)
      (hanswer : compiler request = .ok artifacts)
      (hinstall : (keptStore sources store settings).install sources settings.minifySource t
        artifacts.entries = (.ok (), s', t')) :
    Ends sources store compiler settings t
      { result := .ok { stale := staleUnits sources store settings
                        closure := rebuildSet sources store settings
                        compiledPaths := request.sources.names, installed := artifacts.names }
        store := s', tree := t', state := .installingArtifacts, request? := some request }

theorem rebuild_ends (sources : SourceSet) (store : Store) (compiler : Compiler)
    (settings : Settings) (t : FileTree) :
    Rebuilt.Ends sources store compiler settings t (rebuild sources store compiler settings t) := by
  cases hr : compileRequest? sources settings (rebuildSet sources store settings) with
  | none =>
    rw [rebuild_of_no_request hr]
    exact .unasked hr
  | some request =>
    cases hc : compiler request with
    | error e =>
      rw [rebuild_of_failure hr hc]
      exact .unanswered hr hc
    | ok artifacts =>
      rcases hi : (keptStore sources store settings).install sources settings.minifySource t
        artifacts.entries with ⟨e | ⟨⟩, s', t'⟩
      · rw [rebuild_of_store_error hr hc hi]
        exact .stopped hr hc hi
      · rw [rebuild_of_answer hr hc hi]
        exact .installed hr hc hi

theorem rebuild_request? : (rebuild sources store compiler settings t).request? =
    compileRequest? sources settings (rebuildSet sources store settings) := by
  have hends := rebuild_ends sources store compiler settings t
  generalize rebuild sources store compiler settings t = round at hends ⊢
  cases hends with
  | unasked h => exact h.symm
  | unanswered h => exact h.symm
  | stopped h => exact h.symm
  | installed h => exact h.symm

/-- The compiler has no say in a round but by its answer to the one request. -/
theorem rebuild_congr {other : Compiler}
    (h : ∀ request, (rebuild sources store compiler settings t).request? = some request →
      other request = compiler request) :
    rebuild sources store other settings t = rebuild sources store compiler settings t := by
  rw [rebuild_request?] at h
  have hends := rebuild_ends sources store compiler settings t
  generalize rebuild sources store compiler settings t = round at hends ⊢
  cases hends with
  | unasked hr => exact rebuild_of_no_request hr
  | unanswered hr hc => exact rebuild_of_failure hr ((h _ hr).trans hc)
  | stopped hr hc hi => exact rebuild_of_store_error hr ((h _ hr).trans hc) hi
  | installed hr hc hi => exact rebuild_of_answer hr ((h _ hr).trans hc) hi

theorem rebuild_ok {summary : BuildSummary}
    (h : (rebuild sources store compiler settings t).result = .ok summary) :
    summary.stale = staleUnits sources store settings ∧
    summary.closure = rebuildSet sources store settings ∧
    ((compileRequest? sources settings summary.closure = none ∧ summary.installed = [] ∧
        (rebuild sources store compiler settings t).store = keptStore sources store settings ∧
        (rebuild sources store compiler settings t).tree = t) ∨
      ∃ request artifacts,
        compileRequest? sources settings summary.closure = some request ∧
        compiler request = .ok artifacts ∧ summary.installed = artifacts.names ∧
        (keptStore sources store settings).install sources settings.minifySource t
            artifacts.entries = (.ok (), (rebuild sources store compiler settings t).store,
              (rebuild sources store compiler settings t).tree)) := by
  have hends := rebuild_ends sources store compiler settings t
  generalize rebuild sources store compiler settings t = round at h hends ⊢
  cases hends with
  | unasked hr =>
    cases h
    exact ⟨rfl, rfl, Or.inl ⟨hr, rfl, rfl, rfl⟩⟩
  | unanswered => cases h
  | stopped => cases h
  | installed hr hc hi =>
    cases h
    exact ⟨rfl, rfl, Or.inr ⟨_, _, hr, hc, rfl, hi⟩⟩

theorem rebuild_store_error {e : StoreError}
    (h : (rebuild sources store compiler settings t).result = .error (.store e)) :
    ∃ request artifacts,
      compileRequest? sources settings (rebuildSet sources store settings) = some request ∧
      compiler request = .ok artifacts ∧
      (keptStore sources store settings).install sources settings.minifySource t
          artifacts.entries = (.error e, (rebuild sources store compiler settings t).store,
            (rebuild sources store compiler settings t).tree) := by
  have hends := rebuild_ends sources store compiler settings t
  generalize rebuild sources store compiler settings t = round at h hends ⊢
  cases hends with
  | unasked => cases h
  | unanswered => cases h
  | stopped hr hc hi =>
    cases h
    exact ⟨_, _, hr, hc, hi⟩
  | installed => cases h

end Rounds

end ContractBuild
