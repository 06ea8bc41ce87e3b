import ContractBuild.Proofs.Opening

/-! The life of a project, from its opening on. Between two calls a project is at rest, active or
failed, and only an active one has handles; whatever a call comes to, it stays so. -/

namespace ContractBuild.Project

open FileTree ContractBuild.Path

variable {p p' : Project} {registry registry' : Registry} {compiler : FileTree → Compiler}
  {settings : Settings} {t t' : FileTree}

theorem isActive_iff : p.isActive = true ↔ p.state = .active := by
  rw [isActive, beq_iff_eq]

theorem isActive_eq_false_iff : p.isActive = false ↔ p.state ≠ .active := by
  rw [← Bool.not_eq_true, isActive_iff]

structure Built (p : Project) (result : Except ProjectError BuildSummary) (p' : Project) :
    Prop where
  name : p'.name = p.name
  root : p'.root = p.root
  handles_of_error : ∀ e, result = .error e → p'.handles = p.handles
  handles_of_ok : ∀ summary, result = .ok summary → p'.handles = p'.store.handles

theorem build_built {result : Except ProjectError BuildSummary} {request? : Option CompileRequest}
    (h : p.build compiler settings t = (result, p', t', request?)) : Built p result p' := by
  rw [build] at h
  split at h
  · cases h
    exact ⟨rfl, rfl, fun _ _ => rfl, by rintro _ ⟨⟩⟩
  · dsimp only at h
    generalize rebuild _ _ _ _ _ = r at h
    split at h
    · cases h
      exact ⟨rfl, rfl, fun _ _ => rfl, by rintro _ ⟨⟩⟩
    · cases h
      exact ⟨rfl, rfl, by rintro _ ⟨⟩, fun _ _ => rfl⟩

inductive Ends (p : Project) (registry : Registry) (l : Loaded) : Prop where
  | refused (taken : p.isActive = true ∨ registry.contains p.name = true)
      (result : l.result = .error (.alreadyLoaded p.name)) (project : l.project = p)
      (registry_eq : l.registry = registry)
  | failed (idle : p.isActive = false) (e : ProjectError) (result : l.result = .error e)
      (state : l.project.state = .failed) (handles : l.project.handles = p.handles)
      (registry_eq : l.registry = registry)
  | loaded (idle : p.isActive = false) (free : registry.contains p.name = false)
      (summary : BuildSummary) (result : l.result = .ok summary)
      (state : l.project.state = .active) (handles : l.project.handles = l.project.store.handles)
      (registry_eq : l.registry = ⟨registry.active.insert p.name⟩)

theorem load_ends (p : Project) (registry : Registry) (compiler : FileTree → Compiler)
    (settings : Settings) (t : FileTree) :
    Ends p registry (p.load registry compiler settings t) := by
  unfold load
  split
  · rename_i hactive
    exact .refused (.inl hactive) rfl rfl rfl
  · rename_i hidle
    rw [Bool.not_eq_true] at hidle
    unfold Registry.register
    by_cases htaken : registry.contains p.name = true
    · rw [if_pos htaken]
      exact .refused (.inr htaken) rfl rfl rfl
    · rw [if_neg htaken]
      rw [Bool.not_eq_true] at htaken
      dsimp only
      rcases hend : p.build compiler settings t with ⟨e | summary, p', t', request?⟩
      · exact .failed hidle e rfl rfl ((build_built hend).handles_of_error e rfl) rfl
      · exact .loaded hidle htaken summary rfl rfl
          ((build_built hend).handles_of_ok summary rfl) rfl

theorem load_identity (p : Project) (registry : Registry) (compiler : FileTree → Compiler)
    (settings : Settings) (t : FileTree) :
    (p.load registry compiler settings t).project.name = p.name ∧
      (p.load registry compiler settings t).project.root = p.root := by
  unfold load
  split
  · exact ⟨rfl, rfl⟩
  · split
    · exact ⟨rfl, rfl⟩
    · rcases hend : p.build compiler settings t with ⟨_ | _, p', t', request?⟩
      · exact ⟨(build_built hend).name, (build_built hend).root⟩
      · exact ⟨(build_built hend).name, (build_built hend).root⟩

theorem close_ok (h : p.close registry = .ok (p', registry')) :
    p.isActive = true ∧ p' = { p with handles := {}, state := .idle } ∧
      registry' = registry.unregister p.name := by
  rw [close] at h
  split at h
  · rename_i hactive
    cases h
    exact ⟨hactive, rfl, rfl⟩
  · cases h

structure Pruned (p p' : Project) : Prop where
  name : p'.name = p.name
  root : p'.root = p.root
  state : p'.state = p.state
  handles : ∀ u h, p'.handles.get? u = some h → p.handles.get? u = some h

theorem removeOrphans_pruned (p : Project) (t : FileTree) : Pruned p (p.removeOrphans t).2.1 := by
  unfold removeOrphans
  split
  · exact ⟨rfl, rfl, rfl, fun _ _ h => h⟩
  · dsimp only
    split
    · exact ⟨rfl, rfl, rfl, fun _ _ h => h⟩
    · refine ⟨rfl, rfl, rfl, fun u handle h => ?_⟩
      rw [NameMap.get?_filter] at h
      exact (Option.filter_eq_some_iff.1 h).1

structure Settled (p : Project) : Prop where
  state : p.state = .idle ∨ p.state = .active ∨ p.state = .failed
  handles : p.state ≠ .active → p.handles = {}

namespace Settled

theorem of_idle (hstate : p.state = .idle) (hhandles : p.handles = {}) : p.Settled :=
  ⟨.inl hstate, fun _ => hhandles⟩

theorem load (h : p.Settled) (registry : Registry) (compiler : FileTree → Compiler)
    (settings : Settings) (t : FileTree) :
    (p.load registry compiler settings t).project.Settled := by
  cases load_ends p registry compiler settings t with
  | refused _ _ hproject =>
    rw [hproject]
    exact h
  | failed hidle _ _ hstate hhandles =>
    -- What has failed was not active before, so it had no handles to keep.
    exact ⟨.inr (.inr hstate), fun _ => hhandles.trans (h.handles (isActive_eq_false_iff.1 hidle))⟩
  | loaded _ _ _ _ hstate => exact ⟨.inr (.inl hstate), fun hne => absurd hstate hne⟩

theorem close (h : p.close registry = .ok (p', registry')) : p'.Settled := by
  obtain ⟨-, rfl, -⟩ := close_ok h
  exact .of_idle rfl rfl

theorem removeOrphans (h : p.Settled) (t : FileTree) : (p.removeOrphans t).2.1.Settled := by
  have hpruned := removeOrphans_pruned p t
  refine ⟨hpruned.state ▸ h.state, fun hne => ?_⟩
  -- Handles are only taken away, and there were none.
  have hnone := h.handles (hpruned.state ▸ hne)
  apply NameMap.ext_get?
  intro u
  apply Option.eq_none_iff_forall_ne_some.2
  intro handle hget
  have hold := hpruned.handles u handle hget
  rw [hnone] at hold
  cases hold

end Settled

structure Fresh (p : Project) : Prop where
  state : p.state = .idle
  handles : p.handles = {}

theorem Fresh.settled (h : p.Fresh) : p.Settled := .of_idle h.state h.handles

theorem Fresh.idle (h : p.Fresh) : p.isActive = false := by
  rw [isActive, h.state]
  rfl

theorem ofStore_fresh {root : Path} {name : Option String} {store : Store}
    (h : ofStore root name store t = .ok p) : p.Fresh := by
  rw [ofStore] at h
  split at h
  · cases h
  · cases h
    exact ⟨rfl, rfl⟩

theorem openAt_fresh {path : Path} {name : Option String}
    (h : openAt path name t = (.ok p, t')) : p.Fresh := by
  rw [openAt] at h
  split at h
  · cases h
  · split at h
    · cases h
    · exact ofStore_fresh (Prod.mk.inj h).1

theorem inspectAt_fresh {path : Path} {name : Option String}
    (h : inspectAt path name t = .ok p) : p.Fresh := by
  rw [inspectAt] at h
  split at h
  · cases h
  · exact ofStore_fresh h

theorem inspectAt_ok {path : Path} {name : Option String} (ht : t.WellFormed)
    (h : inspectAt path name t = .ok p) :
    ∃ root, (∀ n ∈ root, IsFileName n) ∧ p.root = .absolute root := by
  rw [inspectAt, canonicalRoot, FileTree.canonical] at h
  cases hfind : t.find path with
  | error e =>
    rw [hfind] at h
    cases h
  | ok found =>
    obtain ⟨root, node⟩ := found
    rw [hfind] at h
    exact ⟨root, ht.names (find_eq_ok_iff.1 hfind).2, (ofStore_ok h).1⟩

/-- Every call may meet another tree, another compiler and another registry. -/
inductive Reached : Project → Prop where
  | opened {path : Path} {name : Option String} {t t' : FileTree} {p : Project}
      (ht : t.WellFormed) (h : openAt path name t = (.ok p, t')) : Reached p
  | inspected {path : Path} {name : Option String} {t : FileTree} {p : Project}
      (ht : t.WellFormed) (h : inspectAt path name t = .ok p) : Reached p
  | loaded {p : Project} (h : Reached p) (registry : Registry) (compiler : FileTree → Compiler)
      (settings : Settings) (t : FileTree) : Reached (p.load registry compiler settings t).project
  | closed {p p' : Project} {registry registry' : Registry} (h : Reached p)
      (hclose : p.close registry = .ok (p', registry')) : Reached p'
  | orphansRemoved {p : Project} (h : Reached p) (t : FileTree) : Reached (p.removeOrphans t).2.1

namespace Reached

theorem settled (h : p.Reached) : p.Settled := by
  induction h with
  | opened _ h => exact (openAt_fresh h).settled
  | inspected _ h => exact (inspectAt_fresh h).settled
  | loaded _ registry compiler settings t ih => exact ih.load registry compiler settings t
  | closed _ hclose => exact .close hclose
  | orphansRemoved _ t ih => exact ih.removeOrphans t

theorem exists_root (h : p.Reached) :
    ∃ root, (∀ n ∈ root, IsFileName n) ∧ p.root = .absolute root := by
  induction h with
  | opened ht h =>
    obtain ⟨root, node, made, -, hopened⟩ := openAt_ok ht h
    exact ⟨root, hopened.names, hopened.root_eq⟩
  | inspected ht h => exact inspectAt_ok ht h
  | loaded _ registry compiler settings t ih =>
    rw [(load_identity _ registry compiler settings t).2]
    exact ih
  | closed _ hclose ih =>
    obtain ⟨-, rfl, -⟩ := close_ok hclose
    exact ih
  | orphansRemoved _ t ih =>
    rw [(removeOrphans_pruned _ t).root]
    exact ih

end Reached

end ContractBuild.Project
