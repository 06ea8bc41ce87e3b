import ContractBuild.Proofs.Agreement
import ContractBuild.Proofs.Lifecycle

/-! Several projects with one registry. Projects are opened, looked at, used and given up in any
order, and files may change between any two calls. The registry holds the names of the active
projects all the time. -/

namespace ContractBuild

theorem Registry.contains_insert (r : Registry) (added name : String) :
    Registry.contains ⟨r.active.insert added⟩ name = true ↔
      name = added ∨ r.contains name = true := by
  rw [contains, contains, NameSet.contains_iff, NameSet.contains_iff, NameSet.mem_insert]

theorem Registry.contains_unregister_iff (r : Registry) (gone name : String) :
    (r.unregister gone).contains name = true ↔ r.contains name = true ∧ name ≠ gone := by
  rw [contains, contains, unregister, NameSet.contains_iff, NameSet.contains_iff, NameSet.erase,
    NameSet.mem_filter, bne_iff_ne]

theorem Store.handle_iff {s : Store} {u : String} {a : Artifact} :
    (∃ h, s.handles.get? u = some h ∧ h.artifact = a) ↔ s.get? u = some a ∧ a.bytecode ≠ "" := by
  have hdeployable : ∀ b h, Handle.ofArtifact? b = some h ↔ h.artifact = b ∧ b.bytecode ≠ "" := by
    intro b h
    rw [Handle.ofArtifact?]
    split
    · rename_i hb
      rw [Option.some.injEq]
      refine ⟨fun he => he ▸ ⟨rfl, bne_iff_ne.1 hb⟩, fun he => ?_⟩
      obtain ⟨artifact, _⟩ := h
      cases he.1
      rfl
    · rename_i hb
      exact iff_of_false nofun fun he => hb (bne_iff_ne.2 he.2)
  rw [handles, NameMap.get?_filterMap, ← get?]
  simp only [Option.bind_eq_some_iff, hdeployable]
  constructor
  · rintro ⟨h, ⟨b, hb, rfl, hcode⟩, rfl⟩
    exact ⟨hb, hcode⟩
  · rintro ⟨ha, hcode⟩
    exact ⟨⟨a, bne_iff_ne.2 hcode⟩, ⟨a, ha, rfl, hcode⟩, rfl⟩

/-- Some projects, each in a slot of its own, and the registry that they share. -/
structure Session where
  projects : NameMap Project := {}
  registry : Registry := {}

namespace Session

inductive Call where
  | openAt (path : Path) (name : Option String)
  | inspectAt (path : Path) (name : Option String)
  | drop
  | load (compiler : FileTree → Compiler) (settings : Settings)
  | close
  | plan (settings : Settings)
  | removeOrphans

def isFree (s : Session) (slot : String) : Bool := !(s.projects.get? slot).any (·.isActive)

def place (s : Session) (slot : String) (p : Project) (registry : Registry) : Session :=
  ⟨s.projects.insert slot p, registry⟩

/-- A call that fails leaves what it left of the project. -/
def step (s : Session) (slot : String) (t : FileTree) : Call → Session
  | .openAt path name =>
    match Project.openAt path name t with
    | (.ok p, _) => if s.isFree slot then s.place slot p s.registry else s
    | (.error _, _) => s
  | .inspectAt path name =>
    match Project.inspectAt path name t with
    | .ok p => if s.isFree slot then s.place slot p s.registry else s
    | .error _ => s
  | .drop => if s.isFree slot then { s with projects := s.projects.erase slot } else s
  | .load compiler settings =>
    match s.projects.get? slot with
    | some p =>
      let loaded := p.load s.registry compiler settings t
      s.place slot loaded.project loaded.registry
    | none => s
  | .close =>
    match s.projects.get? slot with
    | some p =>
      match p.close s.registry with
      | .ok (p, registry) => s.place slot p registry
      | .error _ => s
    | none => s
  -- A plan is an answer and nothing else.
  | .plan _ => s
  | .removeOrphans =>
    match s.projects.get? slot with
    | some p => s.place slot (p.removeOrphans t).2.1 s.registry
    | none => s

def run (calls : List (String × FileTree × Call)) : Session :=
  calls.foldl (fun s c => s.step c.1 c.2.1 c.2.2) {}

/-- The active project in the slot has the name. -/
def Holds (s : Session) (slot name : String) : Prop :=
  ∃ p, s.projects.get? slot = some p ∧ p.isActive = true ∧ p.name = name

def HeldElsewhere (s : Session) (slot name : String) : Prop := ∃ slot' ≠ slot, s.Holds slot' name

structure Consistent (s : Session) : Prop where
  settled : ∀ slot p, s.projects.get? slot = some p → p.Settled
  registered : ∀ name, s.registry.contains name = true ↔ ∃ slot, s.Holds slot name
  distinct : ∀ slot slot' name, s.Holds slot name → s.Holds slot' name → slot = slot'

section Steps

variable {s s' : Session} {slot name : String} {p p' : Project}

theorem get?_place (s : Session) (slot : String) (p : Project) (registry : Registry) :
    (s.place slot p registry).projects.get? slot = some p :=
  (NameMap.get?_insert s.projects slot slot p).trans (if_pos rfl)

theorem get?_place_of_ne {slot' : String} (hne : slot' ≠ slot) (s : Session) (p : Project)
    (registry : Registry) :
    (s.place slot p registry).projects.get? slot' = s.projects.get? slot' :=
  (NameMap.get?_insert s.projects slot slot' p).trans (if_neg hne)

theorem holds_iff (hp : s.projects.get? slot = some p) :
    s.Holds slot name ↔ p.isActive = true ∧ p.name = name := by
  constructor
  · rintro ⟨q, hq, h⟩
    cases hp.symm.trans hq
    exact h
  · exact fun h => ⟨p, hp, h⟩

theorem not_holds_of_isFree (h : s.isFree slot = true) : ¬ s.Holds slot name := by
  rintro ⟨p, hp, hactive, -⟩
  rw [isFree, hp, Option.any_some, hactive] at h
  cases h

theorem Consistent.registered_iff (h : s.Consistent) (slot name : String) :
    s.registry.contains name = true ↔ s.Holds slot name ∨ s.HeldElsewhere slot name := by
  rw [h.registered]
  constructor
  · rintro ⟨slot', hholds⟩
    by_cases hslot : slot' = slot
    · exact .inl (hslot ▸ hholds)
    · exact .inr ⟨slot', hslot, hholds⟩
  · rintro (hholds | ⟨slot', -, hholds⟩)
    · exact ⟨slot, hholds⟩
    · exact ⟨slot', hholds⟩

theorem Consistent.replace (h : s.Consistent) (slot : String)
    (hothers : ∀ slot' ≠ slot, s'.projects.get? slot' = s.projects.get? slot')
    (hsettled : ∀ p, s'.projects.get? slot = some p → p.Settled)
    (hregistry : ∀ name, s'.registry.contains name = true ↔
      s'.Holds slot name ∨ s.HeldElsewhere slot name)
    (hfree : ∀ name, s'.Holds slot name → ¬ s.HeldElsewhere slot name) : s'.Consistent := by
  have hsame : ∀ slot' ≠ slot, ∀ name, s'.Holds slot' name ↔ s.Holds slot' name := by
    intro slot' hne name
    unfold Holds
    rw [hothers slot' hne]
  refine ⟨fun slot' p hp => ?_, fun name => ?_, fun slot₁ slot₂ name h₁ h₂ => ?_⟩
  · by_cases hslot : slot' = slot
    · exact hsettled p (hslot ▸ hp)
    · exact h.settled slot' p ((hothers slot' hslot).symm.trans hp)
  · rw [hregistry]
    constructor
    · rintro (hholds | ⟨slot', hne, hholds⟩)
      · exact ⟨slot, hholds⟩
      · exact ⟨slot', (hsame slot' hne name).2 hholds⟩
    · rintro ⟨slot', hholds⟩
      by_cases hslot : slot' = slot
      · exact .inl (hslot ▸ hholds)
      · exact .inr ⟨slot', hslot, (hsame slot' hslot name).1 hholds⟩
  · -- Two slots other than the changed one are as before; else one of them is elsewhere.
    by_cases hslot₁ : slot₁ = slot
    · by_cases hslot₂ : slot₂ = slot
      · rw [hslot₁, hslot₂]
      · exact absurd ⟨slot₂, hslot₂, (hsame slot₂ hslot₂ name).1 h₂⟩ (hfree name (hslot₁ ▸ h₁))
    · have hold₁ := (hsame slot₁ hslot₁ name).1 h₁
      by_cases hslot₂ : slot₂ = slot
      · exact absurd ⟨slot₁, hslot₁, hold₁⟩ (hfree name (hslot₂ ▸ h₂))
      · exact h.distinct slot₁ slot₂ name hold₁ ((hsame slot₂ hslot₂ name).1 h₂)

theorem Consistent.replace_same (h : s.Consistent) (slot : String)
    (hothers : ∀ slot' ≠ slot, s'.projects.get? slot' = s.projects.get? slot')
    (hsettled : ∀ p, s'.projects.get? slot = some p → p.Settled)
    (hregistry : s'.registry = s.registry)
    (hholds : ∀ name, s'.Holds slot name ↔ s.Holds slot name) : s'.Consistent := by
  refine h.replace slot hothers hsettled (fun name => ?_) fun name hnew => ?_
  · rw [hregistry, h.registered_iff slot, hholds]
  · rintro ⟨slot', hne, helse⟩
    exact hne (h.distinct slot' slot name helse ((hholds name).1 hnew))

theorem Consistent.place_same (h : s.Consistent) (hp : s.projects.get? slot = some p)
    (hsettled : p'.Settled) (hname : p'.name = p.name) (hactive : p'.isActive = p.isActive) :
    (s.place slot p' s.registry).Consistent := by
  have hnew := get?_place s slot p' s.registry
  refine h.replace_same slot (fun slot' hne => get?_place_of_ne hne s p' _) (fun q hq => ?_) rfl
    fun name => ?_
  · cases hnew.symm.trans hq
    exact hsettled
  · rw [holds_iff hnew, holds_iff hp, hname, hactive]

theorem Consistent.place_new (h : s.Consistent) (hfree : s.isFree slot = true) (hp : p.Fresh) :
    (s.place slot p s.registry).Consistent := by
  have hnew := get?_place s slot p s.registry
  refine h.replace_same slot (fun slot' hne => get?_place_of_ne hne s p _) (fun q hq => ?_) rfl
    fun name => ?_
  · cases hnew.symm.trans hq
    exact hp.settled
  · rw [holds_iff hnew, hp.idle]
    exact iff_of_false (fun hholds => nomatch hholds.1) (not_holds_of_isFree hfree)

theorem Consistent.erase (h : s.Consistent) (hfree : s.isFree slot = true) :
    Consistent { s with projects := s.projects.erase slot } := by
  have hnone : (s.projects.erase slot).get? slot = none := by rw [NameMap.get?_erase, if_pos rfl]
  refine h.replace_same slot (fun slot' hne => ?_) (fun q hq => ?_) rfl fun name => ?_
  · rw [NameMap.get?_erase, if_neg hne]
  · cases hnone.symm.trans hq
  · refine iff_of_false ?_ (not_holds_of_isFree hfree)
    rintro ⟨q, hq, -⟩
    cases hnone.symm.trans hq

theorem Consistent.activate (h : s.Consistent) (hp : s.projects.get? slot = some p)
    (hidle : p.isActive = false) (hunused : s.registry.contains p.name = false)
    (hsettled : p'.Settled) (hname : p'.name = p.name) (hactive : p'.isActive = true) :
    (s.place slot p' ⟨s.registry.active.insert p.name⟩).Consistent := by
  have hnew := get?_place s slot p' ⟨s.registry.active.insert p.name⟩
  have hheld : ∀ name, (s.place slot p' ⟨s.registry.active.insert p.name⟩).Holds slot name ↔
      p.name = name := by
    intro name
    rw [holds_iff hnew, hname, hactive, and_iff_right rfl]
  have hnone : ∀ name, ¬ s.Holds slot name := by
    intro name hholds
    rw [holds_iff hp, hidle] at hholds
    cases hholds.1
  refine h.replace slot (fun slot' hne => get?_place_of_ne hne s p' _) (fun q hq => ?_)
    (fun name => ?_) fun name hmine helse => ?_
  · cases hnew.symm.trans hq
    exact hsettled
  · have hold := h.registered_iff slot name
    rw [or_iff_right (hnone name)] at hold
    rw [hheld, ← hold, eq_comm (a := p.name)]
    exact Registry.contains_insert s.registry p.name name
  · rw [hheld] at hmine
    have hcontained := (h.registered_iff slot name).2 (.inr helse)
    rw [← hmine, hunused] at hcontained
    cases hcontained

theorem Consistent.deactivate (h : s.Consistent) (hp : s.projects.get? slot = some p)
    (hactive : p.isActive = true) (hsettled : p'.Settled) (hidle : p'.isActive = false) :
    (s.place slot p' (s.registry.unregister p.name)).Consistent := by
  have hnew := get?_place s slot p' (s.registry.unregister p.name)
  have hheld : ∀ name, ¬ (s.place slot p' (s.registry.unregister p.name)).Holds slot name := by
    intro name hholds
    rw [holds_iff hnew, hidle] at hholds
    cases hholds.1
  refine h.replace slot (fun slot' hne => get?_place_of_ne hne s p' _) (fun q hq => ?_)
    (fun name => ?_) fun name hmine _ => hheld name hmine
  · cases hnew.symm.trans hq
    exact hsettled
  · have hold := h.registered_iff slot name
    rw [holds_iff hp, and_iff_right hactive] at hold
    rw [or_iff_right (hheld name)]
    refine (Registry.contains_unregister_iff s.registry p.name name).trans ?_
    rw [hold]
    constructor
    · rintro ⟨hmine | helse, hne⟩
      · exact absurd hmine.symm hne
      · exact helse
    · -- Another project cannot have had the name, as this one had it.
      rintro ⟨slot', hslot, helse⟩
      refine ⟨.inr ⟨slot', hslot, helse⟩, fun he => hslot ?_⟩
      exact h.distinct slot' slot name helse ((holds_iff hp).2 ⟨hactive, he.symm⟩)

theorem Consistent.offer (h : s.Consistent) (slot : String) (hp : p.Fresh) :
    (if s.isFree slot then s.place slot p s.registry else s).Consistent := by
  split
  · rename_i hfree
    exact h.place_new hfree hp
  · exact h

theorem Consistent.load (h : s.Consistent) (hp : s.projects.get? slot = some p)
    (compiler : FileTree → Compiler) (settings : Settings) (t : FileTree) :
    let loaded := p.load s.registry compiler settings t
    (s.place slot loaded.project loaded.registry).Consistent := by
  have hname := (p.load_identity s.registry compiler settings t).1
  have hsettled := (h.settled slot p hp).load s.registry compiler settings t
  dsimp only
  cases p.load_ends s.registry compiler settings t with
  | refused _ _ hproject hregistry =>
    rw [hregistry, hproject]
    exact h.place_same hp (h.settled slot p hp) rfl rfl
  | failed hidle _ _ hstate _ hregistry =>
    rw [hregistry]
    have hfailed : (p.load s.registry compiler settings t).project.isActive = false := by
      rw [Project.isActive, hstate]
      rfl
    exact h.place_same hp hsettled hname (hfailed.trans hidle.symm)
  | loaded hidle hunused _ _ hstate _ hregistry =>
    rw [hregistry]
    exact h.activate hp hidle hunused hsettled hname (Project.isActive_iff.2 hstate)

theorem Consistent.close {registry : Registry} (h : s.Consistent)
    (hp : s.projects.get? slot = some p) (hclose : p.close s.registry = .ok (p', registry)) :
    (s.place slot p' registry).Consistent := by
  obtain ⟨hactive, rfl, rfl⟩ := Project.close_ok hclose
  exact h.deactivate hp hactive (.of_idle rfl rfl) rfl

theorem Consistent.removeOrphans (h : s.Consistent) (hp : s.projects.get? slot = some p)
    (t : FileTree) : (s.place slot (p.removeOrphans t).2.1 s.registry).Consistent := by
  have hpruned := p.removeOrphans_pruned t
  refine h.place_same hp ((h.settled slot p hp).removeOrphans t) hpruned.name ?_
  rw [Project.isActive, Project.isActive, hpruned.state]

end Steps

theorem Consistent.step {s : Session} (h : s.Consistent) (slot : String) (t : FileTree)
    (call : Call) : (s.step slot t call).Consistent := by
  -- A call that has no project to act on, or that is refused, leaves the session as it is.
  cases call with
  | openAt path name =>
    rw [Session.step]
    split
    · rename_i hopen
      exact h.offer slot (Project.openAt_fresh hopen)
    · exact h
  | inspectAt path name =>
    rw [Session.step]
    split
    · rename_i hinspect
      exact h.offer slot (Project.inspectAt_fresh hinspect)
    · exact h
  | drop =>
    rw [Session.step]
    split
    · rename_i hfree
      exact h.erase hfree
    · exact h
  | load compiler settings =>
    rw [Session.step]
    split
    · rename_i hp
      exact h.load hp compiler settings t
    · exact h
  | close =>
    rw [Session.step]
    split
    · rename_i hp
      split
      · rename_i hclose
        exact h.close hp hclose
      · exact h
    · exact h
  | plan settings => exact h
  | removeOrphans =>
    rw [Session.step]
    split
    · rename_i hp
      exact h.removeOrphans hp t
    · exact h

theorem consistent_empty : Consistent {} := by
  have hnone : ∀ slot name, ¬ Holds {} slot name := by
    rintro slot name ⟨p, hp, -⟩
    cases hp
  refine ⟨nofun, fun name => ?_, fun slot _ name h => (hnone slot name h).elim⟩
  refine iff_of_false (fun h => nomatch h) ?_
  rintro ⟨slot, h⟩
  exact hnone slot name h

theorem consistent_run (calls : List (String × FileTree × Call)) : (run calls).Consistent := by
  refine List.foldlRecOn calls _ consistent_empty fun s h c _ => ?_
  exact h.step c.1 c.2.1 c.2.2

/-- Whatever is called in which order, whatever fails, and whatever happens to the files. -/
theorem registry_names_active_projects (calls : List (String × FileTree × Call)) :
    let s := run calls
    (∀ slot p, s.projects.get? slot = some p →
      p.state = .idle ∨ p.state = .active ∨ p.state = .failed) ∧
    (∀ name, name ∈ s.registry.names ↔
      ∃ slot p, s.projects.get? slot = some p ∧ p.state = .active ∧ p.name = name) ∧
    (∀ slot slot' p p', s.projects.get? slot = some p → s.projects.get? slot' = some p' →
      p.state = .active → p'.state = .active → p.name = p'.name → slot = slot') ∧
    (∀ slot p, s.projects.get? slot = some p → p.state ≠ .active → p.handles = {}) ∧
    ∀ slot p compiler settings t summary, s.projects.get? slot = some p →
      (p.load s.registry compiler settings t).result = .ok summary →
      ∃ loaded, (s.step slot t (.load compiler settings)).projects.get? slot = some loaded ∧
        loaded.state = .active ∧
        ∀ u a, (∃ h, loaded.handles.get? u = some h ∧ h.artifact = a) ↔
          loaded.store.get? u = some a ∧ a.bytecode ≠ "" := by
  intro s
  have h : s.Consistent := consistent_run calls
  have hholds : ∀ {slot p}, s.projects.get? slot = some p → p.state = .active →
      s.Holds slot p.name :=
    fun hp hactive => (holds_iff hp).2 ⟨Project.isActive_iff.2 hactive, rfl⟩
  refine ⟨fun slot p hp => (h.settled slot p hp).state, fun name => ?_, ?_,
    fun slot p hp => (h.settled slot p hp).handles, ?_⟩
  · have hregistered := h.registered name
    rw [Registry.contains, NameSet.contains_iff] at hregistered
    refine hregistered.trans ⟨?_, ?_⟩
    · rintro ⟨slot, p, hp, hactive, hname⟩
      exact ⟨slot, p, hp, Project.isActive_iff.1 hactive, hname⟩
    · rintro ⟨slot, p, hp, hactive, rfl⟩
      exact ⟨slot, hholds hp hactive⟩
  · intro slot slot' p p' hp hp' hactive hactive' hname
    exact h.distinct slot slot' p.name (hholds hp hactive) (hname ▸ hholds hp' hactive')
  · intro slot p compiler settings t summary hp hresult
    refine ⟨(p.load s.registry compiler settings t).project, ?_, ?_⟩
    · rw [step, hp]
      exact get?_place s slot _ _
    · cases p.load_ends s.registry compiler settings t with
      | refused _ hrefused => cases hresult.symm.trans hrefused
      | failed _ e hfailed => cases hresult.symm.trans hfailed
      | loaded _ _ _ _ hstate hhandles =>
        refine ⟨hstate, fun u a => ?_⟩
        rw [hhandles]
        exact Store.handle_iff

namespace Sample

open Project.Sample (root start)

def opened : List (String × FileTree × Call) :=
  [("first", start, .openAt (.absolute root) (some "P")),
    ("second", start, .inspectAt (.absolute root) (some "P"))]

def build : Call := .load (fun _ => Compiler.outline) {}

def used : List (String × FileTree × Call) :=
  opened ++ [("first", start, build), ("second", start, build), ("first", start, .close),
    ("second", start, build)]

end Sample

theorem registry_names_active_projects_after_refusal :
    (∃ p summary, (run Sample.opened).projects.get? "first" = some p ∧
      (p.load (run Sample.opened).registry (fun _ => Compiler.outline) {}
        Project.Sample.start).result = .ok summary ∧ summary.handles = 2) ∧
    (∃ loaded, ((run Sample.opened).step "first" Project.Sample.start Sample.build).projects.get?
        "first" = some loaded ∧ loaded.state = .active ∧
      ∀ u a, (∃ h, loaded.handles.get? u = some h ∧ h.artifact = a) ↔
        loaded.store.get? u = some a ∧ a.bytecode ≠ "") ∧
    (run Sample.used).registry.names = ["P"] ∧
    ∃ slot p, (run Sample.used).projects.get? slot = some p ∧ p.state = .active ∧ p.name = "P" := by
  obtain ⟨p, hp, hload⟩ : ∃ p, (run Sample.opened).projects.get? "first" = some p ∧
      (p.load (run Sample.opened).registry (fun _ => Compiler.outline) {}
        Project.Sample.start).result.toOption.map (·.handles) = some 2 := by
    decide +kernel
  have hused : (run Sample.used).registry.names = ["P"] := by decide +kernel
  obtain ⟨summary, hsome, hhandles⟩ := Option.map_eq_some_iff.1 hload
  have hresult : (p.load (run Sample.opened).registry (fun _ => Compiler.outline) {}
      Project.Sample.start).result = .ok summary := by
    cases hend : (p.load (run Sample.opened).registry (fun _ => Compiler.outline) {}
        Project.Sample.start).result with
    | error e =>
      rw [hend] at hsome
      cases hsome
    | ok found =>
      rw [hend] at hsome
      cases hsome
      rfl
  obtain ⟨-, -, -, -, hoffered⟩ := registry_names_active_projects Sample.opened
  obtain ⟨-, hregistered, -⟩ := registry_names_active_projects Sample.used
  refine ⟨⟨p, summary, hp, hresult, hhandles⟩, ?_, hused, ?_⟩
  · exact hoffered "first" p _ _ _ summary hp hresult
  · exact (hregistered "P").1 (hused ▸ List.mem_singleton_self "P")

end Session
end ContractBuild
