import ContractBuild.Proofs.Reachability

/-! A closure taken name by name. Any pending name may be the next whose dependents are looked up, and
those that are new become pending. However the names are picked, this ends after as many steps as
the closure has names, and in the set that growing round by round gives: the names from which the
recorded dependencies lead to a given one, for every store that the operations on stores lead to. -/

namespace ContractBuild

theorem NameSet.size_insert {s : NameSet} {name : String} (h : name ∉ s) :
    (s.insert name).size = s.size + 1 := by
  have hperm : (s.insert name).names.Perm (name :: s.names) := by
    refine (List.perm_ext_iff_of_nodup (s.insert name).nodup_names ?_).2 fun x => ?_
    · exact List.nodup_cons.2 ⟨h, s.nodup_names⟩
    · rw [List.mem_cons]
      exact NameSet.mem_insert
  exact hperm.length_eq

namespace Store

inductive Arises : Store → Prop
  | inMemory : Arises inMemory
  | persistent (directory : Path) : Arises (persistent directory)
  | add {s : Store} (h : Arises s) (a : Artifact) (t : FileTree) : Arises (s.add a t).2.1
  | remove {s : Store} (h : Arises s) (unit : String) : Arises (s.remove unit)
  | load {s : Store} (h : Arises s) (root : Path) (t : FileTree) : Arises (s.load root t).2.1
  | inspect {s : Store} (h : Arises s) (root : Path) (t : FileTree) : Arises (s.inspect root t).2
  | evict {s : Store} (h : Arises s) (units : NameSet) : Arises (s.evict units).2
  | collect {s : Store} (h : Arises s) (live : NameSet) (t : FileTree) :
      Arises (s.collect live t).2.1

section Keys

variable {s : Store}

theorem KeyedByName.insert (hs : s.KeyedByName) (a : Artifact) :
    ({ s with entries := s.entries.insert a.name a } : Store).KeyedByName := by
  intro u b h
  rw [get?, NameMap.get?_insert] at h
  split at h
  · rename_i hu
    cases h
    exact hu.symm
  · exact hs u b h

theorem KeyedByName.filter (hs : s.KeyedByName) (keep : String → Artifact → Bool) :
    ({ s with entries := s.entries.filter keep } : Store).KeyedByName := by
  intro u a h
  rw [get?, NameMap.get?_filter] at h
  exact hs u a (Option.filter_eq_some_iff.1 h).1

theorem KeyedByName.add (hs : s.KeyedByName) (a : Artifact) (t : FileTree) :
    (s.add a t).2.1.KeyedByName := by
  rw [Store.add]
  split
  · exact hs.insert a
  · split
    · exact hs
    · exact hs.insert a

theorem KeyedByName.file (heal : Bool) (root directory : Path) (name : String) {r : Reading}
    (hr : ({ s with entries := r.entries } : Store).KeyedByName) :
    ({ s with entries := (r.file heal root directory name).entries } : Store).KeyedByName := by
  rw [Reading.file]
  split
  · rename_i a _
    exact hr.insert a
  · exact hr

theorem KeyedByName.read (hs : s.KeyedByName) (heal : Bool) (root : Path) (t : FileTree) :
    ({ s with entries := (s.read heal root t).entries } : Store).KeyedByName := by
  rw [Store.read]
  split
  · exact hs
  · rename_i directory _
    refine List.foldlRecOn _ _ (motive := fun r : Reading =>
      ({ s with entries := r.entries } : Store).KeyedByName) hs fun r hr name _ => ?_
    exact KeyedByName.file heal root directory name hr

theorem KeyedByName.collect (hs : s.KeyedByName) (live : NameSet) (t : FileTree) :
    (s.collect live t).2.1.KeyedByName := by
  rw [Store.collect]
  dsimp only
  split <;> exact hs.filter _

theorem Arises.keyedByName (hs : s.Arises) : s.KeyedByName := by
  induction hs with
  | inMemory => exact nofun
  | persistent directory => exact nofun
  | add _ a t ih => exact ih.add a t
  | remove _ unit ih => exact ih.filter _
  | load _ root t ih => exact ih.read true root t
  | inspect _ root t ih => exact ih.read false root t
  | evict _ units ih => exact ih.evict units
  | collect _ live t ih => exact ih.collect live t

theorem mem_dependents (hs : s.KeyedByName) {u v : String} :
    u ∈ s.dependents v ↔ s.Records u v := by
  rw [dependents, NameSet.mem_ofList, List.mem_map]
  constructor
  · rintro ⟨a, ha, rfl⟩
    obtain ⟨hvalue, hdepends⟩ := List.mem_filter.1 ha
    obtain ⟨k, hk⟩ := NameMap.mem_values_iff.1 hvalue
    refine ⟨a, ?_, NameSet.contains_iff.1 hdepends⟩
    rw [hs k a hk]
    exact hk
  · rintro ⟨a, ha, hv⟩
    refine ⟨a, List.mem_filter.2 ⟨NameMap.mem_values_iff.2 ⟨u, ha⟩, ?_⟩, hs u a ha⟩
    exact NameSet.contains_iff.2 hv

end Keys

/-- With every name the set holds its dependents. -/
def IsClosed (s : Store) (names : NameSet) : Prop := ∀ v ∈ names, ∀ u ∈ s.dependents v, u ∈ names

theorem IsClosed.of_reaches {s : Store} (hs : s.KeyedByName) {names : NameSet}
    (h : s.IsClosed names) {u v : String} (huv : s.Reaches u v) (hv : v ∈ names) : u ∈ names := by
  induction huv using Relation.ReflTransGen.head_induction_on with
  | refl => exact hv
  | head hr _ ih => exact h _ ih _ ((mem_dependents hs).2 hr)

theorem isClosed_close {s : Store} (hs : s.KeyedByName) (stale : NameSet) :
    s.IsClosed (s.close stale) :=
  fun _ hv _ hu => mem_close_of_records hs ((mem_dependents hs).1 hu) hv

end Store

structure Worklist where
  closure : NameSet
  pending : List String

namespace Worklist

def start (stale : NameSet) : Worklist := ⟨stale, stale.names⟩

def put (w : Worklist) (unit : String) : Worklist :=
  if unit ∈ w.closure then w else ⟨w.closure.insert unit, unit :: w.pending⟩

def putAll (w : Worklist) : List String → Worklist
  | [] => w
  | unit :: rest => (w.put unit).putAll rest

theorem mem_closure_put {w : Worklist} {unit x : String} :
    x ∈ (w.put unit).closure ↔ x = unit ∨ x ∈ w.closure := by
  rw [put]
  split
  · rename_i h
    exact ⟨Or.inr, fun hx => hx.elim (· ▸ h) id⟩
  · exact NameSet.mem_insert

theorem mem_closure_putAll {w : Worklist} {units : List String} {x : String} :
    x ∈ (w.putAll units).closure ↔ x ∈ units ∨ x ∈ w.closure := by
  induction units generalizing w with
  | nil => simp [putAll]
  | cons unit rest ih =>
    rw [putAll, ih, mem_closure_put, List.mem_cons]
    tauto

theorem pending_putAll {w : Worklist} {units : List String} {x : String} (h : x ∈ w.pending) :
    x ∈ (w.putAll units).pending := by
  induction units generalizing w with
  | nil => exact h
  | cons unit rest ih =>
    refine ih ?_
    rw [put]
    split
    · exact h
    · exact List.mem_cons_of_mem _ h

theorem pending_or_of_mem_putAll {w : Worklist} {units : List String} {x : String}
    (h : x ∈ (w.putAll units).closure) : x ∈ w.closure ∨ x ∈ (w.putAll units).pending := by
  induction units generalizing w with
  | nil => exact Or.inl h
  | cons unit rest ih =>
    rcases ih h with hput | hpending
    · by_cases hx : x ∈ w.closure
      · exact Or.inl hx
      · obtain rfl := (mem_closure_put.1 hput).resolve_right hx
        have hput : x ∈ (w.put x).pending := by
          rw [put, if_neg hx]
          exact List.mem_cons_self
        exact Or.inr (pending_putAll (w := w.put x) hput)
    · exact Or.inr hpending

theorem mem_closure_of_pending_putAll {w : Worklist} {units : List String}
    (hw : ∀ x ∈ w.pending, x ∈ w.closure) :
    ∀ x ∈ (w.putAll units).pending, x ∈ (w.putAll units).closure := by
  induction units generalizing w with
  | nil => exact hw
  | cons unit rest ih =>
    refine ih fun x hx => ?_
    rw [put] at hx ⊢
    split
    · rename_i h
      rw [if_pos h] at hx
      exact hw x hx
    · rename_i h
      rw [if_neg h] at hx
      exact NameSet.mem_insert.2 ((List.mem_cons.1 hx).imp_right (hw x))

theorem size_putAll (w : Worklist) (units : List String) :
    (w.putAll units).closure.size + w.pending.length =
      w.closure.size + (w.putAll units).pending.length := by
  induction units generalizing w with
  | nil => rfl
  | cons unit rest ih =>
    have hstep : (w.put unit).closure.size + w.pending.length =
        w.closure.size + (w.put unit).pending.length := by
      rw [put]
      split
      · rfl
      · rename_i h
        have hsize := NameSet.size_insert h
        simp only [List.length_cons]
        omega
    have hrest := ih (w.put unit)
    rw [putAll]
    omega

/-- Any pending name can be taken off. -/
inductive Pops (s : Store) : Worklist → Worklist → Prop
  | pop (closure : NameSet) (front : List String) (unit : String) (back : List String) :
      Pops s ⟨closure, front ++ unit :: back⟩
        (putAll ⟨closure, front ++ back⟩ (s.dependents unit).names)

inductive Run (s : Store) (stale : NameSet) : Nat → Worklist → Prop
  | start : Run s stale 0 (.start stale)
  | next {n : Nat} {v w : Worklist} (h : Run s stale n v) (hpops : Pops s v w) :
      Run s stale (n + 1) w

theorem exists_pops (s : Store) {w : Worklist} (h : w.pending ≠ []) : ∃ v, Pops s w v := by
  obtain ⟨closure, pending⟩ := w
  obtain ⟨unit, back, rfl⟩ := List.exists_cons_of_ne_nil h
  exact ⟨_, .pop closure [] unit back⟩

structure Underway (s : Store) (stale : NameSet) (n : Nat) (w : Worklist) : Prop where
  count : n + w.pending.length = w.closure.size
  pending : ∀ u ∈ w.pending, u ∈ w.closure
  given : ∀ u ∈ stale, u ∈ w.closure
  within : ∀ u ∈ w.closure, u ∈ s.close stale
  lookedUp : ∀ v ∈ w.closure, v ∉ w.pending → ∀ u ∈ s.dependents v, u ∈ w.closure

variable {s : Store} {stale : NameSet} {n : Nat} {v w : Worklist}

theorem Underway.start (hs : s.KeyedByName) : Underway s stale 0 (.start stale) :=
  ⟨Nat.zero_add _, fun _ h => h, fun _ h => h, fun _ h => Store.subset_close hs h,
    fun _ h hout => absurd h hout⟩

theorem Underway.next (hs : s.KeyedByName) (h : Underway s stale n v) (hpops : Pops s v w) :
    Underway s stale (n + 1) w := by
  obtain ⟨closure, front, unit, back⟩ := hpops
  obtain ⟨hcount, hpending, hgiven, hwithin, hlooked⟩ := h
  have hunit : unit ∈ closure := hpending unit (by simp)
  have hsub : ∀ x ∈ front ++ back, x ∈ front ++ unit :: back := by
    intro x hx
    exact List.mem_append.2 ((List.mem_append.1 hx).imp_right (List.mem_cons_of_mem _))
  refine ⟨?_, ?_, ?_, ?_, ?_⟩
  · have hsize := size_putAll ⟨closure, front ++ back⟩ (s.dependents unit).names
    simp only [List.length_append, List.length_cons] at hcount hsize
    omega
  · exact mem_closure_of_pending_putAll fun x hx => hpending x (hsub x hx)
  · exact fun x hx => mem_closure_putAll.2 (Or.inr (hgiven x hx))
  · intro x hx
    rcases mem_closure_putAll.1 hx with hdependent | hx
    · exact Store.isClosed_close hs stale unit (hwithin unit hunit) x hdependent
    · exact hwithin x hx
  · intro x hx hout y hy
    refine mem_closure_putAll.2 ?_
    -- a name that is no longer pending is the one taken off, or was looked up before
    by_cases hxu : x = unit
    · subst hxu
      exact Or.inl hy
    · have hold : x ∈ closure := (pending_or_of_mem_putAll hx).resolve_right hout
      refine Or.inr (hlooked x hold ?_ y hy)
      intro hmem
      refine hout (pending_putAll ?_)
      rcases List.mem_append.1 hmem with hfront | hback
      · exact List.mem_append_left _ hfront
      · exact List.mem_append_right _ ((List.mem_cons.1 hback).resolve_left hxu)

theorem Run.underway (hs : s.KeyedByName) (h : Run s stale n w) : Underway s stale n w := by
  induction h with
  | start => exact .start hs
  | next _ hpops ih => exact ih.next hs hpops

theorem Underway.le_size (h : Underway s stale n w) : n ≤ (s.close stale).size := by
  have hcount := h.count
  have hsize := NameSet.size_le_of_subset h.within
  omega

theorem Underway.closure_eq (hs : s.KeyedByName) (h : Underway s stale n w) (hend : w.pending = []) :
    w.closure = s.close stale := by
  refine NameSet.ext_mem fun u => ⟨h.within u, fun hu => ?_⟩
  obtain ⟨v, hv, huv⟩ := (Store.mem_close_iff hs).1 hu
  refine Store.IsClosed.of_reaches hs ?_ huv (h.given v hv)
  exact fun x hx => h.lookedUp x hx (by rw [hend]; exact List.not_mem_nil)

end Worklist

/-- The order in which names are taken does not matter. -/
theorem close_eq_reachable {s : Store} (hs : s.Arises) (stale : NameSet) :
    (∀ u, u ∈ s.close stale ↔ ∃ v ∈ stale, s.Reaches u v) ∧
    ((∀ u ∈ stale, u ∈ s.close stale) ∧ s.IsClosed (s.close stale) ∧
      ∀ names, (∀ u ∈ stale, u ∈ names) → s.IsClosed names → ∀ u ∈ s.close stale, u ∈ names) ∧
    ∀ n w, Worklist.Run s stale n w → n ≤ (s.close stale).size ∧
      (w.pending ≠ [] → ∃ v, Worklist.Pops s w v) ∧
      (w.pending = [] → w.closure = s.close stale) := by
  have hkeys := hs.keyedByName
  refine ⟨fun u => Store.mem_close_iff hkeys, ⟨fun u hu => Store.subset_close hkeys hu,
    Store.isClosed_close hkeys stale, ?_⟩, ?_⟩
  · intro names hstale hclosed u hu
    obtain ⟨v, hv, huv⟩ := (Store.mem_close_iff hkeys).1 hu
    exact hclosed.of_reaches hkeys huv (hstale v hv)
  · intro n w hrun
    have hunderway := hrun.underway hkeys
    exact ⟨hunderway.le_size, Worklist.exists_pops s, hunderway.closure_eq hkeys⟩

namespace SampleGraph

def artifact (name : String) (dependencies : List String) : Artifact where
  name := name
  fingerprint := ⟨List.replicate 16 1, rfl⟩
  compiler := ⟨"0.1.0", true, 200, none⟩
  dependencies := .ofList dependencies
  bytecode := "0x00"
  deployedBytecode := ""
  abi := .array []
  sourcePath := "contracts/" ++ name ++ ".sol"
  kind := .contract
  metadata := .null

def add (s : Store) (name : String) (dependencies : List String) : Store :=
  (s.add (artifact name dependencies) default).2.1

def store : Store :=
  add (add (add (add (add .inMemory "A" ["C"]) "B" ["A"]) "C" ["B"]) "D" ["D", "B"]) "E" ["Gone"]

theorem arises : store.Arises := ((((Store.Arises.inMemory.add _ _).add _ _).add _ _).add _ _).add _ _

end SampleGraph

theorem close_eq_reachable_of_cycle :
    SampleGraph.store.Arises ∧
    SampleGraph.store.close (.ofList ["A", "Gone", "New"]) =
      .ofList ["A", "B", "C", "D", "E", "Gone", "New"] ∧
    SampleGraph.store.Reaches "D" "A" ∧
    ∀ n w, Worklist.Run SampleGraph.store (.ofList ["A", "Gone", "New"]) n w → n ≤ 7 := by
  obtain ⟨hmem, -, hruns⟩ :=
    close_eq_reachable SampleGraph.arises (.ofList ["A", "Gone", "New"])
  have hclose : SampleGraph.store.close (.ofList ["A", "Gone", "New"]) =
      .ofList ["A", "B", "C", "D", "E", "Gone", "New"] := by decide
  refine ⟨SampleGraph.arises, hclose, ?_, fun n w hrun => ?_⟩
  · have hD : "D" ∈ SampleGraph.store.close (.ofList ["A"]) := by decide
    obtain ⟨v, hv, hreaches⟩ := (Store.mem_close_iff SampleGraph.arises.keyedByName).1 hD
    rw [NameSet.mem_ofList, List.mem_singleton] at hv
    exact hv ▸ hreaches
  · have hle := (hruns n w hrun).1
    rw [hclose] at hle
    exact hle

end ContractBuild
