import ContractBuild.Dependents
import ContractBuild.Proofs.Names
import Mathlib.Logic.Relation

/-! Growing a set of units round by round ends in exactly those units from which the recorded
dependencies lead into the set. Records may form cycles and may name units that have no artifact. -/

namespace ContractBuild.Store

open Relation

/-- The artifact of the first unit lists the second one as a dependency. -/
def Records (s : Store) (u v : String) : Prop := ∃ a, s.get? u = some a ∧ v ∈ a.dependencies

/-- Recorded dependencies lead from the first unit to the second one, in any number of steps. -/
def Reaches (s : Store) : String → String → Prop := ReflTransGen s.Records

/-- Every artifact is stored under its own name. -/
def KeyedByName (s : Store) : Prop := ∀ u a, s.get? u = some a → a.name = u

theorem keyedByName_of_entries {s : Store} (h : ∀ e ∈ s.entries.entries, e.2.name = e.1) :
    s.KeyedByName := fun _ _ ha => h _ (NameMap.get?_eq_some_iff.1 ha)

theorem Records.contains {s : Store} {u v : String} (h : s.Records u v) : s.contains u = true := by
  obtain ⟨a, ha, -⟩ := h
  exact NameMap.contains_iff.2 ⟨a, ha⟩

theorem mem_dependentsOfAny {s : Store} (hs : s.KeyedByName) {names : NameSet} {u : String} :
    u ∈ s.dependentsOfAny names ↔ ∃ v ∈ names, s.Records u v := by
  simp only [dependentsOfAny, List.mem_map, List.mem_filter, NameMap.mem_values_iff, List.any_eq_true,
    NameSet.contains_iff]
  constructor
  · rintro ⟨a, ⟨⟨k, ha⟩, v, hva, hv⟩, rfl⟩
    refine ⟨v, hv, a, ?_, hva⟩
    rw [hs k a ha]
    exact ha
  · rintro ⟨v, hv, a, ha, hva⟩
    exact ⟨a, ⟨⟨u, ha⟩, v, hva, hv⟩, hs u a ha⟩

theorem mem_grow {s : Store} (hs : s.KeyedByName) {names : NameSet} {u : String} :
    u ∈ s.grow names ↔ u ∈ names ∨ ∃ v ∈ names, s.Records u v := by
  rw [grow, NameSet.mem_foldl_insert, mem_dependentsOfAny hs, or_comm]

theorem subset_growFor {s : Store} (hs : s.KeyedByName) (rounds : Nat) {names : NameSet} {u : String}
    (h : u ∈ names) : u ∈ s.growFor rounds names := by
  induction rounds generalizing names with
  | zero => exact h
  | succ rounds ih =>
    rw [growFor]
    split
    · exact h
    · exact ih ((mem_grow hs).2 (Or.inl h))

theorem growFor_sound {s : Store} (hs : s.KeyedByName) (rounds : Nat) {names : NameSet} {u : String}
    (h : u ∈ s.growFor rounds names) : ∃ v ∈ names, s.Reaches u v := by
  induction rounds generalizing names with
  | zero => exact ⟨u, h, .refl⟩
  | succ rounds ih =>
    rw [growFor] at h
    split at h
    · exact ⟨u, h, .refl⟩
    · obtain ⟨v, hv, huv⟩ := ih h
      rcases (mem_grow hs).1 hv with hv | ⟨w, hw, hvw⟩
      · exact ⟨v, hv, huv⟩
      · exact ⟨w, hw, huv.tail hvw⟩

def outside (s : Store) (names : NameSet) : List String :=
  s.entries.names.filter (!names.contains ·)

theorem mem_outside {s : Store} {names : NameSet} {u : String} :
    u ∈ s.outside names ↔ s.contains u = true ∧ u ∉ names := by
  rw [outside, List.mem_filter, NameMap.mem_names_iff, Bool.not_eq_true', NameSet.contains_eq_false_iff,
    contains]

theorem length_outside_lt {s : Store} {names grown : NameSet} (hsub : ∀ u ∈ names, u ∈ grown)
    {u : String} (hu : u ∈ grown) (hstored : s.contains u = true) (hout : u ∉ names) :
    (s.outside grown).length < (s.outside names).length := by
  have hnodup : (s.outside grown).Nodup := (NameMap.nodup_names s.entries).filter _
  have hnew : u ∉ s.outside grown := fun h => (mem_outside.1 h).2 hu
  have hcons : (u :: s.outside grown).Nodup := List.nodup_cons.2 ⟨hnew, hnodup⟩
  refine (List.subperm_of_subset hcons ?_).length_le
  intro x hx
  rcases List.mem_cons.1 hx with rfl | hx
  · exact mem_outside.2 ⟨hstored, hout⟩
  · obtain ⟨hsx, hgx⟩ := mem_outside.1 hx
    exact mem_outside.2 ⟨hsx, fun hn => hgx (hsub x hn)⟩

theorem grow_eq_or_lt {s : Store} (hs : s.KeyedByName) (names : NameSet) :
    s.grow names = names ∨ (s.outside (s.grow names)).length < (s.outside names).length := by
  have hsub : ∀ u ∈ names, u ∈ s.grow names := fun u hu => (mem_grow hs).2 (Or.inl hu)
  by_cases h : ∃ u ∈ s.grow names, u ∉ names
  · obtain ⟨u, hu, hout⟩ := h
    rcases (mem_grow hs).1 hu with hn | ⟨v, -, hr⟩
    · exact absurd hn hout
    · exact Or.inr (length_outside_lt hsub hu hr.contains hout)
  · push Not at h
    exact Or.inl (NameSet.ext_mem fun u => ⟨h u, hsub u⟩)

theorem growFor_closed {s : Store} (hs : s.KeyedByName) (rounds : Nat) {names : NameSet}
    (hrounds : (s.outside names).length < rounds) {u v : String} (hr : s.Records u v)
    (hv : v ∈ s.growFor rounds names) : u ∈ s.growFor rounds names := by
  induction rounds generalizing names with
  | zero => exact absurd hrounds (Nat.not_lt_zero _)
  | succ rounds ih =>
    rw [growFor] at hv ⊢
    rcases grow_eq_or_lt hs names with heq | hlt
    · rw [heq, if_pos rfl] at hv ⊢
      rw [← heq]
      exact (mem_grow hs).2 (Or.inr ⟨v, hv, hr⟩)
    · split at hv
      · rename_i hsize
        have heq : names = s.grow names := NameSet.eq_of_subset_of_size_le
          (fun u hu => (mem_grow hs).2 (Or.inl hu)) (Nat.le_of_eq hsize)
        rw [← heq] at hlt
        exact absurd hlt (Nat.lt_irrefl _)
      · rename_i hsize
        rw [if_neg hsize]
        exact ih (by omega) hv

theorem mem_close_iff {s : Store} (hs : s.KeyedByName) {names : NameSet} {u : String} :
    u ∈ s.close names ↔ ∃ v ∈ names, s.Reaches u v := by
  refine ⟨growFor_sound hs _, ?_⟩
  rintro ⟨v, hv, huv⟩
  have hrounds : (s.outside names).length < s.entries.size + 1 := by
    have h : (s.outside names).length ≤ s.entries.names.length := List.length_filter_le _ _
    rw [NameMap.names, List.length_map] at h
    exact Nat.lt_succ_of_le h
  induction huv using ReflTransGen.head_induction_on with
  | refl => exact subset_growFor hs _ hv
  | head hr _ ih => exact growFor_closed hs _ hrounds hr ih

theorem subset_close {s : Store} (hs : s.KeyedByName) {names : NameSet} {u : String}
    (h : u ∈ names) : u ∈ s.close names := (mem_close_iff hs).2 ⟨u, h, .refl⟩

theorem mem_close_of_records {s : Store} (hs : s.KeyedByName) {names : NameSet} {u v : String}
    (hr : s.Records u v) (hv : v ∈ s.close names) : u ∈ s.close names := by
  obtain ⟨w, hw, hvw⟩ := (mem_close_iff hs).1 hv
  exact (mem_close_iff hs).2 ⟨w, hw, .head hr hvw⟩

theorem get?_evict (s : Store) (names : NameSet) (u : String) :
    (s.evict names).2.get? u = if u ∈ names then none else s.get? u :=
  NameMap.get?_without s.entries names u

theorem KeyedByName.evict {s : Store} (hs : s.KeyedByName) (names : NameSet) :
    (s.evict names).2.KeyedByName := by
  intro u a h
  rw [get?_evict] at h
  split at h
  · cases h
  · exact hs u a h

end ContractBuild.Store
