import ContractBuild.NameSet
import Mathlib.Data.List.Nodup
import Mathlib.Data.List.Perm.Subperm
import Mathlib.Tactic.Tauto

/-! Look-ups in finite maps and membership in finite sets of names. Entries ascend strictly, so a map
is determined by its look-ups and a set by its members. -/

namespace ContractBuild

namespace NameMap

variable {α β : Type}

theorem nodup_names (m : NameMap α) : m.names.Nodup :=
  List.pairwise_map.2 (m.ascending.imp fun h => (String.lt_irrefl _ <| · ▸ h))

theorem lookup_cons_ite {κ : Type} [BEq κ] [LawfulBEq κ] [DecidableEq κ] (name x : κ) (value : α)
    (l : List (κ × α)) :
    ((name, value) :: l).lookup x = if x = name then some value else l.lookup x := by
  by_cases h : x = name
  · rw [if_pos h, h, List.lookup_cons_self]
  · rw [if_neg h, List.lookup_cons, beq_false_of_ne h]

theorem lookup_map_snd (f : α → β) (l : List (String × α)) (u : String) :
    (l.map fun e => (e.1, f e.2)).lookup u = (l.lookup u).map f := by
  induction l with
  | nil => rfl
  | cons e rest ih =>
    rw [List.map_cons, lookup_cons_ite, lookup_cons_ite, ih]
    split <;> rfl

theorem lookup_eq_some_iff_mem {l : List (String × α)} (h : (l.map (·.1)).Nodup) {name : String}
    {value : α} : l.lookup name = some value ↔ (name, value) ∈ l := by
  induction l with
  | nil => simp
  | cons e rest ih =>
    obtain ⟨k, v⟩ := e
    rw [List.map_cons, List.nodup_cons] at h
    by_cases hk : name = k
    · subst hk
      have hrest : (name, value) ∉ rest := fun hm => h.1 (List.mem_map.2 ⟨_, hm, rfl⟩)
      simp [hrest, eq_comm]
    · simp [lookup_cons_ite, ih h.2, hk]

theorem exists_lookup_of_mem {l : List (String × α)} {name : String} {value : α}
    (h : (name, value) ∈ l) : ∃ w, l.lookup name = some w := by
  cases hl : l.lookup name with
  | some w => exact ⟨w, rfl⟩
  | none =>
    have hne := List.lookup_eq_none_iff.1 hl _ h
    rw [bne_self_eq_false] at hne
    cases hne

theorem get?_eq_some_iff {m : NameMap α} {name : String} {value : α} :
    m.get? name = some value ↔ (name, value) ∈ m.entries :=
  lookup_eq_some_iff_mem m.nodup_names

@[simp] theorem get?_empty (name : String) : (empty : NameMap α).get? name = none := rfl

theorem contains_iff {m : NameMap α} {name : String} :
    m.contains name = true ↔ ∃ value, m.get? name = some value := by
  rw [contains, Option.isSome_iff_exists]

theorem contains_eq_false_iff {m : NameMap α} {name : String} :
    m.contains name = false ↔ m.get? name = none := by
  rw [contains, Option.isSome_eq_false_iff, Option.isNone_iff_eq_none]

theorem mem_names_iff {m : NameMap α} {name : String} :
    name ∈ m.names ↔ m.contains name = true := by
  rw [contains_iff]
  constructor
  · intro h
    obtain ⟨⟨_, value⟩, he, rfl⟩ := List.mem_map.1 h
    exact ⟨value, get?_eq_some_iff.2 he⟩
  · rintro ⟨value, h⟩
    exact List.mem_map.2 ⟨_, get?_eq_some_iff.1 h, rfl⟩

theorem mem_values_iff {m : NameMap α} {value : α} :
    value ∈ m.values ↔ ∃ name, m.get? name = some value := by
  simp only [values, List.mem_map, get?_eq_some_iff, Prod.exists, exists_eq_right]

theorem lookup_insertEntry (name x : String) (value : α) (l : List (String × α)) :
    (insertEntry name value l).lookup x = if x = name then some value else l.lookup x := by
  induction l with
  | nil => rw [insertEntry, lookup_cons_ite]
  | cons e rest ih =>
    obtain ⟨k, v⟩ := e
    rw [insertEntry]
    split
    · rw [lookup_cons_ite]
    · split
      · rename_i hk
        rw [lookup_cons_ite, lookup_cons_ite, ← hk]
        by_cases h : x = name <;> simp only [h, if_true, if_false]
      · rename_i hk
        rw [lookup_cons_ite, lookup_cons_ite, ih]
        by_cases h : x = k
        · have hx : x ≠ name := fun he => hk (he.symm.trans h)
          rw [if_pos h, if_neg hx, if_pos h]
        · rw [if_neg h, if_neg h]

theorem flatMap_insertEntry {name : String} {old new : α}
    {l : List (String × α)} {f : String × α → List β} (hl : l.Pairwise (fun a b => a.1 < b.1))
    (hold : (name, old) ∈ l) (hf : f (name, new) = f (name, old)) :
    (insertEntry name new l).flatMap f = l.flatMap f := by
  induction l with
  | nil => exact absurd hold List.not_mem_nil
  | cons e rest ih =>
    obtain ⟨k, v⟩ := e
    rw [List.pairwise_cons] at hl
    rcases List.mem_cons.1 hold with he | hrest
    · cases he
      rw [insertEntry, if_neg (String.lt_irrefl _), if_pos rfl, List.flatMap_cons, List.flatMap_cons, hf]
    · have hlt : k < name := hl.1 _ hrest
      have hne : name ≠ k := fun he => String.lt_irrefl k (he ▸ hlt)
      have hnlt : ¬ name < k := fun h => String.lt_irrefl k (String.lt_trans hlt h)
      rw [insertEntry, if_neg hnlt, if_neg hne, List.flatMap_cons, List.flatMap_cons, ih hl.2 hrest]

theorem get?_insert (m : NameMap α) (name x : String) (value : α) :
    (m.insert name value).get? x = if x = name then some value else m.get? x :=
  lookup_insertEntry name x value m.entries

theorem get?_filter (m : NameMap α) (keep : String → α → Bool) (x : String) :
    (m.filter keep).get? x = (m.get? x).filter (keep x) := by
  ext value
  rw [get?_eq_some_iff, Option.filter_eq_some_iff, get?_eq_some_iff]
  exact List.mem_filter

theorem get?_filterMap (m : NameMap α) (f : String → α → Option β) (x : String) :
    (m.filterMap f).get? x = (m.get? x).bind (f x) := by
  ext value
  rw [get?_eq_some_iff, Option.bind_eq_some_iff]
  simp only [filterMap, List.mem_filterMap, Option.map_eq_some_iff, Prod.mk.injEq, Prod.exists,
    get?_eq_some_iff]
  constructor
  · rintro ⟨_, a, ha, _, hf, rfl, rfl⟩
    exact ⟨a, ha, hf⟩
  · rintro ⟨a, ha, hf⟩
    exact ⟨x, a, ha, value, hf, rfl, rfl⟩

theorem get?_erase (m : NameMap α) (name x : String) :
    (m.erase name).get? x = if x = name then none else m.get? x := by
  rw [erase, get?_filter]
  by_cases h : x = name
  · cases hx : m.get? x <;> simp [h, Option.filter]
  · cases hx : m.get? x <;> simp [h, Option.filter]

theorem ext_get? {m n : NameMap α} (h : ∀ x, m.get? x = n.get? x) : m = n := by
  obtain ⟨l, hl⟩ := m
  obtain ⟨k, hk⟩ := n
  have hmem : ∀ e, e ∈ l ↔ e ∈ k := by
    rintro ⟨x, value⟩
    rw [← get?_eq_some_iff (m := ⟨l, hl⟩), ← get?_eq_some_iff (m := ⟨k, hk⟩), h]
  have hperm : l.Perm k := by
    refine (List.perm_ext_iff_of_nodup ?_ ?_).2 hmem
    · exact List.Pairwise.of_map _ (fun _ _ hne he => hne (congrArg _ he)) (nodup_names ⟨l, hl⟩)
    · exact List.Pairwise.of_map _ (fun _ _ hne he => hne (congrArg _ he)) (nodup_names ⟨k, hk⟩)
  have heq : l = k := hperm.eq_of_pairwise
    (fun a b _ _ hab hba => absurd hab (String.lt_asymm hba)) hl hk
  subst heq
  rfl

theorem get?_foldl_insert (l : List (String × α)) (m : NameMap α) (x : String) :
    (l.foldl (fun m e => m.insert e.1 e.2) m).get? x = (l.reverse.lookup x).or (m.get? x) := by
  induction l generalizing m with
  | nil => simp
  | cons e rest ih =>
    rw [List.foldl_cons, ih, get?_insert, List.reverse_cons, List.lookup_append]
    have hlast : [e].lookup x = if x = e.1 then some e.2 else none := lookup_cons_ite e.1 x e.2 []
    rw [hlast]
    by_cases h : x = e.1
    · cases rest.reverse.lookup x <;> simp [h]
    · cases rest.reverse.lookup x <;> simp [h]

theorem get?_ofList (l : List (String × α)) (x : String) :
    (ofList l).get? x = l.reverse.lookup x := by
  rw [ofList, get?_foldl_insert, get?_empty, Option.or_none]

theorem lookup_reverse_entries (m : NameMap α) (x : String) :
    m.entries.reverse.lookup x = m.get? x := by
  ext value
  rw [get?_eq_some_iff, lookup_eq_some_iff_mem, List.mem_reverse]
  rw [List.map_reverse, List.nodup_reverse]
  exact m.nodup_names

theorem ofList_entries (m : NameMap α) : ofList m.entries = m :=
  ext_get? fun x => by rw [get?_ofList, lookup_reverse_entries]

theorem mem_of_get?_ofList {l : List (String × α)} {x : String} {value : α}
    (h : (ofList l).get? x = some value) : (x, value) ∈ l := by
  rw [get?_ofList, List.lookup_eq_some_iff] at h
  obtain ⟨l₁, l₂, he, -⟩ := h
  rw [← List.mem_reverse, he]
  simp

theorem exists_get?_ofList {l : List (String × α)} {x : String} {value : α} (h : (x, value) ∈ l) :
    ∃ w, (ofList l).get? x = some w := by
  rw [get?_ofList]
  exact exists_lookup_of_mem (List.mem_reverse.2 h)

theorem get?_ofList_iff {l : List (String × α)} {x : String} {value : α}
    (hfun : ∀ v w, (x, v) ∈ l → (x, w) ∈ l → v = w) :
    (ofList l).get? x = some value ↔ (x, value) ∈ l := by
  refine ⟨mem_of_get?_ofList, fun h => ?_⟩
  obtain ⟨w, hw⟩ := exists_get?_ofList h
  rw [hw, hfun w value (mem_of_get?_ofList hw) h]

end NameMap

namespace NameSet

@[simp] theorem not_mem_empty (x : String) : x ∉ (empty : NameSet) := List.not_mem_nil

theorem contains_iff {s : NameSet} {x : String} : s.contains x = true ↔ x ∈ s :=
  List.contains_iff_mem

theorem contains_eq_false_iff {s : NameSet} {x : String} : s.contains x = false ↔ x ∉ s := by
  rw [← contains_iff, Bool.not_eq_true]

theorem nodup_names (s : NameSet) : s.names.Nodup :=
  s.ascending.imp fun h => (String.lt_irrefl _ <| · ▸ h)

theorem mem_filter {s : NameSet} {keep : String → Bool} {x : String} :
    x ∈ s.filter keep ↔ x ∈ s ∧ keep x = true := List.mem_filter

theorem mem_foldl_insert {l : List String} {s : NameSet} {x : String} :
    x ∈ l.foldl insert s ↔ x ∈ l ∨ x ∈ s := by
  induction l generalizing s with
  | nil => simp
  | cons name rest ih =>
    rw [List.foldl_cons, ih, mem_insert, List.mem_cons]
    tauto

theorem mem_ofList {l : List String} {x : String} : x ∈ ofList l ↔ x ∈ l := by
  rw [ofList, mem_foldl_insert]
  simp

theorem mem_union {s t : NameSet} {x : String} : x ∈ s.union t ↔ x ∈ s ∨ x ∈ t := by
  rw [union, mem_foldl_insert, or_comm]
  rfl

theorem ext_mem {s t : NameSet} (h : ∀ x, x ∈ s ↔ x ∈ t) : s = t := by
  obtain ⟨l, hl⟩ := s
  obtain ⟨k, hk⟩ := t
  have hperm : l.Perm k :=
    (List.perm_ext_iff_of_nodup (nodup_names ⟨l, hl⟩) (nodup_names ⟨k, hk⟩)).2 h
  have heq : l = k := hperm.eq_of_pairwise
    (fun a b _ _ hab hba => absurd hab (String.lt_asymm hba)) hl hk
  subst heq
  rfl

theorem ofList_names (s : NameSet) : ofList s.names = s := ext_mem fun _ => mem_ofList

theorem isEmpty_iff {s : NameSet} : s.isEmpty = true ↔ ∀ x, x ∉ s := by
  rw [isEmpty, List.isEmpty_iff, List.eq_nil_iff_forall_not_mem]
  rfl

theorem size_le_of_subset {s t : NameSet} (h : ∀ x ∈ s, x ∈ t) : s.size ≤ t.size :=
  (List.subperm_of_subset s.nodup_names h).length_le

theorem eq_of_subset_of_size_le {s t : NameSet} (h : ∀ x ∈ s, x ∈ t) (hsize : t.size ≤ s.size) :
    s = t :=
  ext_mem fun _ => ((List.subperm_of_subset s.nodup_names h).perm_of_length_le hsize).mem_iff

end NameSet

theorem NameMap.mem_nameSet {α : Type} {m : NameMap α} {x : String} :
    x ∈ m.nameSet ↔ m.contains x = true := NameMap.mem_names_iff

theorem NameMap.get?_within {α : Type} (m : NameMap α) (names : NameSet) (x : String) :
    (m.filter fun k _ => names.contains k).get? x = if x ∈ names then m.get? x else none := by
  rw [get?_filter]
  by_cases h : x ∈ names
  · rw [if_pos h, NameSet.contains_iff.2 h]
    cases m.get? x <;> rfl
  · rw [if_neg h, NameSet.contains_eq_false_iff.2 h]
    cases m.get? x <;> rfl

theorem NameMap.get?_without {α : Type} (m : NameMap α) (names : NameSet) (x : String) :
    (m.filter fun k _ => !names.contains k).get? x = if x ∈ names then none else m.get? x := by
  rw [get?_filter]
  by_cases h : x ∈ names
  · rw [if_pos h, NameSet.contains_iff.2 h]
    cases m.get? x <;> rfl
  · rw [if_neg h, NameSet.contains_eq_false_iff.2 h]
    cases m.get? x <;> rfl

end ContractBuild
