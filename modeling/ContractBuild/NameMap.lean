/-! Finite maps keyed by names, listed in code point order. An entry list is strictly ascending, so
two maps with the same look-ups are the same value. -/

namespace ContractBuild

structure NameMap (α : Type) where
  entries : List (String × α)
  ascending : entries.Pairwise (fun a b => a.1 < b.1)
  deriving Repr, DecidableEq

namespace NameMap

variable {α β : Type}

def empty : NameMap α := ⟨[], List.Pairwise.nil⟩

instance : EmptyCollection (NameMap α) := ⟨empty⟩
instance : Inhabited (NameMap α) := ⟨empty⟩

def get? (m : NameMap α) (name : String) : Option α := m.entries.lookup name

def contains (m : NameMap α) (name : String) : Bool := (m.get? name).isSome

def names (m : NameMap α) : List String := m.entries.map (·.1)

def values (m : NameMap α) : List α := m.entries.map (·.2)

def size (m : NameMap α) : Nat := m.entries.length

def isEmpty (m : NameMap α) : Bool := m.entries.isEmpty

def insertEntry (name : String) (value : α) : List (String × α) → List (String × α)
  | [] => [(name, value)]
  | (k, v) :: rest =>
    if name < k then (name, value) :: (k, v) :: rest
    else if name = k then (name, value) :: rest
    else (k, v) :: insertEntry name value rest

theorem mem_insertEntry {name : String} {value : α} {e : String × α} {l : List (String × α)} :
    e ∈ insertEntry name value l → e = (name, value) ∨ e ∈ l := by
  induction l with
  | nil => simp [insertEntry]
  | cons head rest ih =>
    rw [insertEntry]
    split
    · grind
    · split <;> grind

theorem pairwise_insertEntry (name : String) (value : α) {l : List (String × α)}
    (h : l.Pairwise (fun a b => a.1 < b.1)) :
    (insertEntry name value l).Pairwise (fun a b => a.1 < b.1) := by
  induction l with
  | nil => simp [insertEntry]
  | cons head rest ih =>
    rw [List.pairwise_cons] at h
    rw [insertEntry]
    split
    · rename_i hlt
      refine List.pairwise_cons.2 ⟨?_, List.pairwise_cons.2 h⟩
      intro e he
      rcases List.mem_cons.1 he with rfl | he
      · exact hlt
      · exact String.lt_trans hlt (h.1 e he)
    · split
      · rename_i heq
        exact List.pairwise_cons.2 ⟨fun e he => by simpa [heq] using h.1 e he, h.2⟩
      · rename_i hlt hne
        refine List.pairwise_cons.2 ⟨?_, ih h.2⟩
        intro e he
        rcases mem_insertEntry he with rfl | he
        · exact Std.lt_of_le_of_ne (String.not_lt.1 hlt) (Ne.symm hne)
        · exact h.1 e he

def insert (m : NameMap α) (name : String) (value : α) : NameMap α :=
  ⟨insertEntry name value m.entries, pairwise_insertEntry name value m.ascending⟩

def filter (m : NameMap α) (keep : String → α → Bool) : NameMap α :=
  ⟨m.entries.filter fun e => keep e.1 e.2, m.ascending.filter _⟩

def erase (m : NameMap α) (name : String) : NameMap α := m.filter fun k _ => k != name

def mapValues (f : α → β) (m : NameMap α) : NameMap β :=
  ⟨m.entries.map fun e => (e.1, f e.2), by
    have h := m.ascending
    rw [List.pairwise_map]
    exact h⟩

def filterMap (f : String → α → Option β) (m : NameMap α) : NameMap β :=
  ⟨m.entries.filterMap fun e => (f e.1 e.2).map (e.1, ·), by
    refine m.ascending.filterMap _ ?_
    intro a b h x hx y hy
    obtain ⟨_, _, rfl⟩ := Option.map_eq_some_iff.1 hx
    obtain ⟨_, _, rfl⟩ := Option.map_eq_some_iff.1 hy
    exact h⟩

/-- Later entries win over earlier ones of the same name. -/
def ofList (l : List (String × α)) : NameMap α :=
  l.foldl (fun m e => m.insert e.1 e.2) empty

end NameMap
end ContractBuild
