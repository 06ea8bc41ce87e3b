import ContractBuild.NameMap

/-! Finite sets of names, listed in code point order without repetition. -/

namespace ContractBuild

structure NameSet where
  names : List String
  ascending : names.Pairwise (· < ·)
  deriving Repr, DecidableEq

namespace NameSet

def empty : NameSet := ⟨[], List.Pairwise.nil⟩

instance : EmptyCollection NameSet := ⟨empty⟩
instance : Inhabited NameSet := ⟨empty⟩

def contains (s : NameSet) (name : String) : Bool := s.names.contains name

instance : Membership String NameSet := ⟨fun s name => name ∈ s.names⟩

instance (name : String) (s : NameSet) : Decidable (name ∈ s) :=
  inferInstanceAs (Decidable (name ∈ s.names))

def size (s : NameSet) : Nat := s.names.length

def isEmpty (s : NameSet) : Bool := s.names.isEmpty

def insertName (name : String) : List String → List String
  | [] => [name]
  | k :: rest =>
    if name < k then name :: k :: rest
    else if name = k then k :: rest
    else k :: insertName name rest

theorem mem_insertName {name x : String} {l : List String} :
    x ∈ insertName name l ↔ x = name ∨ x ∈ l := by
  induction l with
  | nil => simp [insertName]
  | cons k rest ih =>
    rw [insertName]
    split
    · grind
    · split <;> grind

theorem pairwise_insertName (name : String) {l : List String} (h : l.Pairwise (· < ·)) :
    (insertName name l).Pairwise (· < ·) := by
  induction l with
  | nil => simp [insertName]
  | cons k rest ih =>
    have h' := List.pairwise_cons.1 h
    rw [insertName]
    split
    · rename_i hlt
      refine List.pairwise_cons.2 ⟨?_, h⟩
      intro e he
      rcases List.mem_cons.1 he with rfl | he
      · exact hlt
      · exact String.lt_trans hlt (h'.1 e he)
    · split
      · exact h
      · rename_i hlt hne
        refine List.pairwise_cons.2 ⟨?_, ih h'.2⟩
        intro e he
        rcases mem_insertName.1 he with rfl | he
        · exact Std.lt_of_le_of_ne (String.not_lt.1 hlt) (Ne.symm hne)
        · exact h'.1 e he

def insert (s : NameSet) (name : String) : NameSet :=
  ⟨insertName name s.names, pairwise_insertName name s.ascending⟩

theorem mem_insert {s : NameSet} {name x : String} : x ∈ s.insert name ↔ x = name ∨ x ∈ s :=
  mem_insertName

def filter (s : NameSet) (keep : String → Bool) : NameSet :=
  ⟨s.names.filter keep, s.ascending.filter _⟩

def erase (s : NameSet) (name : String) : NameSet := s.filter (· != name)

def ofList (l : List String) : NameSet := l.foldl insert empty

def union (s t : NameSet) : NameSet := t.names.foldl insert s

end NameSet

def NameMap.nameSet {α : Type} (m : NameMap α) : NameSet :=
  ⟨m.names, by
    rw [NameMap.names, List.pairwise_map]
    exact m.ascending⟩

end ContractBuild
