import ContractBuild.Store

/-! Units that depend on others, through any number of recorded dependencies. -/

namespace ContractBuild.Store

def dependentsOfAny (s : Store) (names : NameSet) : List String :=
  (s.entries.values.filter fun a => a.dependencies.names.any names.contains).map (·.name)

def grow (s : Store) (names : NameSet) : NameSet := (s.dependentsOfAny names).foldl .insert names

def growFor (s : Store) : (rounds : Nat) → NameSet → NameSet
  | 0, names => names
  | rounds + 1, names =>
    let grown := s.grow names
    if grown.size = names.size then names else s.growFor rounds grown

/-- Every round but the last adds a stored unit. -/
def close (s : Store) (names : NameSet) : NameSet := s.growFor (s.entries.size + 1) names

def evict (s : Store) (names : NameSet) : List String × Store :=
  let entries := s.entries.filter fun unit _ => !names.contains unit
  (names.names.filter s.contains, { s with entries })

end ContractBuild.Store
