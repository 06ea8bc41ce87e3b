import ContractBuild.NameSet
import ContractBuild.Project.Error

/-! The names of the active projects. No two active projects share a name. -/

namespace ContractBuild

structure Registry where
  active : NameSet := {}
  deriving DecidableEq, Repr, Inhabited

namespace Registry

def contains (r : Registry) (name : String) : Bool := r.active.contains name

def register (r : Registry) (name : String) : Except ProjectError Registry :=
  if r.contains name then .error (.alreadyLoaded name) else .ok ⟨r.active.insert name⟩

def unregister (r : Registry) (name : String) : Registry := ⟨r.active.erase name⟩

def names (r : Registry) : List String := r.active.names

end Registry
end ContractBuild
