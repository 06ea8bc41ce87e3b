import ContractBuild.Decimal.Double

/-! JSON values. The members of an object stand in ascending order of their keys, each key once; an
integer that fits 64 bits stays exact, and every other number is a floating point number. -/

namespace ContractBuild

inductive Json where
  | null
  | bool (value : Bool)
  | integer (value : Int)
  | real (value : Decimal.Double)
  | string (value : String)
  | array (items : List Json)
  | object (members : List (String × Json))
  deriving Inhabited, Repr

namespace Json

mutual

def decEq : (a b : Json) → Decidable (a = b)
  | .null, .null => isTrue rfl
  | .bool x, .bool y => decidable_of_iff (x = y) (by simp)
  | .integer x, .integer y => decidable_of_iff (x = y) (by simp)
  | .real x, .real y => decidable_of_iff (x = y) (by simp)
  | .string x, .string y => decidable_of_iff (x = y) (by simp)
  | .array xs, .array ys =>
    have := decEqItems xs ys
    decidable_of_iff (xs = ys) (by simp)
  | .object xs, .object ys =>
    have := decEqMembers xs ys
    decidable_of_iff (xs = ys) (by simp)
  | .null, .bool _ | .null, .integer _ | .null, .real _ | .null, .string _ | .null, .array _
  | .null, .object _ | .bool _, .null | .bool _, .integer _ | .bool _, .real _ | .bool _, .string _
  | .bool _, .array _ | .bool _, .object _ | .integer _, .null | .integer _, .bool _
  | .integer _, .real _ | .integer _, .string _ | .integer _, .array _ | .integer _, .object _
  | .real _, .null | .real _, .bool _ | .real _, .integer _ | .real _, .string _
  | .real _, .array _ | .real _, .object _ | .string _, .null | .string _, .bool _
  | .string _, .integer _ | .string _, .real _ | .string _, .array _ | .string _, .object _
  | .array _, .null | .array _, .bool _ | .array _, .integer _ | .array _, .real _
  | .array _, .string _ | .array _, .object _ | .object _, .null | .object _, .bool _
  | .object _, .integer _ | .object _, .real _ | .object _, .string _ | .object _, .array _ =>
    isFalse (by simp)

def decEqItems : (xs ys : List Json) → Decidable (xs = ys)
  | [], [] => isTrue rfl
  | x :: xs, y :: ys =>
    have := decEq x y
    have := decEqItems xs ys
    decidable_of_iff (x = y ∧ xs = ys) (by simp)
  | [], _ :: _ | _ :: _, [] => isFalse (by simp)

def decEqMembers : (xs ys : List (String × Json)) → Decidable (xs = ys)
  | [], [] => isTrue rfl
  | (k, x) :: xs, (l, y) :: ys =>
    have := decEq x y
    have := decEqMembers xs ys
    decidable_of_iff (k = l ∧ x = y ∧ xs = ys) (by simp [and_assoc])
  | [], _ :: _ | _ :: _, [] => isFalse (by simp)

end

instance : DecidableEq Json := decEq

mutual

def depth : Json → Nat
  | .array items => 1 + depthItems items
  | .object members => 1 + depthMembers members
  | _ => 0

def depthItems : List Json → Nat
  | [] => 0
  | x :: xs => max (depth x) (depthItems xs)

def depthMembers : List (String × Json) → Nat
  | [] => 0
  | (_, x) :: xs => max (depth x) (depthMembers xs)

end

def member? : Json → String → Option Json
  | .object members, key => members.lookup key
  | _, _ => none

end Json
end ContractBuild
