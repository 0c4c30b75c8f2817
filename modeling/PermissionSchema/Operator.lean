/-!
The set operators of permission expressions.
-/
namespace PermissionSchema

/-- A set operator over any number of operands. An exclusion takes all its later operands away from
its first. -/
inductive Operator where
  | union
  | intersection
  | exclusion
  deriving DecidableEq, Repr, Inhabited

namespace Operator

def all : List Operator := [.union, .intersection, .exclusion]

def name : Operator → String
  | .union => "union"
  | .intersection => "intersection"
  | .exclusion => "exclusion"

def ofName? (name : String) : Option Operator :=
  all.find? (·.name = name)

theorem ofName?_name (operator : Operator) : ofName? operator.name = some operator := by
  cases operator <;> rfl

end Operator

end PermissionSchema
