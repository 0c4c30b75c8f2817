import PermissionSchema.Operator
/-!
Rewrites: the expressions that compute permissions, as a compiler leaves them.
-/
namespace PermissionSchema.Compiled

/-- An operand of a set operation. The first and the last stand for a place in the expression that
no expression fills. -/
inductive Operand where
  | this
  | computed (relation : String)
  | arrow (tupleset computed : String)
  | nested (operator : Operator) (operands : List Operand)
  | nil
  deriving Repr, Inhabited

structure Rewrite where
  operator : Operator
  operands : List Operand
  deriving Repr, Inhabited

inductive OperandKind where
  | this
  | computed
  | arrow
  | nested
  | nil
  deriving DecidableEq, Repr

namespace OperandKind

def all : List OperandKind := [.this, .computed, .arrow, .nested, .nil]

def name : OperandKind → String
  | .this => "_this"
  | .computed => "computedUserset"
  | .arrow => "tupleToUserset"
  | .nested => "usersetRewrite"
  | .nil => "_nil"

end OperandKind

def Operand.kind : Operand → OperandKind
  | .this => .this
  | .computed _ => .computed
  | .arrow _ _ => .arrow
  | .nested _ _ => .nested
  | .nil => .nil

def Operand.ofRewrite (rewrite : Rewrite) : Operand :=
  .nested rewrite.operator rewrite.operands

end PermissionSchema.Compiled
