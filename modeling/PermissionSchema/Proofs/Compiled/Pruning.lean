import PermissionSchema.Compiled.Schema
import PermissionSchema.Proofs.Compiled.Walk
/-!
Pruning: taking every placeholder out of the rewrites of a schema, at any depth. An operation all of
whose operands are placeholders stays where it is, without operands.
-/
namespace PermissionSchema.Compiled

namespace Operand

mutual

def prune? : Operand → Option Operand
  | .this => none
  | .computed relation => some (.computed relation)
  | .arrow tupleset target => some (.arrow tupleset target)
  | .nested operator operands => some (.nested operator (prune operands))
  | .nil => none

def prune : List Operand → List Operand
  | [] => []
  | operand :: rest => operand.prune?.toList ++ prune rest

end

@[simp] theorem prune_empty : prune [] = [] := rfl

@[simp] theorem prune_this (rest : List Operand) : prune (.this :: rest) = prune rest := rfl

@[simp] theorem prune_computed (relation : String) (rest : List Operand) :
    prune (.computed relation :: rest) = .computed relation :: prune rest := rfl

@[simp] theorem prune_arrow (tupleset target : String) (rest : List Operand) :
    prune (.arrow tupleset target :: rest) = .arrow tupleset target :: prune rest := rfl

@[simp] theorem prune_nested (operator : Operator) (inner rest : List Operand) :
    prune (.nested operator inner :: rest) = .nested operator (prune inner) :: prune rest := by
  simp [prune, prune?]

@[simp] theorem prune_nil (rest : List Operand) : prune (.nil :: rest) = prune rest := rfl

theorem placeholders_prune (operands : List Operand) : placeholders (prune operands) = [] := by
  induction operands using inductionOn with
  | empty => rfl
  | this rest ih | nil rest ih => exact ih
  | computed relation rest ih => exact ih
  | arrow tupleset target rest ih => exact ih
  | nested operator inner rest ihInner ihRest => simp [ihInner, ihRest]

example : prune [.this, .nested .exclusion [.nil, .this], .computed "viewer"] =
    [.nested .exclusion [], .computed "viewer"] := rfl

end Operand

def Rewrite.prune (rewrite : Rewrite) : Rewrite :=
  { rewrite with operands := Operand.prune rewrite.operands }

def Declaration.prune (declaration : Declaration) : Declaration :=
  { declaration with rewrite := declaration.rewrite.map Rewrite.prune }

def Definition.prune (definition : Definition) : Definition :=
  { definition with declarations := definition.declarations.map Declaration.prune }

def Schema.prune (schema : Schema) : Schema :=
  { schema with definitions := schema.definitions.map Definition.prune }

end PermissionSchema.Compiled
