import PermissionSchema.Proofs.Compiled.Walk
import PermissionSchema.Proofs.Export.Traversal
/-!
What becomes of an expression. A lenient export drops every placeholder and tells of each of them; a
strict one stops at the first. What is left of the expression is the same in both.
-/
namespace PermissionSchema.Compiled

open PermissionSchema.Document

mutual

def Operand.userSet? : Operand → Option UserSet
  | .this => none
  | .computed relation => some (.relation relation)
  | .arrow tupleset target => some (.arrow tupleset target)
  | .nested operator operands => some (.operation operator (Operand.userSets operands))
  | .nil => none

def Operand.userSets : List Operand → List UserSet
  | [] => []
  | operand :: rest => operand.userSet?.toList ++ Operand.userSets rest

end

def Rewrite.userSet (rewrite : Rewrite) : UserSet :=
  .operation rewrite.operator (Operand.userSets rewrite.operands)

namespace Operand

@[simp] theorem userSets_empty : userSets [] = [] := rfl

@[simp] theorem userSets_this (rest : List Operand) : userSets (.this :: rest) = userSets rest := rfl

@[simp] theorem userSets_computed (relation : String) (rest : List Operand) :
    userSets (.computed relation :: rest) = .relation relation :: userSets rest := rfl

@[simp] theorem userSets_arrow (tupleset target : String) (rest : List Operand) :
    userSets (.arrow tupleset target :: rest) = .arrow tupleset target :: userSets rest := rfl

@[simp] theorem userSets_nested (operator : Operator) (inner rest : List Operand) :
    userSets (.nested operator inner :: rest) =
      .operation operator (userSets inner) :: userSets rest := by
  simp [userSets, userSet?]

@[simp] theorem userSets_nil (rest : List Operand) : userSets (.nil :: rest) = userSets rest := rfl

end Operand
end PermissionSchema.Compiled

namespace PermissionSchema.Export

open PermissionSchema.Compiled

/-- A lenient export keeps what has a user set and tells of every placeholder it drops. -/
theorem mapOperands_lenient {scope : Scope} (lenient : scope.strict = false)
    (operands : List Operand) :
    mapOperands scope operands =
      ⟨(Operand.placeholders operands).map
          fun kind => .dropped scope.definition scope.relation kind.name,
        .ok (Operand.userSets operands)⟩ := by
  have dropping (kind : OperandKind) :
      placeholder scope kind = ⟨[.dropped scope.definition scope.relation kind.name], .ok none⟩ := by
    simp [placeholder, lenient, Traced.emit, Traced.pure_eq, bind, Traced.bind]
  induction operands using Operand.inductionOn with
  | empty => rfl
  | this rest ih | nil rest ih =>
    simp [mapOperands, mapOperand, dropping, ih, Traced.pure_eq, bind, Traced.bind]
  | computed relation rest ih =>
    simp [mapOperands, mapOperand, ih, Traced.pure_eq, bind, Traced.bind]
  | arrow tupleset target rest ih =>
    simp [mapOperands, mapOperand, ih, Traced.pure_eq, bind, Traced.bind]
  | nested operator inner rest ihInner ihRest =>
    simp [mapOperands, mapOperand, ihInner, ihRest, Traced.pure_eq, bind, Traced.bind]

/-- A strict export of operands without placeholders is their lenient one; any other stops at the
first placeholder, before it tells of anything. -/
theorem mapOperands_strict {scope : Scope} (strict : scope.strict = true)
    (operands : List Operand) :
    mapOperands scope operands =
      match (Operand.placeholders operands).head? with
      | none => ⟨[], .ok (Operand.userSets operands)⟩
      | some kind =>
        ⟨[], .error (.unsupportedOperand scope.definition scope.relation kind.name)⟩ := by
  have refusing (kind : OperandKind) : placeholder scope kind =
      ⟨[], .error (.unsupportedOperand scope.definition scope.relation kind.name)⟩ := by
    simp [placeholder, strict, Traced.fail]
  induction operands using Operand.inductionOn with
  | empty => rfl
  | this rest ih | nil rest ih => simp [mapOperands, mapOperand, refusing, bind, Traced.bind]
  | computed relation rest ih =>
    simp only [mapOperands, mapOperand, ih, Operand.placeholders_computed]
    cases (Operand.placeholders rest).head? <;> simp [Traced.pure_eq, bind, Traced.bind]
  | arrow tupleset target rest ih =>
    simp only [mapOperands, mapOperand, ih, Operand.placeholders_arrow]
    cases (Operand.placeholders rest).head? <;> simp [Traced.pure_eq, bind, Traced.bind]
  | nested operator inner rest ihInner ihRest =>
    simp only [mapOperands, mapOperand, ihInner, ihRest, Operand.placeholders_nested,
      List.head?_append]
    -- the nested operands come first, so a placeholder among them hides those of the rest
    cases (Operand.placeholders inner).head? <;> cases (Operand.placeholders rest).head? <;>
      simp [Traced.pure_eq, bind, Traced.bind]

theorem mapRewrite_ok_iff {scope : Scope} {rewrite : Rewrite} {set : Document.UserSet} :
    (mapRewrite scope rewrite).result = .ok set ↔
      (scope.strict = true → Operand.placeholders rewrite.operands = []) ∧
        set = rewrite.userSet := by
  simp only [mapRewrite, Traced.bind_ok_iff, Traced.pure_eq]
  by_cases strict : scope.strict = true
  · rw [mapOperands_strict strict]
    cases Operand.placeholders rewrite.operands with
    | cons kind rest => simp [strict]
    | nil =>
      simp only [List.head?_nil, Except.ok.injEq, exists_eq_left', strict, true_and, forall_const]
      exact eq_comm
  · rw [mapOperands_lenient (Bool.eq_false_iff.mpr strict)]
    simp only [Except.ok.injEq, exists_eq_left', strict, Bool.false_eq_true, false_implies, true_and]
    exact eq_comm

/-- A rewrite is refused only by a strict export, and for the first placeholder of its walk. -/
theorem mapRewrite_error_iff {scope : Scope} {rewrite : Rewrite} {error : SchemaError} :
    (mapRewrite scope rewrite).result = .error error ↔
      scope.strict = true ∧ ∃ kind, (Operand.placeholders rewrite.operands).head? = some kind ∧
        error = .unsupportedOperand scope.definition scope.relation kind.name := by
  simp only [mapRewrite, Traced.bind_error_iff, Traced.pure_eq, reduceCtorEq, and_false,
    exists_false, or_false]
  by_cases strict : scope.strict = true
  · rw [mapOperands_strict strict]
    cases Operand.placeholders rewrite.operands with
    | nil => simp
    | cons kind rest =>
      simp only [List.head?_cons, Except.error.injEq, strict, true_and, Option.some.injEq,
        exists_eq_left']
      exact eq_comm
  · rw [mapOperands_lenient (Bool.eq_false_iff.mpr strict)]
    simp [strict]

end PermissionSchema.Export
