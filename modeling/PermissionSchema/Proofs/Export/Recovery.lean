import PermissionSchema.Proofs.Document.RoundTrip
import PermissionSchema.Proofs.Export.Strictness
import Mathlib.Data.Set.Function
/-!
What can be told of a rewrite from its user set: all of it but its placeholders. Without
placeholders the rewrites and the set operations among the user sets are in a one-to-one
correspondence, and a lenient export confuses two rewrites only if they differ in nothing else.
-/
namespace PermissionSchema.Document.UserSet

open PermissionSchema.Compiled

mutual

def operand : UserSet → Operand
  | .operation operator children => .nested operator (operands children)
  | .arrow through permission => .arrow through permission
  | .relation name => .computed name

def operands : List UserSet → List Operand
  | [] => []
  | set :: rest => operand set :: operands rest

end

def rewrite? : UserSet → Option Rewrite
  | .operation operator children => some ⟨operator, operands children⟩
  | .arrow _ _ | .relation _ => none

theorem userSets_operands (sets : List UserSet) : Operand.userSets (operands sets) = sets := by
  induction sets using inductionOn with
  | empty => rfl
  | operation operator children rest ihChildren ihRest =>
    simp [operands, operand, ihChildren, ihRest]
  | arrow through permission rest ih => simp [operands, operand, ih]
  | relation name rest ih => simp [operands, operand, ih]

theorem placeholders_operands (sets : List UserSet) :
    Operand.placeholders (operands sets) = [] := by
  induction sets using inductionOn with
  | empty => rfl
  | operation operator children rest ihChildren ihRest =>
    simp [operands, operand, ihChildren, ihRest]
  | arrow through permission rest ih => simp [operands, operand, ih]
  | relation name rest ih => simp [operands, operand, ih]

/-- Nothing but the placeholders is missing from what is recovered. -/
theorem operands_userSets (list : List Operand) :
    operands (Operand.userSets list) = Operand.prune list := by
  induction list using Operand.inductionOn with
  | empty => rfl
  | this rest ih | nil rest ih => exact ih
  | computed relation rest ih => simp [operands, operand, ih]
  | arrow tupleset target rest ih => simp [operands, operand, ih]
  | nested operator inner rest ihInner ihRest => simp [operands, operand, ihInner, ihRest]

theorem rewrite?_userSet (rewrite : Rewrite) : rewrite.userSet.rewrite? = some rewrite.prune := by
  rw [Rewrite.userSet, rewrite?, operands_userSets]
  rfl

end PermissionSchema.Document.UserSet

namespace PermissionSchema.Compiled

theorem Operand.prune_of_free {operands : List Operand} (free : placeholders operands = []) :
    prune operands = operands := by
  induction operands using inductionOn with
  | empty => rfl
  | this rest _ | nil rest _ => cases free
  | computed relation rest ih => rw [prune_computed, ih free]
  | arrow tupleset target rest ih => rw [prune_arrow, ih free]
  | nested operator inner rest ihInner ihRest =>
    rw [placeholders_nested, List.append_eq_nil_iff] at free
    rw [prune_nested, ihInner free.1, ihRest free.2]

def Rewrite.Filled (rewrite : Rewrite) : Prop :=
  ¬Operand.Occurs .this rewrite.operands ∧ ¬Operand.Occurs .nil rewrite.operands

theorem Rewrite.filled_iff (rewrite : Rewrite) :
    rewrite.Filled ↔ Operand.placeholders rewrite.operands = [] :=
  (Operand.placeholders_eq_nil_iff rewrite.operands).symm

theorem Rewrite.Filled.prune {rewrite : Rewrite} (filled : rewrite.Filled) :
    rewrite.prune = rewrite := by
  rw [Rewrite.prune, Operand.prune_of_free (rewrite.filled_iff.mp filled)]

/-- Rewrites have the same user set exactly if they differ in placeholders alone. -/
theorem Rewrite.userSet_eq_iff (first second : Rewrite) :
    first.userSet = second.userSet ↔ first.prune = second.prune := by
  constructor
  · intro same
    have recovered := congrArg Document.UserSet.rewrite? same
    rwa [Document.UserSet.rewrite?_userSet, Document.UserSet.rewrite?_userSet,
      Option.some.injEq] at recovered
  · intro same
    rw [← first.userSet_prune, same, second.userSet_prune]

end PermissionSchema.Compiled

namespace PermissionSchema.Export

open PermissionSchema.Compiled

theorem mapRewrite_filled (scope : Scope) {rewrite : Rewrite} (filled : rewrite.Filled) :
    (mapRewrite scope rewrite).result = .ok rewrite.userSet :=
  mapRewrite_ok_iff.mpr ⟨fun _ => rewrite.filled_iff.mp filled, rfl⟩

/-- Mapping takes the rewrites without placeholders one-to-one to the set operations, in a strict
and in a lenient export. Whatever rewrite a user set is mapped from, all of it but its placeholders
can be recovered; and a lenient export maps two rewrites to one user set exactly if they are the same
but for their placeholders. -/
theorem mapRewrite_recoverable (scope : Scope) :
    Set.BijOn (fun rewrite => (mapRewrite scope rewrite).result) {rewrite | rewrite.Filled}
        {result | ∃ operator children, result = .ok (.operation operator children)} ∧
      (∀ rewrite set, (mapRewrite scope rewrite).result = .ok set →
        set.rewrite? = some rewrite.prune) ∧
      (scope.strict = false → ∀ first second,
        (∃ set, (mapRewrite scope first).result = .ok set ∧
          (mapRewrite scope second).result = .ok set) ↔ first.prune = second.prune) := by
  refine ⟨⟨?_, ?_, ?_⟩, ?_, ?_⟩
  · intro rewrite filled
    exact ⟨rewrite.operator, Operand.userSets rewrite.operands, mapRewrite_filled scope filled⟩
  · intro first filled second filledToo same
    simp only [mapRewrite_filled scope filled, mapRewrite_filled scope filledToo,
      Except.ok.injEq] at same
    have pruned := (Rewrite.userSet_eq_iff first second).mp same
    rwa [Rewrite.Filled.prune filled, Rewrite.Filled.prune filledToo] at pruned
  · rintro _ ⟨operator, children, rfl⟩
    have filled : Rewrite.Filled ⟨operator, Document.UserSet.operands children⟩ :=
      (Rewrite.filled_iff _).mpr (Document.UserSet.placeholders_operands children)
    refine ⟨_, filled, (mapRewrite_filled scope filled).trans ?_⟩
    rw [Rewrite.userSet, Document.UserSet.userSets_operands]
  · intro rewrite set mapped
    rw [(mapRewrite_ok_iff.mp mapped).2]
    exact Document.UserSet.rewrite?_userSet rewrite
  · intro lenient first second
    have mapped (rewrite : Rewrite) (set : Document.UserSet) :
        (mapRewrite scope rewrite).result = .ok set ↔ set = rewrite.userSet := by
      simp [mapRewrite_ok_iff, lenient]
    simp only [mapped, exists_eq_left]
    exact Rewrite.userSet_eq_iff first second

end PermissionSchema.Export
