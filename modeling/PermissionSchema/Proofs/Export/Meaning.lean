import PermissionSchema.Proofs.Export.Expression
import Mathlib.Data.Set.Basic
/-!
What expressions mean. Names stand for sets over some universe, and operators for the operations on
sets of the same names. A lenient export drops placeholders from the middle of an expression; the
main statement says where that leaves the meaning as it was: a place without an expression is empty,
and an empty set adds nothing to a union and takes nothing away from the base of an exclusion.
-/
namespace PermissionSchema

open PermissionSchema.Compiled

universe u

/-- What the names of an expression stand for. An operation without operands stands for some set of
its operator's own, which is empty for a union and for an exclusion. -/
structure Interpretation (α : Type u) where
  this : Set α
  relation : String → Set α
  arrow : String → String → Set α
  vacuous : Operator → Set α
  vacuous_union : vacuous .union = ∅
  vacuous_exclusion : vacuous .exclusion = ∅

namespace Interpretation

variable {α : Type u} (meaning : Interpretation α)

def apply : Operator → List (Set α) → Set α
  | operator, [] => meaning.vacuous operator
  | .union, sets => {member | ∃ set ∈ sets, member ∈ set}
  | .intersection, sets => {member | ∀ set ∈ sets, member ∈ set}
  | .exclusion, base :: rest => {member | member ∈ base ∧ ¬∃ set ∈ rest, member ∈ set}

mutual

def operand : Operand → Set α
  | .this => meaning.this
  | .computed relation => meaning.relation relation
  | .arrow tupleset target => meaning.arrow tupleset target
  | .nested operator operands => meaning.apply operator (operandSets operands)
  | .nil => ∅

def operandSets : List Operand → List (Set α)
  | [] => []
  | first :: rest => operand first :: operandSets rest

end

def rewrite (expression : Rewrite) : Set α :=
  meaning.apply expression.operator (meaning.operandSets expression.operands)

mutual

def userSet : Document.UserSet → Set α
  | .operation operator children => meaning.apply operator (childSets children)
  | .arrow through permission => meaning.arrow through permission
  | .relation name => meaning.relation name

def childSets : List Document.UserSet → List (Set α)
  | [] => []
  | first :: rest => userSet first :: childSets rest

end

theorem mem_apply_union (sets : List (Set α)) (member : α) :
    member ∈ meaning.apply .union sets ↔ ∃ set ∈ sets, member ∈ set := by
  cases sets with
  | nil => simp [apply, meaning.vacuous_union]
  | cons first rest => exact Iff.rfl

theorem mem_apply_exclusion (base : Set α) (rest : List (Set α)) (member : α) :
    member ∈ meaning.apply .exclusion (base :: rest) ↔
      member ∈ base ∧ ¬∃ set ∈ rest, member ∈ set := Iff.rfl

end Interpretation

/-- Where the operands of an operator may hold a `nil` without a change of meaning. -/
def NilsNeutral : Operator → List Operand → Prop
  | .union, _ => True
  | .intersection, operands => .nil ∉ operands
  | .exclusion, operands => operands.head? ≠ some .nil

/-- Operands among which no `this` occurs, and every operation nested in which is neutral to its own
`nil` operands. -/
structure NeutralWithin (operands : List Operand) : Prop where
  noThis : ¬Operand.Occurs .this operands
  nested : ∀ operator inner, Operand.Occurs (.nested operator inner) operands →
    NilsNeutral operator inner

theorem NeutralWithin.tail {first : Operand} {rest : List Operand}
    (neutral : NeutralWithin (first :: rest)) : NeutralWithin rest where
  noThis occurs := neutral.noThis (Operand.occurs_cons.mpr (Or.inr (Or.inr occurs)))
  nested operator inner occurs :=
    neutral.nested operator inner (Operand.occurs_cons.mpr (Or.inr (Or.inr occurs)))

theorem NeutralWithin.inside {operator : Operator} {inner rest : List Operand}
    (neutral : NeutralWithin (.nested operator inner :: rest)) :
    NilsNeutral operator inner ∧ NeutralWithin inner := by
  have within {operand : Operand} (occurs : Operand.Occurs operand inner) :
      Operand.Occurs operand (.nested operator inner :: rest) :=
    .inside List.mem_cons_self occurs
  exact ⟨neutral.nested operator inner (.here List.mem_cons_self),
    fun occurs => neutral.noThis (within occurs),
    fun other operands occurs => neutral.nested other operands (within occurs)⟩

namespace Interpretation

variable {α : Type u} (meaning : Interpretation α)

def keptSets (operands : List Operand) : List (Set α) :=
  meaning.operandSets (operands.filter (·.kind ≠ .nil))

theorem exists_mem_keptSets (operands : List Operand) (member : α) :
    (∃ set ∈ meaning.keptSets operands, member ∈ set) ↔
      ∃ set ∈ meaning.operandSets operands, member ∈ set := by
  unfold keptSets
  induction operands with
  | nil => rfl
  | cons first rest ih =>
    cases first <;> simp_all [operandSets, operand, Operand.kind]

theorem keptSets_eq_of_not_mem (operands : List Operand) (absent : .nil ∉ operands) :
    meaning.keptSets operands = meaning.operandSets operands := by
  unfold keptSets
  rw [List.filter_eq_self.mpr]
  intro operand member
  cases operand <;> simp_all [Operand.kind]

/-- An operator makes the same of all operands and of those other than `nil`. -/
theorem apply_keptSets {operator : Operator} {operands : List Operand}
    (neutral : NilsNeutral operator operands) :
    meaning.apply operator (meaning.keptSets operands) =
      meaning.apply operator (meaning.operandSets operands) := by
  cases operator with
  | union =>
    ext member
    rw [mem_apply_union, mem_apply_union, exists_mem_keptSets]
  | intersection => rw [keptSets_eq_of_not_mem meaning operands neutral]
  | exclusion =>
    cases operands with
    | nil => rfl
    | cons base rest =>
      have kept : meaning.keptSets (base :: rest) = meaning.operand base :: meaning.keptSets rest := by
        cases base <;> simp_all [NilsNeutral, keptSets, operandSets, Operand.kind]
      ext member
      rw [kept, operandSets, mem_apply_exclusion, mem_apply_exclusion, exists_mem_keptSets]

/-- What is left of operands has the meaning of those other than `nil`. -/
theorem childSets_userSets (operands : List Operand) (neutral : NeutralWithin operands) :
    meaning.childSets (Operand.userSets operands) = meaning.keptSets operands := by
  induction operands using Operand.inductionOn with
  | empty => rfl
  | this rest ih => exact absurd (.here List.mem_cons_self) neutral.noThis
  | computed relation rest ih =>
    exact congrArg (meaning.relation relation :: ·) (ih neutral.tail)
  | arrow tupleset target rest ih =>
    exact congrArg (meaning.arrow tupleset target :: ·) (ih neutral.tail)
  | nested operator inner rest ihInner ihRest =>
    obtain ⟨nils, within⟩ := neutral.inside
    rw [Operand.userSets_nested, childSets, userSet, ihInner within, apply_keptSets meaning nils,
      ihRest neutral.tail]
    rfl
  | nil rest ih => exact ih neutral.tail

/-- A lenient export keeps the meaning of every rewrite without `this` in which `nil` is an operand
of unions only, or of an exclusion but not its first. -/
theorem mapRewrite_preserves_meaning {scope : Export.Scope} {expression : Rewrite}
    (lenient : scope.strict = false)
    (root : NilsNeutral expression.operator expression.operands)
    (within : NeutralWithin expression.operands) :
    ∃ set, (Export.mapRewrite scope expression).result = .ok set ∧
      meaning.userSet set = meaning.rewrite expression := by
  refine ⟨expression.userSet, ?_, ?_⟩
  · apply Export.mapRewrite_ok_iff.mpr
    exact ⟨fun strict => absurd strict (Bool.eq_false_iff.mp lenient), rfl⟩
  · calc
      _ = meaning.apply expression.operator
          (meaning.childSets (Operand.userSets expression.operands)) := rfl
      _ = meaning.apply expression.operator (meaning.keptSets expression.operands) := by
        rw [childSets_userSets meaning expression.operands within]
      _ = meaning.rewrite expression := apply_keptSets meaning root

def named : Interpretation String where
  this := Set.univ
  relation name := {name}
  arrow tupleset target := {tupleset ++ "->" ++ target}
  vacuous
    | .intersection => Set.univ
    | _ => ∅
  vacuous_union := rfl
  vacuous_exclusion := rfl

/-- Viewers who are not also viewers of the parent, with two operands that are no expression. -/
def ownViewers : Rewrite :=
  ⟨.exclusion, [.computed "viewer", .nil, .nested .union [.nil, .arrow "parent" "view"]]⟩

theorem mapRewrite_preserves_meaning_ownViewers :
    ∃ set, (Export.mapRewrite ⟨"document", "view", false⟩ ownViewers).result = .ok set ∧
      named.userSet set = named.rewrite ownViewers := by
  have root : NilsNeutral ownViewers.operator ownViewers.operands := by
    simp [ownViewers, NilsNeutral]
  have within : NeutralWithin ownViewers.operands := by
    constructor
    · rw [← Operand.mem_walkAll]
      simp [ownViewers, Operand.walkAll, Operand.walk]
    · intro operator inner occurs
      rw [← Operand.mem_walkAll] at occurs
      simp [ownViewers, Operand.walkAll, Operand.walk] at occurs
      obtain ⟨rfl, rfl⟩ := occurs
      exact trivial
  exact mapRewrite_preserves_meaning named rfl root within

end Interpretation
end PermissionSchema
