import PermissionSchema.Compiled.Rewrite
import Mathlib.Data.List.Basic
/-!
Walking through the operands of a rewrite, those of nested operations included. The walk meets every
operand that occurs at some depth, each before what is nested in it and from left to right, and so
fixes which placeholder comes first.
-/
namespace PermissionSchema.Compiled

def OperandKind.isPlaceholder : OperandKind → Bool
  | .this | .nil => true
  | .computed | .arrow | .nested => false

namespace Operand

/-- An induction on lists of operands that also goes into nested operations. -/
@[elab_as_elim]
theorem inductionOn {motive : List Operand → Prop} (operands : List Operand) (empty : motive [])
    (this : ∀ rest, motive rest → motive (.this :: rest))
    (computed : ∀ relation rest, motive rest → motive (.computed relation :: rest))
    (arrow : ∀ tupleset target rest, motive rest → motive (.arrow tupleset target :: rest))
    (nested : ∀ operator inner rest, motive inner → motive rest →
      motive (.nested operator inner :: rest))
    (nil : ∀ rest, motive rest → motive (.nil :: rest)) : motive operands := by
  match operands with
  | [] => exact empty
  | .this :: rest =>
    exact this rest (inductionOn rest empty this computed arrow nested nil)
  | .computed relation :: rest =>
    exact computed relation rest (inductionOn rest empty this computed arrow nested nil)
  | .arrow tupleset target :: rest =>
    exact arrow tupleset target rest (inductionOn rest empty this computed arrow nested nil)
  | .nested operator inner :: rest =>
    exact nested operator inner rest (inductionOn inner empty this computed arrow nested nil)
      (inductionOn rest empty this computed arrow nested nil)
  | .nil :: rest =>
    exact nil rest (inductionOn rest empty this computed arrow nested nil)

inductive Occurs (operand : Operand) : List Operand → Prop where
  | here {operands : List Operand} (member : operand ∈ operands) : Occurs operand operands
  | inside {operands inner : List Operand} {operator : Operator}
      (member : .nested operator inner ∈ operands) (occurs : Occurs operand inner) :
      Occurs operand operands

mutual

def walk : Operand → List Operand
  | .nested operator operands => .nested operator operands :: walkAll operands
  | .this => [.this]
  | .computed relation => [.computed relation]
  | .arrow tupleset target => [.arrow tupleset target]
  | .nil => [.nil]

/-- Operands and all that is nested in them, depth first and from left to right. -/
def walkAll : List Operand → List Operand
  | [] => []
  | operand :: rest => walk operand ++ walkAll rest

end

theorem not_occurs_empty (operand : Operand) : ¬Occurs operand [] := by
  intro occurs
  cases occurs with
  | here member => cases member
  | inside member _ => cases member

theorem occurs_cons {operand first : Operand} {rest : List Operand} :
    Occurs operand (first :: rest) ↔
      operand = first ∨ (∃ operator inner, first = .nested operator inner ∧ Occurs operand inner) ∨
        Occurs operand rest := by
  constructor
  · intro occurs
    cases occurs with
    | here member =>
      rcases List.mem_cons.mp member with same | later
      · exact Or.inl same
      · exact Or.inr (Or.inr (.here later))
    | inside member occurs =>
      rcases List.mem_cons.mp member with same | later
      · exact Or.inr (Or.inl ⟨_, _, same.symm, occurs⟩)
      · exact Or.inr (Or.inr (.inside later occurs))
  · intro place
    rcases place with same | ⟨operator, inner, same, occurs⟩ | occurs
    · rw [same]
      exact .here List.mem_cons_self
    · rw [same]
      exact .inside List.mem_cons_self occurs
    · cases occurs with
      | here member => exact .here (List.mem_cons_of_mem _ member)
      | inside member occurs => exact .inside (List.mem_cons_of_mem _ member) occurs

theorem mem_walkAll {operand : Operand} (operands : List Operand) :
    operand ∈ walkAll operands ↔ Occurs operand operands := by
  induction operands using inductionOn with
  | empty => simp [walkAll, not_occurs_empty]
  | nested operator inner rest ihInner ihRest =>
    simp [walkAll, walk, occurs_cons, ihInner, ihRest]
  | this rest ih | nil rest ih => simp [walkAll, walk, occurs_cons, ih]
  | computed relation rest ih => simp [walkAll, walk, occurs_cons, ih]
  | arrow tupleset target rest ih => simp [walkAll, walk, occurs_cons, ih]

def placeholders (operands : List Operand) : List OperandKind :=
  ((walkAll operands).map kind).filter OperandKind.isPlaceholder

@[simp] theorem placeholders_empty : placeholders [] = [] := rfl

@[simp] theorem placeholders_this (rest : List Operand) :
    placeholders (.this :: rest) = .this :: placeholders rest := rfl

@[simp] theorem placeholders_computed (relation : String) (rest : List Operand) :
    placeholders (.computed relation :: rest) = placeholders rest := rfl

@[simp] theorem placeholders_arrow (tupleset target : String) (rest : List Operand) :
    placeholders (.arrow tupleset target :: rest) = placeholders rest := rfl

@[simp] theorem placeholders_nested (operator : Operator) (inner rest : List Operand) :
    placeholders (.nested operator inner :: rest) = placeholders inner ++ placeholders rest := by
  simp [placeholders, walkAll, walk, kind, OperandKind.isPlaceholder]

@[simp] theorem placeholders_nil (rest : List Operand) :
    placeholders (.nil :: rest) = .nil :: placeholders rest := rfl

theorem placeholders_eq_nil_iff (operands : List Operand) :
    placeholders operands = [] ↔ ¬Occurs .this operands ∧ ¬Occurs .nil operands := by
  simp only [placeholders, List.filter_eq_nil_iff, List.mem_map, ← mem_walkAll]
  constructor
  · intro free
    exact ⟨fun member => free .this ⟨.this, member, rfl⟩ rfl,
      fun member => free .nil ⟨.nil, member, rfl⟩ rfl⟩
  · intro free found ⟨operand, member, same⟩
    subst same
    cases operand with
    | this => exact absurd member free.1
    | nil => exact absurd member free.2
    | computed _ | arrow _ _ | nested _ _ => exact Bool.false_ne_true

end Operand
end PermissionSchema.Compiled
