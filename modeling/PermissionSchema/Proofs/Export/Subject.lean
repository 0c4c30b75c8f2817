import PermissionSchema.Export.Mapping
import PermissionSchema.Proofs.Document.RoundTrip
/-!
Which allowed subjects an exported text tells apart. All subjects of a type are exported as a relation
named with a star, and the subjects themselves as one without a name, so that each of the two can
have been said in two ways; nothing else is confused but a missing caveat with an empty one.
-/
namespace PermissionSchema.Compiled.SubjectRelation

def exportedName : SubjectRelation → String
  | .wildcard => Document.wildcard
  | .relation name => if name = ellipsis then "" else name

def everyone : List SubjectRelation := [.wildcard, .relation Document.wildcard]

def themselves : List SubjectRelation := [.relation ellipsis, .relation ""]

theorem exportedName_eq_wildcard_iff (relation : SubjectRelation) :
    relation.exportedName = Document.wildcard ↔ relation ∈ everyone := by
  cases relation with
  | wildcard => simp [exportedName, everyone]
  | relation name =>
    by_cases themselves : name = ellipsis
    · subst themselves
      decide
    · simp [exportedName, everyone, themselves]

theorem exportedName_eq_empty_iff (relation : SubjectRelation) :
    relation.exportedName = "" ↔ relation ∈ themselves := by
  cases relation with
  | wildcard => decide
  | relation name =>
    by_cases same : name = ellipsis
    · simp [exportedName, themselves, same]
    · simp [exportedName, themselves, same]

theorem eq_relation_exportedName {relation : SubjectRelation} (some : relation ∉ everyone)
    (other : relation ∉ themselves) : relation = .relation relation.exportedName := by
  cases relation with
  | wildcard => exact absurd List.mem_cons_self some
  | relation name =>
    have plain : name ≠ ellipsis := by
      intro same
      exact other (same ▸ List.mem_cons_self)
    rw [exportedName, if_neg plain]

def Alike (first second : SubjectRelation) : Prop :=
  first = second ∨ (first ∈ everyone ∧ second ∈ everyone) ∨
    (first ∈ themselves ∧ second ∈ themselves)

theorem exportedName_eq_iff (first second : SubjectRelation) :
    first.exportedName = second.exportedName ↔ first.Alike second := by
  constructor
  · intro same
    by_cases all : first ∈ everyone
    · have star := (exportedName_eq_wildcard_iff first).mpr all
      exact Or.inr (Or.inl ⟨all, (exportedName_eq_wildcard_iff second).mp (same ▸ star)⟩)
    by_cases self : first ∈ themselves
    · have empty := (exportedName_eq_empty_iff first).mpr self
      exact Or.inr (Or.inr ⟨self, (exportedName_eq_empty_iff second).mp (same ▸ empty)⟩)
    left
    have notAll : second ∉ everyone := by
      rwa [← exportedName_eq_wildcard_iff, ← same, exportedName_eq_wildcard_iff]
    have notSelf : second ∉ themselves := by
      rwa [← exportedName_eq_empty_iff, ← same, exportedName_eq_empty_iff]
    calc
      first = .relation first.exportedName := eq_relation_exportedName all self
      _ = .relation second.exportedName := congrArg _ same
      _ = second := (eq_relation_exportedName notAll notSelf).symm
  · intro alike
    rcases alike with same | ⟨one, other⟩ | ⟨one, other⟩
    · rw [same]
    · rw [(exportedName_eq_wildcard_iff first).mpr one,
        (exportedName_eq_wildcard_iff second).mpr other]
    · rw [(exportedName_eq_empty_iff first).mpr one, (exportedName_eq_empty_iff second).mpr other]

end PermissionSchema.Compiled.SubjectRelation

namespace PermissionSchema.Export

open PermissionSchema.Compiled
open PermissionSchema.Compiled.SubjectRelation (everyone themselves)

theorem mapSubject_eq (subject : AllowedSubject) :
    mapSubject subject =
      ⟨subject.subjectType, subject.relation.exportedName, subject.caveat.getD ""⟩ := by
  unfold mapSubject SubjectRelation.exportedName
  cases subject.relation <;> rfl

/-- Allowed subjects have one text exactly if they have one type, one caveat, where a missing caveat
is an empty one, and one relation, where each of the two special relations may be said in either
way. Which special relation it was can be told of what it is mapped to. -/
theorem mapSubject_text_eq_iff :
    (∀ first second : AllowedSubject,
      Document.SubjectType.codec.text (mapSubject first) =
          Document.SubjectType.codec.text (mapSubject second) ↔
        first.subjectType = second.subjectType ∧
          first.caveat.getD "" = second.caveat.getD "" ∧ first.relation.Alike second.relation) ∧
    ∀ subject : AllowedSubject,
      ((mapSubject subject).isWildcard = true ↔ subject.relation ∈ everyone) ∧
        ((mapSubject subject).isSelf = true ↔ subject.relation ∈ themselves) := by
  constructor
  · intro first second
    rw [Document.SubjectType.faithful.text_inj, mapSubject_eq, mapSubject_eq,
      Document.SubjectType.mk.injEq, SubjectRelation.exportedName_eq_iff]
    exact and_congr_right fun _ => and_comm
  · intro subject
    rw [mapSubject_eq, Document.SubjectType.isWildcard, Document.SubjectType.isSelf,
      decide_eq_true_iff, decide_eq_true_iff]
    exact ⟨SubjectRelation.exportedName_eq_wildcard_iff _,
      SubjectRelation.exportedName_eq_empty_iff _⟩

end PermissionSchema.Export
