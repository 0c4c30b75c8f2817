import PermissionSchema.Document.Json
import PermissionSchema.Proofs.Json.Faithful
/-!
Exported schemas as text and back. Both written texts of a schema are read as the same schema if
their brackets nest at most 127 deep, and are refused for their depth if they nest deeper: what was
left out is put back, and every user set gets its own shape again.
-/
namespace PermissionSchema.Document

open PermissionSchema.Json

namespace UserSet

/-- An induction on lists of user sets that also goes into the operands of operations. -/
@[elab_as_elim]
theorem inductionOn {motive : List UserSet → Prop} (sets : List UserSet) (empty : motive [])
    (operation : ∀ operator children rest, motive children → motive rest →
      motive (.operation operator children :: rest))
    (arrow : ∀ through permission rest, motive rest → motive (.arrow through permission :: rest))
    (relation : ∀ name rest, motive rest → motive (.relation name :: rest)) : motive sets := by
  match sets with
  | [] => exact empty
  | .operation operator children :: rest =>
    exact operation operator children rest (inductionOn children empty operation arrow relation)
      (inductionOn rest empty operation arrow relation)
  | .arrow through permission :: rest =>
    exact arrow through permission rest (inductionOn rest empty operation arrow relation)
  | .relation name :: rest =>
    exact relation name rest (inductionOn rest empty operation arrow relation)

theorem ofJson_operation {operator : Operator} {children : List UserSet}
    (operands : listOfJson (listToJson children) = some children) :
    ofJson (toJson (.operation operator children)) = some (.operation operator children) := by
  have named := Operator.ofName?_name operator
  cases children with
  | nil => simp [toJson, ofJson, membersOfJson, operatorOfJson, named, Members.userSet?]
  | cons child rest =>
    simp [toJson, ofJson, membersOfJson, operatorOfJson, childrenOfJson, named, operands,
      Members.userSet?]

theorem ofJson_arrow (through permission : String) :
    ofJson (toJson (.arrow through permission)) = some (.arrow through permission) := by
  simp [toJson, ofJson, membersOfJson, textOfJson, Members.userSet?]

theorem ofJson_relation (name : String) :
    ofJson (toJson (.relation name)) = some (.relation name) := by
  simp [toJson, ofJson, membersOfJson, textOfJson, Members.userSet?]

theorem listOfJson_listToJson (sets : List UserSet) : listOfJson (listToJson sets) = some sets := by
  induction sets using inductionOn with
  | empty => rfl
  | operation operator children rest ihChildren ihRest =>
    simp [listToJson, listOfJson, ofJson_operation ihChildren, ihRest]
  | arrow through permission rest ih =>
    simp [listToJson, listOfJson, ofJson_arrow, ih]
  | relation name rest ih => simp [listToJson, listOfJson, ofJson_relation, ih]

theorem ofJson_toJson (set : UserSet) : ofJson set.toJson = some set := by
  cases set with
  | operation operator children => exact ofJson_operation (listOfJson_listToJson children)
  | arrow through permission => exact ofJson_arrow through permission
  | relation name => exact ofJson_relation name

theorem exact_listToJson (sets : List UserSet) : ∀ json ∈ listToJson sets, json.Exact := by
  induction sets using inductionOn with
  | empty => simp [listToJson]
  | operation operator children rest ihChildren ihRest =>
    have exact : (toJson (.operation operator children)).Exact := by
      cases children with
      | nil => exact Exact.single (.string operator.name) "operation"
      | cons child more =>
        refine .object ?_
        simp only [List.forall_mem_cons]
        exact ⟨.string _, .array ihChildren, by simp⟩
    exact List.forall_mem_cons.mpr ⟨exact, ihRest⟩
  | arrow through permission rest ih =>
    have exact : (toJson (.arrow through permission)).Exact := by
      refine .object ?_
      simp only [List.forall_mem_cons]
      exact ⟨.string _, .string _, by simp⟩
    exact List.forall_mem_cons.mpr ⟨exact, ih⟩
  | relation name rest ih =>
    exact List.forall_mem_cons.mpr ⟨Exact.single (.string name) "relation", ih⟩

theorem exact_toJson (set : UserSet) : set.toJson.Exact :=
  exact_listToJson [set] set.toJson List.mem_cons_self

theorem toJson_ne_null (set : UserSet) : set.toJson ≠ .null := by
  cases set with
  | operation operator children => cases children <;> nofun
  | arrow through permission => nofun
  | relation name => nofun

theorem faithful : UserSet.codec.Faithful where
  exact := exact_toJson
  takes set depth more := by
    have kept := Reader.takes_any (exact_toJson set) depth more
    apply kept.seqFlat
    rw [ofJson_toJson]
    exact .pure set

end UserSet

theorem SubjectType.faithful : SubjectType.codec.Faithful :=
  .record {
    distinct := by decide
    fields := by
      simp only [List.forall_mem_cons]
      exact ⟨.required .string, .textUnlessEmpty, .textUnlessEmpty, by simp⟩
    restored := by simp }

theorem Relation.faithful : Relation.codec.Faithful :=
  .record {
    distinct := by decide
    fields := by
      simp only [List.forall_mem_cons]
      exact ⟨.required .string, .required (.list SubjectType.faithful), .textUnlessEmpty, by simp⟩
    restored := by simp }

theorem Permission.faithful : Permission.codec.Faithful :=
  .record {
    distinct := by decide
    fields := by
      simp only [List.forall_mem_cons]
      exact ⟨.required .string, .nullable (.optional UserSet.faithful UserSet.toJson_ne_null),
        .textUnlessEmpty, by simp⟩
    restored := by simp }

theorem Definition.faithful : Definition.codec.Faithful :=
  .record {
    distinct := by decide
    fields := by
      simp only [List.forall_mem_cons]
      exact ⟨.required .string, .textUnlessEmpty, .listUnlessEmpty Relation.faithful,
        .listUnlessEmpty Permission.faithful, .textUnlessEmpty, by simp⟩
    restored := by simp }

theorem Caveat.faithful : Caveat.codec.Faithful :=
  .record {
    distinct := by decide
    fields := by
      simp only [List.forall_mem_cons]
      exact ⟨.required .string, .required (.list .string), .textUnlessEmpty, by simp⟩
    restored := by simp }

theorem Schema.faithful : Schema.codec.Faithful :=
  .record {
    distinct := by decide
    fields := by
      simp only [List.forall_mem_cons]
      exact ⟨.required (.list Definition.faithful), .listUnlessEmpty Caveat.faithful, by simp⟩
    restored := by simp }

/-- The compact and the pretty text of an exported schema are both read back as that schema, but for
the depth of their brackets. -/
theorem Schema.readsBack_written (schema : Schema) :
    Schema.codec.ReadsBack (Schema.codec.text schema) schema ∧
      Schema.codec.ReadsBack (Schema.codec.write schema).prettyText schema :=
  ⟨Schema.faithful.readsBack_text schema, Schema.faithful.readsBack_prettyText schema⟩

end PermissionSchema.Document
