import PermissionSchema.Proofs.Compiled.Metadata
import PermissionSchema.Proofs.Export.Declaration
/-!
Schemas as the builders make them. A plan says what is built and which comments are added to each node
of it. Whatever is built can be exported, and every declaration is exported as what it was built as.
-/
namespace PermissionSchema.Compiled

inductive Declared where
  | relation (name : String) (allowed : List AllowedSubject)
  | permission (name : String) (rewrite : Rewrite)

namespace Declared

def build : Declared → Declaration
  | relation name allowed => .relation name allowed
  | permission name rewrite => .permission name rewrite

def relation? : Declared → Option (String × List AllowedSubject)
  | relation name allowed => some (name, allowed)
  | permission _ _ => none

def permission? : Declared → Option (String × Rewrite)
  | relation _ _ => none
  | permission name rewrite => some (name, rewrite)

def kind : Declared → RelationKind
  | relation _ _ => .relation
  | permission _ _ => .permission

theorem kind_build (declared : Declared) :
    declared.build.metadata.kind relationMetadataUrl = declared.kind := by
  cases declared with
  | relation name allowed =>
    unfold build Declaration.relation
    rw [MetadataEntry.relationKind_eq]
    rfl
  | permission name rewrite =>
    unfold build Declaration.permission
    rw [MetadataEntry.relationKind_eq]
    rfl

end Declared

structure DeclarationPlan where
  declared : Declared
  comments : List String

def DeclarationPlan.build (plan : DeclarationPlan) : Declaration :=
  plan.comments.foldl Declaration.withComment plan.declared.build

structure DefinitionPlan where
  name : String
  declarations : List DeclarationPlan
  comments : List String

def DefinitionPlan.build (plan : DefinitionPlan) : Definition :=
  plan.comments.foldl Definition.withComment
    { name := plan.name, declarations := plan.declarations.map DeclarationPlan.build }

structure CaveatPlan where
  name : String
  parameters : List String
  comments : List String

def CaveatPlan.build (plan : CaveatPlan) : Caveat :=
  plan.comments.foldl Caveat.withComment { name := plan.name, parameters := plan.parameters }

structure SchemaPlan where
  definitions : List DefinitionPlan
  caveats : List CaveatPlan

def SchemaPlan.build (plan : SchemaPlan) : Schema where
  definitions := plan.definitions.map DefinitionPlan.build
  caveats := plan.caveats.map CaveatPlan.build

/-- Comments change nothing of a declaration but add to its metadata. -/
theorem DeclarationPlan.build_eq (plan : DeclarationPlan) :
    plan.build = { plan.declared.build with
      metadata := plan.declared.build.metadata ++ plan.comments.map MetadataEntry.docComment } :=
  Declaration.foldl_withComment _ _

theorem DeclarationPlan.kind_build (plan : DeclarationPlan) :
    plan.build.metadata.kind relationMetadataUrl = plan.declared.kind := by
  rw [plan.build_eq, Metadata.kind_append_docComments, Declared.kind_build]

end PermissionSchema.Compiled

namespace PermissionSchema.Export

open PermissionSchema.Compiled

def entryOf (plan : DeclarationPlan) : Entry :=
  let comment := docComment plan.build.metadata docCommentUrl
  match plan.declared with
  | .relation name allowed => .relation ⟨name, allowed.map mapSubject, comment⟩
  | .permission name rewrite => .permission ⟨name, some rewrite.userSet, comment⟩

/-- Neither comments nor placeholders keep a built declaration from being mapped as what it is. -/
theorem mapDeclaration_build (owner : String) (plan : DeclarationPlan) :
    (mapDeclaration {} owner plan.build).result = .ok (entryOf plan) := by
  have kind := plan.kind_build
  obtain ⟨declared, comments⟩ := plan
  rw [mapDeclaration_ok_iff]
  cases declared with
  | relation name allowed =>
    left
    refine ⟨kind, ?_⟩
    simp only [entryOf, mapRelation, DeclarationPlan.build_eq]
    rfl
  | permission name rewrite =>
    right
    have lenient : ({} : Options).strict ≠ true := nofun
    refine ⟨kind, fun _ _ strict => absurd strict lenient, ?_⟩
    simp only [entryOf, permissionOf, DeclarationPlan.build_eq]
    rfl

def exportedOf (plan : DefinitionPlan) : Document.Definition :=
  definitionOf {} plan.build (plan.declarations.map entryOf)

theorem mapDefinition_build (plan : DefinitionPlan) :
    (mapDefinition {} plan.build).result = .ok (exportedOf plan) := by
  have declarations : plan.build.declarations = plan.declarations.map DeclarationPlan.build := by
    rw [DefinitionPlan.build, Definition.foldl_withComment]
  rw [mapDefinition_ok_iff]
  refine ⟨plan.declarations.map entryOf, ?_, rfl⟩
  rw [declarations, List.forall₂_map_left_iff, List.forall₂_map_right_iff, List.forall₂_same]
  intro declaration _
  exact mapDeclaration_build plan.build.name declaration

theorem relationsOf_map_entryOf (plans : List DeclarationPlan) :
    (relationsOf (plans.map entryOf)).map (fun relation => (relation.name, relation.types)) =
      (plans.filterMap (·.declared.relation?)).map
        fun (name, allowed) => (name, allowed.map mapSubject) := by
  induction plans with
  | nil => rfl
  | cons plan rest ih =>
    obtain ⟨declared, comments⟩ := plan
    cases declared with
    | relation name allowed => exact congrArg (_ :: ·) ih
    | permission name rewrite => exact ih

theorem permissionsOf_map_entryOf (plans : List DeclarationPlan) :
    (permissionsOf (plans.map entryOf)).map
        (fun permission => (permission.name, permission.userSet)) =
      (plans.filterMap (·.declared.permission?)).map
        fun (name, rewrite) => (name, some rewrite.userSet) := by
  induction plans with
  | nil => rfl
  | cons plan rest ih =>
    obtain ⟨declared, comments⟩ := plan
    cases declared with
    | relation name allowed => exact ih
    | permission name rewrite => exact congrArg (_ :: ·) ih

structure ExportedAsBuilt (plan : DefinitionPlan) (exported : Document.Definition) : Prop where
  name : (exported.nameSpace, exported.name) = Document.splitName plan.name
  relations : exported.relations.map (fun relation => (relation.name, relation.types)) =
    (plan.declarations.filterMap (·.declared.relation?)).map
      fun (name, allowed) => (name, allowed.map mapSubject)
  permissions : exported.permissions.map (fun permission => (permission.name, permission.userSet)) =
    (plan.declarations.filterMap (·.declared.permission?)).map
      fun (name, rewrite) => (name, some rewrite.userSet)
  expressions : ∀ permission ∈ exported.permissions, permission.userSet ≠ none

theorem exportedOf_asBuilt (plan : DefinitionPlan) : ExportedAsBuilt plan (exportedOf plan) := by
  have permissions := permissionsOf_map_entryOf plan.declarations
  refine ⟨?_, relationsOf_map_entryOf plan.declarations, permissions, ?_⟩
  · have named : plan.build.name = plan.name := by
      rw [DefinitionPlan.build, Definition.foldl_withComment]
    rw [← named]
    rfl
  · intro permission member absent
    have told : (permission.name, permission.userSet) ∈
        (permissionsOf (plan.declarations.map entryOf)).map
          fun permission => (permission.name, permission.userSet) := List.mem_map_of_mem member
    rw [permissions, absent] at told
    simp at told

/-- Whatever is built can be exported under the usual options, and then all that it was built of is
exported as what it was built as. -/
theorem mapSchema_build (plan : SchemaPlan) :
    ∃ document, (mapSchema {} plan.build).result = .ok document ∧
      List.Forall₂ ExportedAsBuilt plan.definitions document.definitions ∧
      document.caveats.map (fun caveat => (caveat.name, caveat.parameters)) =
        plan.caveats.map fun caveat => (caveat.name, caveat.parameters) := by
  refine ⟨⟨plan.definitions.map exportedOf, plan.build.caveats.map (mapCaveat {})⟩, ?_, ?_, ?_⟩
  · rw [mapSchema_ok_iff, SchemaPlan.build]
    refine ⟨?_, rfl⟩
    rw [List.forall₂_map_left_iff, List.forall₂_map_right_iff, List.forall₂_same]
    intro definition _
    exact mapDefinition_build definition
  · rw [List.forall₂_map_right_iff, List.forall₂_same]
    intro definition _
    exact exportedOf_asBuilt definition
  · simp [SchemaPlan.build, CaveatPlan.build, Caveat.foldl_withComment, mapCaveat]

end PermissionSchema.Export
