import PermissionSchema.Proofs.Compiled.Pruning
import PermissionSchema.Proofs.Export.Declaration
/-!
What strictness changes. A lenient export of a schema comes to the same as a strict one of the
pruned schema, document or failure, and where the strict export of a schema succeeds, the lenient
one gives the same document.
-/
namespace PermissionSchema.Compiled

theorem Operand.userSets_prune (operands : List Operand) :
    userSets (prune operands) = userSets operands := by
  induction operands using inductionOn with
  | empty => rfl
  | this rest ih | nil rest ih => exact ih
  | computed relation rest ih => simp [ih]
  | arrow tupleset target rest ih => simp [ih]
  | nested operator inner rest ihInner ihRest => simp [ihInner, ihRest]

theorem Rewrite.userSet_prune (rewrite : Rewrite) : rewrite.prune.userSet = rewrite.userSet := by
  rw [userSet, prune, Operand.userSets_prune, userSet]

end PermissionSchema.Compiled

namespace PermissionSchema.Export

open PermissionSchema.Compiled

def Options.withStrict (options : Options) (strict : Bool) : Options :=
  { options with strict }

variable {options : Options}

theorem permissionOf_prune (declaration : Declaration) :
    permissionOf (options.withStrict true) declaration.prune =
      permissionOf (options.withStrict false) declaration := by
  have userSet : (declaration.rewrite.map Rewrite.prune).map Rewrite.userSet =
      declaration.rewrite.map Rewrite.userSet := by
    rw [Option.map_map]
    exact congrArg (Option.map · _) (funext Rewrite.userSet_prune)
  exact congrArg (Document.Permission.mk declaration.name · _) userSet

/-- A pruned declaration leaves a strict export nothing to refuse but its kind. -/
theorem mapDeclaration_prune (owner : String) (declaration : Declaration) :
    (mapDeclaration (options.withStrict true) owner declaration.prune).result =
      (mapDeclaration (options.withStrict false) owner declaration).result := by
  cases kind : declaration.metadata.kind options.relationMetadataUrl with
  | unknown =>
    have lenient : (mapDeclaration (options.withStrict false) owner declaration).result =
        .error (.unclassified owner declaration.name) := by
      rw [mapDeclaration_error_iff]
      exact .unclassified kind
    rw [lenient, mapDeclaration_error_iff]
    exact .unclassified kind
  | relation =>
    have lenient : (mapDeclaration (options.withStrict false) owner declaration).result =
        .ok (.relation (mapRelation options declaration)) := by
      rw [mapDeclaration_ok_iff]
      exact .inl ⟨kind, rfl⟩
    rw [lenient, mapDeclaration_ok_iff]
    exact .inl ⟨kind, rfl⟩
  | permission =>
    have lenient : (mapDeclaration (options.withStrict false) owner declaration).result =
        .ok (.permission (permissionOf (options.withStrict false) declaration)) := by
      rw [mapDeclaration_ok_iff]
      exact .inr ⟨kind, nofun, rfl⟩
    rw [lenient, mapDeclaration_ok_iff, permissionOf_prune]
    refine .inr ⟨kind, fun rewrite present _ => ?_, rfl⟩
    obtain ⟨original, _, rfl⟩ := Option.map_eq_some_iff.mp present
    exact Operand.placeholders_prune original.operands

theorem mapDefinition_prune (definition : Definition) :
    (mapDefinition (options.withStrict true) definition.prune).result =
      (mapDefinition (options.withStrict false) definition).result := by
  have entries : (Traced.each (mapDeclaration (options.withStrict true) definition.name)
      (definition.declarations.map Declaration.prune)).result =
      (Traced.each (mapDeclaration (options.withStrict false) definition.name)
        definition.declarations).result := by
    refine Traced.each_result_congr (List.forall₂_map_left_iff.mpr (List.forall₂_same.mpr ?_))
    exact fun declaration _ => mapDeclaration_prune definition.name declaration
  calc (mapDefinition (options.withStrict true) definition.prune).result
    _ = definitionOf (options.withStrict true) definition.prune <$>
        (Traced.each (mapDeclaration (options.withStrict true) definition.name)
          (definition.declarations.map Declaration.prune)).result := mapDefinition_result _ _
    _ = definitionOf (options.withStrict false) definition <$>
        (Traced.each (mapDeclaration (options.withStrict false) definition.name)
          definition.declarations).result := congrArg _ entries
    _ = (mapDefinition (options.withStrict false) definition).result :=
        (mapDefinition_result _ _).symm

theorem mapSchema_prune (schema : Schema) :
    (mapSchema (options.withStrict true) schema.prune).result =
      (mapSchema (options.withStrict false) schema).result := by
  have definitions : (Traced.each (mapDefinition (options.withStrict true))
      (schema.definitions.map Definition.prune)).result =
      (Traced.each (mapDefinition (options.withStrict false)) schema.definitions).result := by
    refine Traced.each_result_congr (List.forall₂_map_left_iff.mpr (List.forall₂_same.mpr ?_))
    exact fun definition _ => mapDefinition_prune definition
  calc (mapSchema (options.withStrict true) schema.prune).result
    _ = documentOf (options.withStrict true) schema.prune <$>
        (Traced.each (mapDefinition (options.withStrict true))
          (schema.definitions.map Definition.prune)).result := mapSchema_result _ _
    _ = documentOf (options.withStrict false) schema <$>
        (Traced.each (mapDefinition (options.withStrict false)) schema.definitions).result :=
        congrArg _ definitions
    _ = (mapSchema (options.withStrict false) schema).result := (mapSchema_result _ _).symm

theorem mapDeclaration_ok_lenient {owner : String} {declaration : Declaration} {entry : Entry}
    (mapped : (mapDeclaration (options.withStrict true) owner declaration).result =
      .ok entry) :
    (mapDeclaration (options.withStrict false) owner declaration).result = .ok entry := by
  apply mapDeclaration_ok_iff.mpr
  rcases mapDeclaration_ok_iff.mp mapped with stored | ⟨computed, _, same⟩
  · exact .inl stored
  · exact .inr ⟨computed, nofun, same⟩

theorem mapDefinition_ok_lenient {definition : Definition} {exported : Document.Definition}
    (mapped : (mapDefinition (options.withStrict true) definition).result = .ok exported) :
    (mapDefinition (options.withStrict false) definition).result = .ok exported := by
  obtain ⟨entries, each, same⟩ := (mapDefinition_ok_iff _ definition exported).mp mapped
  exact (mapDefinition_ok_iff _ definition exported).mpr
    ⟨entries, each.imp fun _ _ => mapDeclaration_ok_lenient, same⟩

/-- A lenient export is the strict export of the pruned schema, whether it succeeds or fails, and a
strict export that succeeds gives the lenient document. -/
theorem lenient_eq_strict_prune (options : Options) (schema : Schema) :
    (mapSchema (options.withStrict false) schema).result =
        (mapSchema (options.withStrict true) schema.prune).result ∧
      ∀ document, (mapSchema (options.withStrict true) schema).result = .ok document →
        (mapSchema (options.withStrict false) schema).result = .ok document := by
  refine ⟨(mapSchema_prune schema).symm, fun document mapped => ?_⟩
  obtain ⟨definitions, caveats⟩ := (mapSchema_ok_iff _ schema document).mp mapped
  exact (mapSchema_ok_iff _ schema document).mpr
    ⟨definitions.imp fun _ _ => mapDefinition_ok_lenient, caveats⟩

end PermissionSchema.Export
