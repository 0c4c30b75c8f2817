import PermissionSchema.Proofs.Compiled.Metadata
import PermissionSchema.Proofs.Export.Declaration
/-!
What an exported schema holds. Every definition and every caveat has its counterpart, in order, and
the declarations of a definition are an interleaving of what its relations and its permissions were
mapped from: nothing is lost, doubled or moved.
-/
namespace PermissionSchema.Export

open PermissionSchema.Compiled

/-- Items that go, one by one and in order, to the values of one of two lists. -/
inductive Interleaved {α β γ : Type} (left : α → β → Prop) (right : α → γ → Prop) :
    List α → List β → List γ → Prop where
  | empty : Interleaved left right [] [] []
  | left {item : α} {value : β} {items : List α} {lefts : List β} {rights : List γ}
      (related : left item value) (rest : Interleaved left right items lefts rights) :
      Interleaved left right (item :: items) (value :: lefts) rights
  | right {item : α} {value : γ} {items : List α} {lefts : List β} {rights : List γ}
      (related : right item value) (rest : Interleaved left right items lefts rights) :
      Interleaved left right (item :: items) lefts (value :: rights)

namespace Interleaved

variable {α β γ : Type} {left : α → β → Prop} {right : α → γ → Prop}

theorem filter_left {property : α → Bool} (lefts_have : ∀ item value, left item value → property item)
    (rights_lack : ∀ item value, right item value → ¬property item)
    {items : List α} {lefts : List β} {rights : List γ}
    (interleaved : Interleaved left right items lefts rights) :
    List.Forall₂ left (items.filter property) lefts := by
  induction interleaved with
  | empty => exact .nil
  | left related rest ih =>
    rw [List.filter_cons_of_pos (lefts_have _ _ related)]
    exact .cons related ih
  | right related rest ih =>
    rw [List.filter_cons_of_neg (rights_lack _ _ related)]
    exact ih

theorem symm {items : List α} {lefts : List β} {rights : List γ}
    (interleaved : Interleaved left right items lefts rights) :
    Interleaved right left items rights lefts := by
  induction interleaved with
  | empty => exact .empty
  | left related rest ih => exact .right related ih
  | right related rest ih => exact .left related ih

end Interleaved

structure ExportedRelation (options : Options) (owner : String) (declaration : Declaration)
    (relation : Document.Relation) : Prop where
  stored : declaration.metadata.kind options.relationMetadataUrl = .relation
  mapped : (mapDeclaration options owner declaration).result = .ok (.relation relation)
  name : relation.name = declaration.name
  types : relation.types = declaration.allowed.map mapSubject

structure ExportedPermission (options : Options) (owner : String) (declaration : Declaration)
    (permission : Document.Permission) : Prop where
  computed : declaration.metadata.kind options.relationMetadataUrl = .permission
  mapped : (mapDeclaration options owner declaration).result = .ok (.permission permission)
  name : permission.name = declaration.name
  userSet : permission.userSet = none ↔ declaration.rewrite = none

structure ExportedDefinition (options : Options) (definition : Definition)
    (exported : Document.Definition) : Prop where
  name : (exported.nameSpace, exported.name) = Document.splitName definition.name
  declarations : Interleaved (ExportedRelation options definition.name)
    (ExportedPermission options definition.name) definition.declarations exported.relations
    exported.permissions
  relations : List.Forall₂ (ExportedRelation options definition.name)
    (definition.declarations.filter (·.metadata.kind options.relationMetadataUrl = .relation))
    exported.relations
  permissions : List.Forall₂ (ExportedPermission options definition.name)
    (definition.declarations.filter (·.metadata.kind options.relationMetadataUrl = .permission))
    exported.permissions

structure ExportedCaveat (caveat : Caveat) (exported : Document.Caveat) : Prop where
  name : exported.name = caveat.name
  parameters : exported.parameters = caveat.parameters

theorem exportedRelation_of_mapped {options : Options} {owner : String}
    {declaration : Declaration} {relation : Document.Relation}
    (mapped : (mapDeclaration options owner declaration).result = .ok (.relation relation)) :
    ExportedRelation options owner declaration relation := by
  rcases mapDeclaration_ok_iff.mp mapped with ⟨stored, same⟩ | ⟨_, _, same⟩
  · cases same
    exact ⟨stored, mapped, rfl, rfl⟩
  · cases same

theorem exportedPermission_of_mapped {options : Options} {owner : String}
    {declaration : Declaration} {permission : Document.Permission}
    (mapped : (mapDeclaration options owner declaration).result = .ok (.permission permission)) :
    ExportedPermission options owner declaration permission := by
  rcases mapDeclaration_ok_iff.mp mapped with ⟨_, same⟩ | ⟨computed, _, same⟩
  · cases same
  · cases same
    exact ⟨computed, mapped, rfl, Option.map_eq_none_iff⟩

/-- Splitting mapped declarations by what they are keeps the order among each sort. -/
theorem interleaved_of_mapped {options : Options} {owner : String}
    {declarations : List Declaration} {entries : List Entry}
    (mapped : List.Forall₂
      (fun declaration entry => (mapDeclaration options owner declaration).result = .ok entry)
      declarations entries) :
    Interleaved (ExportedRelation options owner) (ExportedPermission options owner) declarations
      (relationsOf entries) (permissionsOf entries) := by
  induction mapped with
  | nil => exact .empty
  | @cons declaration entry declarations entries first rest ih =>
    cases entry with
    | relation relation => exact .left (exportedRelation_of_mapped first) ih
    | permission permission => exact .right (exportedPermission_of_mapped first) ih

theorem exportedDefinition_of_mapped {options : Options} {definition : Definition}
    {exported : Document.Definition}
    (mapped : (mapDefinition options definition).result = .ok exported) :
    ExportedDefinition options definition exported := by
  obtain ⟨entries, each, same⟩ := (mapDefinition_ok_iff options definition exported).mp mapped
  subst same
  have interleaved := interleaved_of_mapped each
  refine ⟨rfl, interleaved, ?_, ?_⟩
  · apply interleaved.filter_left
    · intro declaration relation exported
      simp [exported.stored]
    · intro declaration permission exported
      simp [exported.computed]
  · apply interleaved.symm.filter_left
    · intro declaration permission exported
      simp [exported.computed]
    · intro declaration relation exported
      simp [exported.stored]

/-- A mapped schema has the counterpart of every definition and of every caveat, in order. -/
theorem mapSchema_corresponds {options : Options} {schema : Schema} {document : Document.Schema}
    (mapped : (mapSchema options schema).result = .ok document) :
    List.Forall₂ (ExportedDefinition options) schema.definitions document.definitions ∧
      List.Forall₂ ExportedCaveat schema.caveats document.caveats := by
  obtain ⟨definitions, caveats⟩ := (mapSchema_ok_iff options schema document).mp mapped
  constructor
  · exact definitions.imp fun _ _ => exportedDefinition_of_mapped
  · rw [caveats, List.forall₂_map_right_iff, List.forall₂_same]
    intro caveat _
    exact ⟨rfl, rfl⟩

def folderSchema : Schema where
  definitions := [
    { name := "acme/folder"
      declarations := [
        .relation "parent" [.direct "acme/folder"],
        .permission "view" ⟨.union, [.computed "owner", .nil, .arrow "parent" "view"]⟩,
        .relation "owner" [.wildcard "user", (AllowedSubject.direct "user").withCaveat "weekday"]] }]
  caveats := [{ name := "weekday", parameters := ["int", "string"] }]

def folderDocument : Document.Schema where
  definitions := [
    { name := "folder"
      nameSpace := "acme"
      relations := [⟨"parent", [⟨"acme/folder", "", ""⟩], ""⟩,
        ⟨"owner", [⟨"user", "*", ""⟩, ⟨"user", "", "weekday"⟩], ""⟩]
      permissions := [
        ⟨"view", some (.operation .union [.relation "owner", .arrow "parent" "view"]), ""⟩]
      comment := "" }]
  caveats := [⟨"weekday", ["int", "string"], ""⟩]

theorem mapSchema_corresponds_folder :
    (mapSchema {} folderSchema).result = .ok folderDocument ∧
      List.Forall₂ (ExportedDefinition {}) folderSchema.definitions folderDocument.definitions ∧
        List.Forall₂ ExportedCaveat folderSchema.caveats folderDocument.caveats := by
  have mapped : (mapSchema {} folderSchema).result = .ok folderDocument := by
    simp only [folderSchema, Declaration.relation, Declaration.permission,
      MetadataEntry.relationKind_eq]
    rfl
  exact ⟨mapped, mapSchema_corresponds mapped⟩

end PermissionSchema.Export
