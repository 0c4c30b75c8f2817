import PermissionSchema.Proofs.Compiled.Depth
import PermissionSchema.Proofs.Compiled.Metadata
import PermissionSchema.Proofs.Document.Depth
import PermissionSchema.Proofs.Export.Declaration
import PermissionSchema.Export.Emit
import Mathlib.Order.MinMax
/-!
Exported texts can be read. An expression nests no deeper once it is mapped, so that whatever was
read of a compiled schema leaves an exported one that is read in turn.
-/
namespace PermissionSchema.Export

open PermissionSchema.Compiled
open PermissionSchema.Document (UserSet)
open PermissionSchema.Json

theorem depth_userSets_le (operands : List Operand) :
    itemsDepth (UserSet.listToJson (Operand.userSets operands)) ≤
      itemsDepth (operandsToJson operands) := by
  induction operands using Operand.inductionOn with
  | empty => exact Nat.le_refl 0
  | this rest ih | nil rest ih => exact Nat.le_trans ih (Nat.le_max_right ..)
  | computed relation rest ih => exact max_le_max (by decide : 1 ≤ 2) ih
  | arrow tupleset target rest ih => exact max_le_max (by decide : 1 ≤ 2) ih
  | nested operator inner rest ihInner ihRest =>
    have first : (UserSet.operation operator (Operand.userSets inner)).toJson.depth ≤
        (Operand.nested operator inner).toJson.depth := by
      have operation := UserSet.depth_operation operator (Operand.userSets inner)
      have whole : (Operand.nested operator inner).toJson.depth =
          itemsDepth (operandsToJson inner) + 3 := by
        rw [Operand.toJson, depth_single, depth_single, Json.depth]
      omega
    rw [Operand.userSets_nested]
    exact max_le_max first ihRest

theorem depth_userSet_le (rewrite : Rewrite) :
    rewrite.userSet.toJson.depth ≤ rewrite.toJson.depth := by
  have inside := depth_userSets_le rewrite.operands
  have operation := UserSet.depth_operation rewrite.operator (Operand.userSets rewrite.operands)
  have whole : rewrite.toJson.depth = itemsDepth (operandsToJson rewrite.operands) + 2 :=
    depth_single rewrite.operator.name _
  rw [Rewrite.userSet]
  omega

variable {options : Options} {bound : Nat}

theorem shallow_permissionOf {declaration : Declaration} (shallow : declaration.Shallow bound) :
    (permissionOf options declaration).Shallow bound := by
  intro set member
  obtain ⟨rewrite, present, rfl⟩ := Option.map_eq_some_iff.mp member
  exact Nat.le_trans (depth_userSet_le rewrite) (shallow rewrite present)

theorem forall_of_forall₂ {α β : Type} {related : α → β → Prop} {left : α → Prop} {right : β → Prop}
    {items : List α} {values : List β} (each : List.Forall₂ related items values)
    (holds : ∀ item ∈ items, left item)
    (carried : ∀ item value, related item value → left item → right value) :
    ∀ value ∈ values, right value := by
  induction each with
  | nil => exact nofun
  | cons first _ ih =>
    obtain ⟨here, later⟩ := List.forall_mem_cons.mp holds
    exact List.forall_mem_cons.mpr ⟨carried _ _ first here, ih later⟩

theorem shallow_mapDefinition {definition : Definition} {exported : Document.Definition}
    (mapped : (mapDefinition options definition).result = .ok exported)
    (shallow : definition.Shallow bound) : exported.Shallow bound := by
  obtain ⟨entries, each, same⟩ := (mapDefinition_ok_iff options definition exported).mp mapped
  have permissions : ∀ entry ∈ entries, ∀ permission, entry = .permission permission →
      permission.Shallow bound := by
    refine forall_of_forall₂ each shallow
      fun declaration entry mapped shallow permission computed => ?_
    rcases mapDeclaration_ok_iff.mp mapped with ⟨_, found⟩ | ⟨_, _, found⟩
    · cases found.symm.trans computed
    · cases found.symm.trans computed
      exact shallow_permissionOf shallow
  subst same
  intro permission member
  obtain ⟨entry, among, kept⟩ := List.mem_filterMap.mp member
  cases entry with
  | relation relation => cases kept
  | permission other =>
    cases kept
    exact permissions _ among permission rfl

theorem shallow_mapSchema {schema : Schema} {document : Document.Schema}
    (mapped : (mapSchema options schema).result = .ok document) (shallow : schema.Shallow bound) :
    document.Shallow bound :=
  forall_of_forall₂ ((mapSchema_ok_iff options schema document).mp mapped).1 shallow
    fun _ _ => shallow_mapDefinition

/-- Whatever was read of a compiled schema and can be mapped has a compact and a pretty text that
are both read as the exported schema. -/
theorem exported_texts_read {text : String} {schema : Schema} {options : Options}
    {document : Document.Schema} (read : Schema.ofText text = .ok schema)
    (mapped : (mapSchema options schema).result = .ok document) :
    (∃ compact, (compactText options schema).result = .ok compact ∧
      Document.Schema.codec.ofText compact = .ok document) ∧
    (∃ pretty, (prettyText options schema).result = .ok pretty ∧
      Document.Schema.codec.ofText pretty = .ok document) := by
  have expressions := shallow_mapSchema mapped (Schema.shallow_of_ofText read)
  have shallow := Document.Schema.depth_le expressions
  have faithful := Document.Schema.faithful
  constructor
  · refine ⟨Document.Schema.codec.text document, ?_, ?_⟩
    · exact Traced.bind_ok_iff.mpr ⟨document, mapped, rfl⟩
    · refine (faithful.readsBack_text document).ok ?_
      rwa [nesting_of_spells (faithful.spells_text document)]
  · refine ⟨(Document.Schema.codec.write document).prettyText, ?_, ?_⟩
    · exact Traced.bind_ok_iff.mpr ⟨document, mapped, rfl⟩
    · refine (faithful.readsBack_prettyText document).ok ?_
      rwa [nesting_of_spells (faithful.spells_prettyText document)]

def nestedRewrite : Nat → Rewrite
  | 0 => ⟨.union, [.this]⟩
  | height + 1 => ⟨.exclusion, [.ofRewrite (nestedRewrite height), .nil]⟩

def deepestSchema : Schema where
  definitions := [
    { name := "acme/folder"
      declarations := [.permission "view" (nestedRewrite 40)] }]

def deepestDocument : Document.Schema where
  definitions := [
    { name := "folder"
      nameSpace := "acme"
      relations := []
      permissions := [⟨"view", some (nestedRewrite 40).userSet, ""⟩]
      comment := "" }]
  caveats := []

theorem mapSchema_deepest : (mapSchema {} deepestSchema).result = .ok deepestDocument := by
  have mapped : (mapDeclaration {} "acme/folder" (.permission "view" (nestedRewrite 40))).result =
      .ok (.permission ⟨"view", some (nestedRewrite 40).userSet, ""⟩) := by
    simp only [Declaration.permission, MetadataEntry.relationKind_eq]
    exact mapDeclaration_ok_iff.mpr (.inr ⟨rfl, nofun, rfl⟩)
  refine (mapSchema_ok_iff {} deepestSchema deepestDocument).mpr ⟨.cons ?_ .nil, rfl⟩
  exact (mapDefinition_ok_iff {} _ _).mpr ⟨_, .cons mapped .nil, rfl⟩

theorem exported_texts_read_deepest :
    nesting (Schema.codec.text deepestSchema) = 127 ∧
      Schema.ofText (Schema.codec.text deepestSchema) = .ok deepestSchema ∧
      (mapSchema {} deepestSchema).result = .ok deepestDocument ∧
      (∃ compact, (compactText {} deepestSchema).result = .ok compact ∧
        Document.Schema.codec.ofText compact = .ok deepestDocument) ∧
      (∃ pretty, (prettyText {} deepestSchema).result = .ok pretty ∧
        Document.Schema.codec.ofText pretty = .ok deepestDocument) := by
  have deepest : nesting (Schema.codec.text deepestSchema) = 127 := by
    rw [nesting_of_spells (Schema.faithful.spells_text deepestSchema)]
    decide +kernel
  have read : Schema.ofText (Schema.codec.text deepestSchema) = .ok deepestSchema := by
    rw [Schema.ofText, (Schema.faithful.readsBack_text deepestSchema).ok (Nat.le_of_eq deepest)]
    rfl
  exact ⟨deepest, read, mapSchema_deepest, exported_texts_read read mapSchema_deepest⟩

end PermissionSchema.Export
