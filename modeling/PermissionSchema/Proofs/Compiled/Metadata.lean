import PermissionSchema.Compiled.Schema
import PermissionSchema.Proofs.Wire.Varint
/-!
What the builders attach: kinds of one octet behind their key, and comments behind all that a node
already has.
-/
namespace PermissionSchema.Compiled

theorem MetadataEntry.relationKind_eq (kind : RelationKind) :
    MetadataEntry.relationKind kind = ⟨relationMetadataUrl,
      match kind with
      | .unknown => []
      | .relation => [0x08, 0x01]
      | .permission => [0x08, 0x02]⟩ := by
  have one : Wire.varint 1 = [1] := Wire.varint_short (by decide)
  have two : Wire.varint 2 = [2] := Wire.varint_short (by decide)
  cases kind with
  | unknown => rfl
  | relation => exact congrArg (MetadataEntry.mk _ <| 0x08 :: ·) one
  | permission => exact congrArg (MetadataEntry.mk _ <| 0x08 :: ·) two

theorem Metadata.kind_append_docComments (metadata : Metadata) (comments : List String) :
    Metadata.kind (metadata ++ comments.map MetadataEntry.docComment) relationMetadataUrl =
      metadata.kind relationMetadataUrl := by
  have same : Metadata.ofType (metadata ++ comments.map MetadataEntry.docComment)
      relationMetadataUrl = metadata.ofType relationMetadataUrl := by
    have other : docCommentUrl ≠ relationMetadataUrl := by decide
    simp [Metadata.ofType, MetadataEntry.docComment, other]
  simp only [Metadata.kind, same]

theorem Definition.foldl_withComment (definition : Definition) (comments : List String) :
    comments.foldl Definition.withComment definition =
      { definition with
        metadata := definition.metadata ++ comments.map MetadataEntry.docComment } := by
  induction comments generalizing definition with
  | nil => simp
  | cons comment rest ih => simp [ih, Definition.withComment, Metadata.withComment]

theorem Declaration.foldl_withComment (declaration : Declaration) (comments : List String) :
    comments.foldl Declaration.withComment declaration =
      { declaration with
        metadata := declaration.metadata ++ comments.map MetadataEntry.docComment } := by
  induction comments generalizing declaration with
  | nil => simp
  | cons comment rest ih => simp [ih, Declaration.withComment, Metadata.withComment]

theorem Caveat.foldl_withComment (caveat : Caveat) (comments : List String) :
    comments.foldl Caveat.withComment caveat =
      { caveat with metadata := caveat.metadata ++ comments.map MetadataEntry.docComment } := by
  induction comments generalizing caveat with
  | nil => simp
  | cons comment rest ih => simp [ih, Caveat.withComment, Metadata.withComment]

end PermissionSchema.Compiled
