import PermissionSchema.Compiled.Metadata
import PermissionSchema.Json.Codec
/-!
Settings of an export.
-/
namespace PermissionSchema.Export

open PermissionSchema.Json

structure Options where
  docCommentUrl : String := Compiled.docCommentUrl
  relationMetadataUrl : String := Compiled.relationMetadataUrl
  strict : Bool := false
  deriving DecidableEq, Repr, Inhabited

def Options.codec : Codec Options := .record
  { label := "struct ExportOptions"
    blank := {}
    fields := [
      .defaulted "docCommentTypeUrl" .string (·.docCommentUrl)
        fun docCommentUrl options => { options with docCommentUrl },
      .defaulted "relationMetadataTypeUrl" .string (·.relationMetadataUrl)
        fun relationMetadataUrl options => { options with relationMetadataUrl },
      .defaulted "strictChildren" .boolean (·.strict)
        fun strict options => { options with strict }] }

end PermissionSchema.Export
