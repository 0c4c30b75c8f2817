import PermissionSchema.Export.Options
import PermissionSchema.Service
import PermissionSchema.Proofs.Compiled.Depth
import PermissionSchema.Proofs.Document.Depth
/-!
The formats of the library, and their normal texts. Whatever text is read as a value, in whichever
order and spelling of its parts, with parts left out or added, the value is written as a text that is
read as the same value, and that stays as it is when it is written again.
-/
namespace PermissionSchema

open PermissionSchema.Json

namespace Operator

theorem variants_names (operator : Operator) : Operator.variants.Names operator := by
  cases operator <;> rfl

theorem faithful : Operator.codec.Faithful where
  exact operator := .string operator.name
  takes operator := Reader.takes_choice_bare (variants_names operator) rfl _

end Operator

namespace SchemaError

theorem variants_names (kind : Kind) : SchemaError.variants.Names kind := by
  cases kind <;> rfl

theorem unclassified_faithful : unclassifiedCodec.Faithful :=
  .record {
    distinct := by decide
    fields := by
      simp only [List.forall_mem_cons]
      exact ⟨.required .string, .required .string, by simp⟩
    restored := by simp }

theorem unsupported_faithful : unsupportedCodec.Faithful :=
  .record {
    distinct := by decide
    fields := by
      simp only [List.forall_mem_cons]
      exact ⟨.required .string, .required .string, .required .string, by simp⟩
    restored := by simp }

theorem payload_takes (error : SchemaError) :
    Takes (fun depth => readPayload depth error.kind) error.payload error := by
  cases error with
  | unclassified definition relation =>
    exact (unclassified_faithful.takes (definition, relation)).map _
  | unsupportedOperand definition relation kind =>
    exact (unsupported_faithful.takes (definition, relation, kind)).map _
  | serialization text | write text | parse text | compile text | source text | format text =>
    exact (Reader.takes_string text).map _

theorem payload_exact (error : SchemaError) : error.payload.Exact := by
  cases error with
  | unclassified definition relation => exact unclassified_faithful.exact (definition, relation)
  | unsupportedOperand definition relation kind =>
    exact unsupported_faithful.exact (definition, relation, kind)
  | serialization text | write text | parse text | compile text | source text | format text =>
    exact .string text

theorem payload_depth_le (error : SchemaError) : error.payload.depth ≤ 1 := by
  cases error with
  | unclassified definition relation =>
    refine Codec.depth_record_le ?_
    simp only [List.forall_mem_cons]
    exact ⟨Nat.zero_le _, Nat.zero_le _, nofun⟩
  | unsupportedOperand definition relation kind =>
    refine Codec.depth_record_le ?_
    simp only [List.forall_mem_cons]
    exact ⟨Nat.zero_le _, Nat.zero_le _, Nat.zero_le _, nofun⟩
  | serialization text | write text | parse text | compile text | source text | format text =>
    exact Nat.zero_le 1

theorem faithful : SchemaError.codec.Faithful where
  exact error := error.payload_exact.single error.kind.name
  takes error := by
    have holds : ∃ expected, variants.bare error.kind = .error expected := by
      cases error <;> exact ⟨_, rfl⟩
    obtain ⟨expected, holds⟩ := holds
    exact Reader.takes_choice_payload (variants_names error.kind) holds error.payload_takes

theorem depth_le (error : SchemaError) : (SchemaError.codec.write error).depth ≤ 2 := by
  have single : (SchemaError.codec.write error).depth = error.payload.depth + 1 :=
    depth_single error.kind.name error.payload
  have payload := error.payload_depth_le
  omega

end SchemaError

namespace Export.Options

theorem faithful : Options.codec.Faithful :=
  .record {
    distinct := by decide
    fields := by
      simp only [List.forall_mem_cons]
      exact ⟨.defaulted .string, .defaulted .string, .defaulted .boolean, by simp⟩
    restored := by simp }

theorem depth_le (options : Options) : (Options.codec.write options).depth ≤ 1 := by
  refine Codec.depth_record_le ?_
  simp only [List.forall_mem_cons]
  exact ⟨Nat.zero_le _, Nat.zero_le _, Nat.zero_le _, nofun⟩

end Export.Options

namespace Service

theorem Endpoint.faithful : Endpoint.codec.Faithful :=
  .record {
    distinct := by decide
    fields := by
      simp only [List.forall_mem_cons]
      exact ⟨.defaulted .string, by simp⟩
    restored := by simp }

theorem Endpoint.depth_le (endpoint : Endpoint) : (Endpoint.codec.write endpoint).depth ≤ 1 := by
  refine Codec.depth_record_le ?_
  simp only [List.forall_mem_cons]
  exact ⟨Nat.zero_le _, nofun⟩

theorem Response.faithful : Response.codec.Faithful :=
  .record {
    distinct := by decide
    fields := by
      simp only [List.forall_mem_cons]
      exact ⟨.required .string, by simp⟩
    restored := by simp }

theorem Response.depth_le (response : Response) : (Response.codec.write response).depth ≤ 1 := by
  refine Codec.depth_record_le ?_
  simp only [List.forall_mem_cons]
  exact ⟨Nat.zero_le _, nofun⟩

end Service

inductive Format where
  | compiledSchema
  | compiledDefinition
  | declaration
  | allowedSubject
  | subjectRelation
  | rewrite
  | operand
  | compiledCaveat
  | metadataEntry
  | metadata
  | schema
  | definition
  | relation
  | subjectType
  | permission
  | userSet
  | operator
  | caveat
  | error
  | options
  | endpoint
  | response

namespace Format

abbrev Value : Format → Type
  | .compiledSchema => Compiled.Schema
  | .compiledDefinition => Compiled.Definition
  | .declaration => Compiled.Declaration
  | .allowedSubject => Compiled.AllowedSubject
  | .subjectRelation => Compiled.SubjectRelation
  | .rewrite => Compiled.Rewrite
  | .operand => Compiled.Operand
  | .compiledCaveat => Compiled.Caveat
  | .metadataEntry => Compiled.MetadataEntry
  | .metadata => Compiled.Metadata
  | .schema => Document.Schema
  | .definition => Document.Definition
  | .relation => Document.Relation
  | .subjectType => Document.SubjectType
  | .permission => Document.Permission
  | .userSet => Document.UserSet
  | .operator => Operator
  | .caveat => Document.Caveat
  | .error => SchemaError
  | .options => Export.Options
  | .endpoint => Service.Endpoint
  | .response => Service.Response

def codec : (format : Format) → Codec format.Value
  | .compiledSchema => Compiled.Schema.codec
  | .compiledDefinition => Compiled.Definition.codec
  | .declaration => Compiled.Declaration.codec
  | .allowedSubject => Compiled.AllowedSubject.codec
  | .subjectRelation => Compiled.SubjectRelation.codec
  | .rewrite => Compiled.Rewrite.codec
  | .operand => Compiled.Operand.codec
  | .compiledCaveat => Compiled.Caveat.codec
  | .metadataEntry => Compiled.MetadataEntry.codec
  | .metadata => Compiled.Metadata.codec
  | .schema => Document.Schema.codec
  | .definition => Document.Definition.codec
  | .relation => Document.Relation.codec
  | .subjectType => Document.SubjectType.codec
  | .permission => Document.Permission.codec
  | .userSet => Document.UserSet.codec
  | .operator => Operator.codec
  | .caveat => Document.Caveat.codec
  | .error => SchemaError.codec
  | .options => Export.Options.codec
  | .endpoint => Service.Endpoint.codec
  | .response => Service.Response.codec

theorem faithful : (format : Format) → format.codec.Faithful
  | .compiledSchema => Compiled.Schema.faithful
  | .compiledDefinition => Compiled.Definition.faithful
  | .declaration => Compiled.Declaration.faithful
  | .allowedSubject => Compiled.AllowedSubject.faithful
  | .subjectRelation => Compiled.SubjectRelation.faithful
  | .rewrite => Compiled.Rewrite.faithful
  | .operand => Compiled.Operand.faithful
  | .compiledCaveat => Compiled.Caveat.faithful
  | .metadataEntry => Compiled.MetadataEntry.faithful
  | .metadata => Compiled.Metadata.faithful
  | .schema => Document.Schema.faithful
  | .definition => Document.Definition.faithful
  | .relation => Document.Relation.faithful
  | .subjectType => Document.SubjectType.faithful
  | .permission => Document.Permission.faithful
  | .userSet => Document.UserSet.faithful
  | .operator => Operator.faithful
  | .caveat => Document.Caveat.faithful
  | .error => SchemaError.faithful
  | .options => Export.Options.faithful
  | .endpoint => Service.Endpoint.faithful
  | .response => Service.Response.faithful

/-- Where expressions can nest, brackets around them leave the room that defaults need; all other
values are flat. -/
theorem fits : (format : Format) → format.codec.Fits
  | .compiledSchema => (Compiled.Schema.yields_shallow 122).mono fun _ => Compiled.Schema.depth_le
  | .compiledDefinition =>
    (Compiled.Definition.yields_shallow 124).mono fun _ => Compiled.Definition.depth_le
  | .declaration =>
    (Compiled.Declaration.yields_shallow 126).mono fun _ => Compiled.Declaration.depth_le
  | .allowedSubject => .bounded Compiled.AllowedSubject.depth_le
  | .subjectRelation => .bounded Compiled.SubjectRelation.depth_le
  | .rewrite => (Compiled.yields_shallow 127).1
  | .operand => (Compiled.yields_shallow 127).2.2
  | .compiledCaveat => .bounded Compiled.Caveat.depth_le
  | .metadataEntry => .bounded Compiled.MetadataEntry.depth_le
  | .metadata => .bounded Compiled.Metadata.depth_le
  | .schema => (Document.Schema.yields_shallow 122).mono fun _ => Document.Schema.depth_le
  | .definition =>
    (Document.Definition.yields_shallow 124).mono fun _ => Document.Definition.depth_le
  | .relation => .bounded Document.Relation.depth_le
  | .subjectType => .bounded Document.SubjectType.depth_le
  | .permission =>
    (Document.Permission.yields_shallow 126).mono fun _ => Document.Permission.depth_le
  | .userSet => Document.UserSet.yields_shallow 127
  | .operator => .bounded fun _ => Nat.zero_le _
  | .caveat => .bounded Document.Caveat.depth_le
  | .error => .bounded fun error => Nat.le_trans error.depth_le (by decide)
  | .options => .bounded fun options => Nat.le_trans options.depth_le (by decide)
  | .endpoint => .bounded fun endpoint => Nat.le_trans endpoint.depth_le (by decide)
  | .response => .bounded fun response => Nat.le_trans response.depth_le (by decide)

/-- Every value that is read of some text, in any of the formats, has a normal text. -/
theorem normal_of_read (format : Format) {text : String} {value : format.Value}
    (read : format.codec.ofText text = .ok value) : format.codec.Normal value :=
  format.faithful.normal format.fits read

/-- A list of fields with an escape and a variant written as an object, and an object with a field
that is passed over and one left out, both have normal texts. -/
theorem normal_of_read_subjects :
    let listed := "[ \"us\\u0065r\", \x7b \"publicWildcard\": null \x7d ]"
    let object := "\x7b \"x\": [1.5e3, \x7b\x7d], \"relationOrWildcard\": " ++
      "\x7b\"relation\": \"...\"\x7d, \"namespace\": \"team\" \x7d"
    (allowedSubject.codec.ofText listed = .ok ⟨"user", .wildcard, none⟩ ∧
        allowedSubject.codec.Normal ⟨"user", .wildcard, none⟩) ∧
      allowedSubject.codec.ofText object = .ok ⟨"team", .relation "...", none⟩ ∧
        allowedSubject.codec.Normal ⟨"team", .relation "...", none⟩ := by
  intro listed object
  have first : allowedSubject.codec.ofText listed = .ok ⟨"user", .wildcard, none⟩ := by
    decide +kernel
  have second : allowedSubject.codec.ofText object = .ok ⟨"team", .relation "...", none⟩ := by
    decide +kernel
  exact ⟨⟨first, normal_of_read allowedSubject first⟩, second, normal_of_read allowedSubject second⟩

end Format

end PermissionSchema
