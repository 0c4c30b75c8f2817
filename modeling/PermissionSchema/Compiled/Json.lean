import PermissionSchema.Compiled.Schema
import PermissionSchema.Json.Codec
/-!
The JSON form of compiled schemas. Every field is written, missing parts as `null` and as empty
lists; a text may leave such parts out.
-/
namespace PermissionSchema.Compiled

open PermissionSchema.Json

def MetadataEntry.codec : Codec MetadataEntry := .record
  { label := "struct MetadataEntry"
    blank := ⟨"", []⟩
    fields := [
      .required "typeUrl" .string (·.typeUrl) fun typeUrl entry => { entry with typeUrl },
      .defaulted "value" (.list .octet) (·.value) fun value entry => { entry with value }] }

def Metadata.codec : Codec Metadata := .list MetadataEntry.codec

def rewriteVariants : Reader.Variants Operator Rewrite where
  tags := Operator.all
  name := Operator.name
  bare _ := .error "newtype variant"

def operandVariants : Reader.Variants OperandKind Operand where
  tags := OperandKind.all
  name := OperandKind.name
  bare
    | .this => .ok .this
    | .nil => .ok .nil
    | .computed | .arrow | .nested => .error "newtype variant"

def computedCodec : Codec String := .record
  { label := "struct ComputedUserset"
    blank := ""
    fields := [.required "relation" .string id fun relation _ => relation] }

def arrowCodec : Codec (String × String) := .record
  { label := "struct TupleToUserset"
    blank := ("", "")
    fields := [
      .required "tupleset" .string (·.1) fun tupleset arrow => (tupleset, arrow.2),
      .required "computedUserset" .string (·.2) fun computed arrow => (arrow.1, computed)] }

mutual

def Operand.toJson : Operand → Json
  | .this => .string OperandKind.this.name
  | .computed relation => .object [(OperandKind.computed.name, computedCodec.write relation)]
  | .arrow tupleset computed =>
    .object [(OperandKind.arrow.name, arrowCodec.write (tupleset, computed))]
  | .nested operator operands =>
    .object [(OperandKind.nested.name, .object [(operator.name, .array (operandsToJson operands))])]
  | .nil => .string OperandKind.nil.name

def operandsToJson : List Operand → List Json
  | [] => []
  | operand :: rest => operand.toJson :: operandsToJson rest

end

def Rewrite.toJson (rewrite : Rewrite) : Json :=
  .object [(rewrite.operator.name, .array (operandsToJson rewrite.operands))]

mutual

def Rewrite.read : Nat → Reader Rewrite
  | 0 => Reader.choice rewriteVariants none
  | depth + 1 =>
    Reader.choice rewriteVariants (some fun operator =>
      Rewrite.mk operator <$> readOperands depth)

def readOperands : Nat → Reader (List Operand)
  | 0 => Reader.sequence none
  | depth + 1 => Reader.sequence (some (Operand.read depth))

def Operand.read : Nat → Reader Operand
  | 0 => Reader.choice operandVariants none
  | depth + 1 =>
    Reader.choice operandVariants (some fun kind =>
      match kind with
      | .computed => Operand.computed <$> computedCodec.read depth
      | .arrow => (fun arrow => Operand.arrow arrow.1 arrow.2) <$> arrowCodec.read depth
      | .nested => Operand.ofRewrite <$> Rewrite.read depth
      | .this => pure .this
      | .nil => pure .nil)

end

def Rewrite.codec : Codec Rewrite := ⟨Rewrite.toJson, Rewrite.read⟩

def Operand.codec : Codec Operand := ⟨Operand.toJson, Operand.read⟩

namespace SubjectRelation

inductive Kind where
  | relation
  | wildcard
  deriving DecidableEq, Repr

def Kind.name : Kind → String
  | .relation => "relation"
  | .wildcard => "publicWildcard"

def variants : Reader.Variants Kind SubjectRelation where
  tags := [.relation, .wildcard]
  name := Kind.name
  bare
    | .relation => .error "newtype variant"
    | .wildcard => .ok .wildcard

def codec : Codec SubjectRelation where
  write
    | .relation name => .object [(Kind.relation.name, .string name)]
    | .wildcard => .string Kind.wildcard.name
  read depth :=
    Reader.choice variants (Reader.inside (fun _ _ => .relation <$> Reader.string) depth)

end SubjectRelation

def AllowedSubject.codec : Codec AllowedSubject := .record
  { label := "struct AllowedRelation"
    blank := ⟨"", .wildcard, none⟩
    fields := [
      .required "namespace" .string (·.subjectType)
        fun subjectType subject => { subject with subjectType },
      .required "relationOrWildcard" SubjectRelation.codec (·.relation)
        fun relation subject => { subject with relation },
      .defaulted "requiredCaveat" (.optional .string) (·.caveat)
        fun caveat subject => { subject with caveat }] }

def Declaration.codec : Codec Declaration := .record
  { label := "struct RelationDecl"
    blank := { name := "" }
    fields := [
      .required "name" .string (·.name) fun name declaration => { declaration with name },
      .defaulted "usersetRewrite" (.optional Rewrite.codec) (·.rewrite)
        fun rewrite declaration => { declaration with rewrite },
      .defaulted "allowedDirectRelations" (.list AllowedSubject.codec) (·.allowed)
        fun allowed declaration => { declaration with allowed },
      .defaulted "metadata" Metadata.codec (·.metadata)
        fun metadata declaration => { declaration with metadata }] }

def Definition.codec : Codec Definition := .record
  { label := "struct NamespaceDefinition"
    blank := { name := "" }
    fields := [
      .required "name" .string (·.name) fun name definition => { definition with name },
      .defaulted "relations" (.list Declaration.codec) (·.declarations)
        fun declarations definition => { definition with declarations },
      .defaulted "metadata" Metadata.codec (·.metadata)
        fun metadata definition => { definition with metadata }] }

def Caveat.codec : Codec Caveat := .record
  { label := "struct CaveatDefinition"
    blank := { name := "" }
    fields := [
      .required "name" .string (·.name) fun name caveat => { caveat with name },
      .defaulted "parameterTypes" (.list .string) (·.parameters)
        fun parameters caveat => { caveat with parameters },
      .defaulted "metadata" Metadata.codec (·.metadata)
        fun metadata caveat => { caveat with metadata }] }

def Schema.codec : Codec Schema := .record
  { label := "struct CompiledSchema"
    blank := {}
    fields := [
      .defaulted "objectDefinitions" (.list Definition.codec) (·.definitions)
        fun definitions schema => { schema with definitions },
      .defaulted "caveatDefinitions" (.list Caveat.codec) (·.caveats)
        fun caveats schema => { schema with caveats }] }

end PermissionSchema.Compiled
