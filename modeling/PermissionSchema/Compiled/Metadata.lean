import PermissionSchema.Wire.Message
import PermissionSchema.Text.Utf8
/-!
Metadata of compiled nodes: payloads tagged with type URLs. Two of them mean something to an export:
doc comments, and what kind of declaration a relation is.
-/
namespace PermissionSchema.Compiled

inductive RelationKind where
  | unknown
  | relation
  | permission
  deriving DecidableEq, Repr, Inhabited

namespace RelationKind

def all : List RelationKind := [.unknown, .relation, .permission]

def name : RelationKind → String
  | .unknown => "UNKNOWN_KIND"
  | .relation => "RELATION"
  | .permission => "PERMISSION"

def ofName? (name : String) : Option RelationKind :=
  all.find? (·.name = name)

theorem ofName?_name (kind : RelationKind) : ofName? kind.name = some kind := by
  cases kind <;> rfl

def number : RelationKind → Int32
  | .unknown => 0
  | .relation => 1
  | .permission => 2

def ofNumber? (number : Int32) : Option RelationKind :=
  all.find? (·.number = number)

theorem ofNumber?_number (kind : RelationKind) : ofNumber? kind.number = some kind := by
  cases kind <;> rfl

end RelationKind

structure RelationPayload where
  kind : Int32
  deriving DecidableEq, Repr

namespace RelationPayload

/-- The number is a varint of 64 bits, of which the low 32 count. -/
def known : Wire.Known Int32 :=
  ⟨"RelationMetadata.kind", .varint, do return Int32.ofNat (← Wire.readVarint)⟩

def decode (payload : List UInt8) : Except Wire.Failure RelationPayload :=
  (Wire.decode known 0 payload).map RelationPayload.mk

/-- Writes a payload. The number is extended to 64 bits with its sign, and left out if it is 0. -/
def encode (payload : RelationPayload) : List UInt8 :=
  if payload.kind = 0 then []
  else 0x08 :: Wire.varint (payload.kind.toInt % 0x10000000000000000).toNat

def relationKind? (payload : RelationPayload) : Option RelationKind :=
  RelationKind.ofNumber? payload.kind

end RelationPayload

structure CommentPayload where
  comment : String
  deriving DecidableEq, Repr

namespace CommentPayload

def known : Wire.Known String :=
  ⟨"DocComment.comment", .lengthDelimited, do
    match Text.Utf8.decode? (← Wire.takeDelimited) with
    | some text => pure (String.ofList text)
    | none => fun _ => .error .notUtf8⟩

def decode (payload : List UInt8) : Except Wire.Failure CommentPayload :=
  (Wire.decode known "" payload).map CommentPayload.mk

def encode (payload : CommentPayload) : List UInt8 :=
  let octets := Text.Utf8.encode payload.comment.toList
  if octets.isEmpty then [] else 0x0a :: Wire.varint octets.length ++ octets

end CommentPayload

structure MetadataEntry where
  typeUrl : String
  value : List UInt8 := []
  deriving DecidableEq, Repr, Inhabited

def docCommentUrl : String := "type.googleapis.com/impl.v1.DocComment"

def relationMetadataUrl : String := "type.googleapis.com/impl.v1.RelationMetadata"

namespace MetadataEntry

def docComment (comment : String) : MetadataEntry :=
  ⟨docCommentUrl, CommentPayload.encode ⟨comment⟩⟩

def relationKind (kind : RelationKind) : MetadataEntry :=
  ⟨relationMetadataUrl, RelationPayload.encode ⟨kind.number⟩⟩

end MetadataEntry

abbrev Metadata : Type := List MetadataEntry

namespace Metadata

def ofType (metadata : Metadata) (typeUrl : String) : Metadata :=
  metadata.filter (·.typeUrl = typeUrl)

/-- The kind that the first entry of a type tells. Without such an entry, and with a payload that
cannot be read or has another number, the kind is unknown. -/
def kind (metadata : Metadata) (typeUrl : String) : RelationKind :=
  match metadata.ofType typeUrl with
  | [] => .unknown
  | entry :: _ =>
    match RelationPayload.decode entry.value with
    | .ok payload => payload.relationKind?.getD .unknown
    | .error _ => .unknown

def withComment (metadata : Metadata) (comment : String) : Metadata :=
  metadata ++ [.docComment comment]

end Metadata

end PermissionSchema.Compiled
