import PermissionSchema.Proofs.Export.Declaration
import PermissionSchema.Proofs.Compiled.Payload
import Mathlib.Tactic.SplitIfs
/-!
From numbers in payloads to declarations. Whatever spelling of a number the metadata has, its low 32
bits decide whether a declaration is a relation or a permission, and a declaration fails for want of
a kind exactly if they are neither 1 nor 2.
-/
namespace PermissionSchema.Export

open PermissionSchema.Compiled PermissionSchema.Wire PermissionSchema.Text

theorem mapDeclaration_unclassified_iff {options : Options} {owner : String}
    {declaration : Declaration} :
    (mapDeclaration options owner declaration).result =
        .error (.unclassified owner declaration.name) ↔
      declaration.metadata.kind options.relationMetadataUrl = .unknown := by
  rw [mapDeclaration_error_iff]
  constructor
  · intro refusal
    cases refusal with
    | unclassified unknown => exact unknown
  · exact .unclassified

/-- What octets come to as the number of a kind: for metadata, where the first entry of a type is
the key of the kind and these octets, and for a declaration with such metadata. -/
structure Classifies (value : Nat) (octets : List UInt8) : Prop where
  relation : ∀ metadata typeUrl, Metadata.Leads metadata typeUrl (0x08 :: octets) →
    (metadata.kind typeUrl = .relation ↔ value % 0x100000000 = 1)
  permission : ∀ metadata typeUrl, Metadata.Leads metadata typeUrl (0x08 :: octets) →
    (metadata.kind typeUrl = .permission ↔ value % 0x100000000 = 2)
  unknown : ∀ metadata typeUrl, Metadata.Leads metadata typeUrl (0x08 :: octets) →
    (metadata.kind typeUrl = .unknown ↔
      value % 0x100000000 ≠ 1 ∧ value % 0x100000000 ≠ 2)
  refused : ∀ (options : Options) owner (declaration : Declaration),
    declaration.metadata.Leads options.relationMetadataUrl (0x08 :: octets) →
    ((mapDeclaration options owner declaration).result =
        .error (.unclassified owner declaration.name) ↔
      value % 0x100000000 ≠ 1 ∧ value % 0x100000000 ≠ 2)

theorem classifies_of_varint {value : Nat} {octets : List UInt8} (spelled : Varint value octets) :
    Classifies value octets where
  relation metadata typeUrl leads := by
    rw [Metadata.kind_of_varint spelled leads]
    split_ifs <;> simp [*]
  permission metadata typeUrl leads := by
    rw [Metadata.kind_of_varint spelled leads]
    split_ifs <;> simp [*]
  unknown metadata typeUrl leads := by
    rw [Metadata.kind_of_varint spelled leads]
    split_ifs <;> simp [*]
  refused options owner declaration leads := by
    rw [mapDeclaration_unclassified_iff, Metadata.kind_of_varint spelled leads]
    split_ifs <;> simp [*]

/-- Payloads are read back, those of comments as far as lengths go that 64 bits can say. They are
empty exactly for the number 0 and for the empty comment. Every spelling of a number that is read as
one counts by the low 32 bits of the number. -/
theorem payloads_tell :
    (∀ payload : RelationPayload, RelationPayload.decode payload.encode = .ok payload ∧
      (payload.encode = [] ↔ payload.kind = 0)) ∧
    (∀ payload : CommentPayload,
      (CommentPayload.decode payload.encode = .ok payload ↔
        (Utf8.encode payload.comment.toList).length < 0x10000000000000000) ∧
      (payload.encode = [] ↔ payload.comment = "")) ∧
    ∀ value octets, (readVarint octets = .ok (value, []) ↔ Varint value octets) ∧
      (Varint value octets → Classifies value octets) := by
  refine ⟨?_, ?_, ?_⟩
  · intro payload
    exact ⟨payload.decode_encode, payload.encode_eq_nil_iff⟩
  · intro payload
    exact ⟨payload.decode_encode_iff, payload.encode_eq_nil_iff⟩
  · intro value octets
    refine ⟨?_, classifies_of_varint⟩
    rw [readVarint_eq_ok_iff]
    constructor
    · intro stands
      obtain ⟨front, split, spelled⟩ := stands
      rwa [split, List.append_nil]
    · intro spelled
      exact ⟨octets, (List.append_nil octets).symm, spelled⟩

/-- The number 2^32 + 1, spelled with an octet more than it needs. -/
theorem payloads_tell_wrapped :
    readVarint [0x81, 0x80, 0x80, 0x80, 0x90, 0x00] = .ok (0x100000001, []) ∧
      Varint 0x100000001 [0x81, 0x80, 0x80, 0x80, 0x90, 0x00] ∧
      Metadata.kind
        [.docComment "a", ⟨relationMetadataUrl, [0x08, 0x81, 0x80, 0x80, 0x80, 0x90, 0x00]⟩]
        relationMetadataUrl = .relation := by
  have read : readVarint [0x81, 0x80, 0x80, 0x80, 0x90, 0x00] = .ok (0x100000001, []) := rfl
  obtain ⟨accepted, classifies⟩ := payloads_tell.2.2 0x100000001 _
  have spelled := accepted.mp read
  refine ⟨read, spelled, ((classifies spelled).relation _ _ ?_).mpr (by decide)⟩
  rfl

end PermissionSchema.Export
