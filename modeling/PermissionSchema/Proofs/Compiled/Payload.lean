import PermissionSchema.Compiled.Metadata
import PermissionSchema.Proofs.Text.Utf8
import PermissionSchema.Proofs.Wire.Fields
/-!
Payloads of metadata. What is written is read back, and what is read of a payload is what its last
field with number 1 has: of two payloads put together, the second counts if it has such a field, and
fields of other numbers count for nothing.
-/
namespace PermissionSchema.Compiled

open PermissionSchema.Wire PermissionSchema.Text

theorem ofNat_eq_iff (first second : Nat) :
    Int32.ofNat first = Int32.ofNat second ↔ first % 0x100000000 = second % 0x100000000 := by
  rw [← Int32.toBitVec_inj]
  constructor
  · intro same
    exact congrArg BitVec.toNat same
  · intro same
    exact BitVec.eq_of_toNat_eq same

theorem ofNat_extended (number : Int32) :
    Int32.ofNat (number.toInt % 0x10000000000000000).toNat = number := by
  have low : (Int32.ofNat (number.toInt % 0x10000000000000000).toNat).toBitVec.toNat =
      (number.toInt % 0x10000000000000000).toNat % 0x100000000 := rfl
  have narrow := number.toBitVec.isLt
  rw [← Int32.toBitVec_inj]
  apply BitVec.eq_of_toNat_eq
  rw [low, ← Int32.toInt_toBitVec, BitVec.toInt_eq_toNat_cond]
  omega

namespace RelationPayload

def Spelled (kind : Int32) (octets : List UInt8) : Prop :=
  ∃ value, Varint value octets ∧ kind = Int32.ofNat value

theorem lawful_known : known.Lawful Spelled where
  reads := reads_readVarint.bind_without_octets fun value => Reads.pure (Int32.ofNat value)
  valued kind octets stands := by
    obtain ⟨value, spelled, _⟩ := stands
    exact ⟨value, spelled⟩

theorem decode_ok_iff {octets : List UInt8} {payload : RelationPayload} :
    decode octets = .ok payload ↔
      ∃ fields, Fields fields octets ∧ Carries .varint Spelled 0 fields payload.kind := by
  have distinct : Function.Injective RelationPayload.mk := fun _ _ => RelationPayload.mk.inj
  exact map_decode_eq_ok_iff lawful_known distinct

theorem key_spelled : Key.Spelled ⟨1, .varint⟩ [0x08] :=
  Key.spelled_single (by decide) (by decide)

theorem decode_field {value : Nat} {octets : List UInt8} (spelled : Varint value octets) :
    decode (0x08 :: octets) = .ok ⟨Int32.ofNat value⟩ := by
  have field : Fields [⟨⟨1, .varint⟩, octets⟩] ([0x08] ++ (octets ++ [])) :=
    .next key_spelled ⟨value, spelled⟩ .done
  rw [List.append_nil] at field
  exact decode_ok_iff.mpr ⟨_, field, .known rfl ⟨value, spelled, rfl⟩ .done⟩

theorem decode_encode (payload : RelationPayload) : decode payload.encode = .ok payload := by
  unfold encode
  split
  next zero =>
    rw [decode_ok_iff, zero]
    exact ⟨[], .done, .done⟩
  next some =>
    have fits : (payload.kind.toInt % 0x10000000000000000).toNat < 0x10000000000000000 := by
      omega
    rw [decode_field (varint_spells fits), ofNat_extended]

theorem encode_eq_nil_iff (payload : RelationPayload) : payload.encode = [] ↔ payload.kind = 0 := by
  unfold encode
  split
  next zero => simp [zero]
  next some => simp [some]

end RelationPayload

namespace CommentPayload

def Spelled (text : String) (octets : List UInt8) : Prop :=
  ∃ content, Delimited content octets ∧
    ∃ characters, Utf8.decode? content = some characters ∧ text = String.ofList characters

theorem lawful_known : known.Lawful Spelled where
  reads := by
    apply reads_takeDelimited.bind_without_octets
    intro content
    cases Utf8.decode? content with
    | none =>
      intro input text after
      constructor
      · intro read
        cases read
      · intro stands
        obtain ⟨_, _, _, _, absent, _⟩ := stands
        cases absent
    | some characters =>
      apply (Reads.pure (String.ofList characters)).congr
      intro text octets
      simp
  valued text octets stands := by
    obtain ⟨content, delimited, _⟩ := stands
    exact ⟨content, delimited⟩

theorem decode_ok_iff {octets : List UInt8} {payload : CommentPayload} :
    decode octets = .ok payload ↔
      ∃ fields, Fields fields octets ∧
        Carries .lengthDelimited Spelled "" fields payload.comment := by
  have distinct : Function.Injective CommentPayload.mk := fun _ _ => CommentPayload.mk.inj
  exact map_decode_eq_ok_iff lawful_known distinct

theorem key_spelled : Key.Spelled ⟨1, .lengthDelimited⟩ [0x0a] :=
  Key.spelled_single (by decide) (by decide)

theorem decode_field {content octets : List UInt8} {characters : List Char}
    (delimited : Delimited content octets) (sound : Utf8.decode? content = some characters) :
    decode (0x0a :: octets) = .ok ⟨String.ofList characters⟩ := by
  have field : Fields [⟨⟨1, .lengthDelimited⟩, octets⟩] ([0x0a] ++ (octets ++ [])) :=
    .next key_spelled ⟨content, delimited⟩ .done
  rw [List.append_nil] at field
  exact decode_ok_iff.mpr
    ⟨_, field, .known rfl ⟨content, delimited, characters, sound, rfl⟩ .done⟩

/-- Where a payload begins with a length, it is read only if the length has 64 bits. -/
theorem lt_of_decode {count : Nat} {octets : List UInt8} {payload : CommentPayload}
    (read : decode (0x0a :: varint count ++ octets) = .ok payload) :
    count < 0x10000000000000000 := by
  obtain ⟨fields, cut, _⟩ := decode_ok_iff.mp read
  generalize whole : 0x0a :: varint count ++ octets = all at cut
  cases cut with
  | done => cases whole
  | @next field fields key rest spelled valued _ =>
    obtain ⟨sort, value⟩ := field
    dsimp only at spelled valued whole
    obtain ⟨same, _, behind⟩ := reads_readKey.eq_of_append key_spelled spelled whole
    subst same
    obtain ⟨content, length, split, varint⟩ := valued
    rw [split, List.append_assoc] at behind
    obtain ⟨equal, _⟩ := (septets_varint count).eq_of_append varint.septets behind
    rw [equal]
    exact varint.fits

theorem encode_of_ne {payload : CommentPayload} (some : payload.comment ≠ "") :
    payload.encode = 0x0a :: varint (Utf8.encode payload.comment.toList).length ++
      Utf8.encode payload.comment.toList := by
  refine if_neg fun none => some ?_
  have read := Utf8.decode?_encode payload.comment.toList
  rw [List.isEmpty_iff.mp none] at read
  exact String.toList_eq_nil_iff.mp (Option.some.inj read).symm

theorem encode_eq_nil_iff (payload : CommentPayload) :
    payload.encode = [] ↔ payload.comment = "" := by
  obtain ⟨comment⟩ := payload
  constructor
  · intro none
    by_contra some
    rw [encode_of_ne some] at none
    cases none
  · intro none
    subst none
    rfl

theorem decode_encode_iff (payload : CommentPayload) :
    decode payload.encode = .ok payload ↔
      (Utf8.encode payload.comment.toList).length < 0x10000000000000000 := by
  obtain ⟨comment⟩ := payload
  by_cases none : comment = ""
  · subst none
    constructor
    · intro _
      exact Nat.zero_lt_succ _
    · intro _
      rfl
  · rw [encode_of_ne none]
    constructor
    · exact lt_of_decode
    · intro fits
      have delimited : Delimited (Utf8.encode comment.toList)
          (varint (Utf8.encode comment.toList).length ++ Utf8.encode comment.toList) :=
        ⟨_, rfl, varint_spells fits⟩
      have read := decode_field delimited (Utf8.decode?_encode comment.toList)
      rw [String.ofList_toList] at read
      exact read

end CommentPayload

theorem RelationKind.ofNumber?_ofNat (value : Nat) :
    (ofNumber? (Int32.ofNat value)).getD .unknown =
      if value % 0x100000000 = 1 then .relation
      else if value % 0x100000000 = 2 then .permission
      else .unknown := by
  have same (kind : Nat) (small : kind < 3) :
      Int32.ofNat kind = Int32.ofNat value ↔ value % 0x100000000 = kind := by
    rw [ofNat_eq_iff]
    omega
  have zero : (0 : Int32) = Int32.ofNat value ↔ value % 0x100000000 = 0 := same 0 (by decide)
  have one : (1 : Int32) = Int32.ofNat value ↔ value % 0x100000000 = 1 := same 1 (by decide)
  have two : (2 : Int32) = Int32.ofNat value ↔ value % 0x100000000 = 2 := same 2 (by decide)
  simp only [ofNumber?, all, List.find?_cons, List.find?_nil, number, zero, one, two]
  by_cases relation : value % 0x100000000 = 1
  · simp [relation]
  · by_cases permission : value % 0x100000000 = 2
    · simp [permission]
    · by_cases unknown : value % 0x100000000 = 0
      · simp [unknown]
      · simp [relation, permission, unknown]

namespace Metadata

variable {metadata : Metadata} {typeUrl : String} {octets : List UInt8}

def Leads (metadata : Metadata) (typeUrl : String) (octets : List UInt8) : Prop :=
  (metadata.ofType typeUrl).head? = some ⟨typeUrl, octets⟩

theorem kind_of_leads {payload : RelationPayload} (leads : metadata.Leads typeUrl octets)
    (read : RelationPayload.decode octets = .ok payload) :
    metadata.kind typeUrl = payload.relationKind?.getD .unknown := by
  obtain ⟨rest, entries⟩ := List.head?_eq_some_iff.mp leads
  rw [kind, entries]
  dsimp only
  rw [read]

/-- A number counts by its low 32 bits, however it is spelled. -/
theorem kind_of_varint {value : Nat} (spelled : Varint value octets)
    (leads : metadata.Leads typeUrl (0x08 :: octets)) :
    metadata.kind typeUrl =
      if value % 0x100000000 = 1 then .relation
      else if value % 0x100000000 = 2 then .permission
      else .unknown := by
  rw [kind_of_leads leads (RelationPayload.decode_field spelled)]
  exact RelationKind.ofNumber?_ofNat value

end Metadata

namespace RelationPayload

section

variable {front back extra octets : List UInt8} {payload early late : RelationPayload}

theorem decode_replaced (first : decode front = .ok early) (second : decode back = .ok late)
    (has : HasField 1 back) : decode (front ++ back) = .ok late := by
  obtain ⟨fields, cut, carries⟩ := decode_ok_iff.mp first
  obtain ⟨others, again, more⟩ := decode_ok_iff.mp second
  have known := (again.hasField_iff 1).mp has
  exact decode_ok_iff.mpr ⟨_, cut.append again, carries.append (more.of_mem known _)⟩

theorem decode_appended (first : decode front = .ok early) (lacks : LacksField 1 extra) :
    decode (front ++ extra) = .ok early := by
  obtain ⟨fields, cut, carries⟩ := decode_ok_iff.mp first
  obtain ⟨others, again, unknown⟩ := lacks
  exact decode_ok_iff.mpr ⟨_, cut.append again, carries.append (.of_others _ unknown)⟩

/-- Fields of other numbers in front make octets neither readable nor unreadable. -/
theorem decode_prepended_iff (lacks : LacksField 1 extra) :
    decode (extra ++ octets) = .ok payload ↔ decode octets = .ok payload := by
  obtain ⟨fields, cut, unknown⟩ := lacks
  constructor
  · intro read
    obtain ⟨all, whole, carries⟩ := decode_ok_iff.mp read
    obtain ⟨others, split, rest⟩ := cut.exists_of_append whole
    exact decode_ok_iff.mpr ⟨others, rest, (split ▸ carries).behind_others unknown⟩
  · intro read
    obtain ⟨others, rest, carries⟩ := decode_ok_iff.mp read
    exact decode_ok_iff.mpr ⟨_, cut.append rest, (Carries.of_others _ unknown).append carries⟩

theorem lacksField_of_not_hasField (second : decode back = .ok late) (has : ¬HasField 1 back) :
    LacksField 1 back := by
  obtain ⟨fields, cut, _⟩ := decode_ok_iff.mp second
  refine ⟨fields, cut, ?_⟩
  intro field member number
  exact has ⟨fields, cut, field, member, number⟩

/-- Two readable payloads put together are readable. They tell what the second tells if it has the
field, and what the first tells otherwise; so fields of other numbers, in front or behind, change
nothing. Behind octets that cannot be read they may: what is added can be the end of a number that
breaks off. -/
theorem kind_joined (first : decode front = .ok early) (second : decode back = .ok late) :
    (∃ joined, decode (front ++ back) = .ok joined) ∧
      (∀ metadata typeUrl, Metadata.Leads metadata typeUrl (front ++ back) →
        (HasField 1 back → metadata.kind typeUrl = late.relationKind?.getD .unknown) ∧
        (¬HasField 1 back → metadata.kind typeUrl = early.relationKind?.getD .unknown)) ∧
      ∀ extra, LacksField 1 extra → ∀ metadata typeUrl,
        Metadata.Leads metadata typeUrl (front ++ extra) ∨
          Metadata.Leads metadata typeUrl (extra ++ front) →
        metadata.kind typeUrl = early.relationKind?.getD .unknown := by
  refine ⟨?_, ?_, ?_⟩
  · by_cases has : HasField 1 back
    · exact ⟨late, decode_replaced first second has⟩
    · exact ⟨early, decode_appended first (lacksField_of_not_hasField second has)⟩
  · intro metadata typeUrl leads
    constructor
    · intro has
      exact Metadata.kind_of_leads leads (decode_replaced first second has)
    · intro has
      exact Metadata.kind_of_leads leads
        (decode_appended first (lacksField_of_not_hasField second has))
  · intro extra lacks metadata typeUrl leads
    rcases leads with behind | before
    · exact Metadata.kind_of_leads behind (decode_appended first lacks)
    · exact Metadata.kind_of_leads before ((decode_prepended_iff lacks).mpr first)

/-- A field 10 whose contents look like a kind, and a kind that is spelled with its high bits. -/
theorem kind_joined_lookalike :
    decode [8, 1] = .ok ⟨1⟩ ∧ decode [8, 0x82, 0x80, 0x80, 0x80, 0x10] = .ok ⟨2⟩ ∧
      HasField 1 [8, 0x82, 0x80, 0x80, 0x80, 0x10] ∧ LacksField 1 [0x52, 2, 8, 2] ∧
      Metadata.kind
        [.docComment "a", ⟨relationMetadataUrl, [8, 1] ++ [8, 0x82, 0x80, 0x80, 0x80, 0x10]⟩]
        relationMetadataUrl = .permission ∧
      Metadata.kind [⟨relationMetadataUrl, [8, 1] ++ [0x52, 2, 8, 2]⟩] relationMetadataUrl =
        .relation := by
  have first : decode [8, 1] = .ok ⟨1⟩ := rfl
  have second : decode [8, 0x82, 0x80, 0x80, 0x80, 0x10] = .ok ⟨2⟩ := rfl
  obtain ⟨_, joined, extended⟩ := kind_joined first second
  have has : HasField 1 [8, 0x82, 0x80, 0x80, 0x80, 0x10] := by
    have value : ∃ value, Varint value [0x82, 0x80, 0x80, 0x80, 0x10] :=
      ⟨_, .more (by decide) (.more (by decide) (.more (by decide) (.more (by decide)
        (.last (by decide))))), by decide, by decide⟩
    have field : Fields [⟨⟨1, .varint⟩, [0x82, 0x80, 0x80, 0x80, 0x10]⟩] _ :=
      .next key_spelled value .done
    exact ⟨_, field, _, List.mem_singleton_self _, rfl⟩
  have lacks : LacksField 1 [0x52, 2, 8, 2] := by
    have key : Key.Spelled ⟨10, .lengthDelimited⟩ [0x52] :=
      Key.spelled_single (by decide) (by decide)
    have value : ∃ content, Delimited content [2, 8, 2] :=
      ⟨[8, 2], [2], rfl, @Septets.last 2 (by decide), by decide, by decide⟩
    have field : Fields [⟨⟨10, .lengthDelimited⟩, [2, 8, 2]⟩] _ := .next key value .done
    exact ⟨_, field, by simp⟩
  refine ⟨first, second, has, lacks, (joined _ _ ?_).1 has, extended _ lacks _ _ (.inl ?_)⟩
  · rfl
  · rfl

/-- What is added ends the number here, and the octets behind it are fields. -/
example : decode [8, 0x81, 0x80, 0x80, 0x80] = .error ⟨some "RelationMetadata.kind", .badVarint⟩ ∧
    decode [0x10, 0x15, 0x18, 0, 0x18, 0] = .ok ⟨0⟩ ∧
    decode ([8, 0x81, 0x80, 0x80, 0x80] ++ [0x10, 0x15, 0x18, 0, 0x18, 0]) = .ok ⟨1⟩ :=
  ⟨rfl, rfl, rfl⟩

end

end RelationPayload

end PermissionSchema.Compiled
