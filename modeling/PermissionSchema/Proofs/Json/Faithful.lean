import PermissionSchema.Proofs.Json.Layout
import PermissionSchema.Proofs.Json.Members
/-!
Faithful codecs: what a codec writes its reader takes back, and refuses only for its depth. Lists,
missing values and records of faithful codecs are faithful; of a record it has to be known that its
fields have names of their own, and that a record without the omitted fields is the same record.
-/
namespace PermissionSchema.Json

open PermissionSchema.Text.Utf8

variable {α ρ : Type}

/-- A codec whose reader takes back what it writes. -/
structure Codec.Faithful (codec : Codec α) : Prop where
  exact (value : α) : (codec.write value).Exact
  takes (value : α) : Takes codec.read (codec.write value) value

namespace Codec.Faithful

theorem string : Codec.string.Faithful :=
  ⟨fun value => .string value, fun value => Reader.takes_string value⟩

theorem boolean : Codec.boolean.Faithful where
  exact value := .boolean value
  takes value := by
    refine .flat rfl fun _ more => (Reader.reads_peekValue (.boolean value) more).seq ?_
    cases value with
    | true => exact (Reader.reads_trueWord more).seq (.pure true)
    | false => exact (Reader.reads_falseWord more).seq (.pure false)

theorem octet : Codec.octet.Faithful where
  exact value := .natural (Nat.lt_trans value.toNat_lt (by decide))
  takes value := Reader.takes_octet value

theorem list {element : Codec α} (faithful : element.Faithful) : element.list.Faithful where
  exact values := by
    refine .array fun item member => ?_
    obtain ⟨value, _, rfl⟩ := List.mem_map.mp member
    exact faithful.exact value
  takes values := by
    refine Reader.takes_sequence (List.forall₂_map_left_iff.mpr (List.forall₂_same.mpr ?_))
    exact fun value _ => faithful.takes value

theorem optional {value : Codec α} (faithful : value.Faithful)
    (present : ∀ held, value.write held ≠ .null) : value.optional.Faithful where
  exact
    | none => .null
    | some held => faithful.exact held
  takes
    | none => Reader.takes_none value.read
    | some held => Reader.takes_some (faithful.takes held) (present held)

end Codec.Faithful

structure Field.Lawful (field : Field ρ) : Prop where
  faithful : field.codec.Faithful
  optional (value : field.Value) (omitted : field.omits value = true) : field.keyOptional = true

namespace Field.Lawful

theorem required {codec : Codec α} (faithful : codec.Faithful) {name : String} {get : ρ → α}
    {set : α → ρ → ρ} : (Field.required name codec get set).Lawful :=
  ⟨faithful, nofun⟩

theorem defaulted {codec : Codec α} (faithful : codec.Faithful) {name : String} {get : ρ → α}
    {set : α → ρ → ρ} : (Field.defaulted name codec get set).Lawful :=
  ⟨faithful, nofun⟩

theorem nullable {codec : Codec (Option α)} (faithful : codec.Faithful) {name : String}
    {get : ρ → Option α} {set : Option α → ρ → ρ} : (Field.nullable name codec get set).Lawful :=
  ⟨faithful, nofun⟩

theorem textUnlessEmpty {name : String} {get : ρ → String} {set : String → ρ → ρ} :
    (Field.textUnlessEmpty name get set).Lawful :=
  ⟨.string, fun _ _ => rfl⟩

theorem listUnlessEmpty {codec : Codec α} (faithful : codec.Faithful) {name : String}
    {get : ρ → List α} {set : List α → ρ → ρ} : (Field.listUnlessEmpty name codec get set).Lawful :=
  ⟨faithful.list, fun _ _ => rfl⟩

end Field.Lawful

def Field.restore (record held : ρ) (field : Field ρ) : ρ :=
  if field.omits (field.get record) then held else field.set (field.get record) held

namespace Field

@[simp] theorem restore_required (name : String) (codec : Codec α) (get : ρ → α) (set : α → ρ → ρ)
    (record held : ρ) :
    restore record held (.required name codec get set) = set (get record) held := rfl

@[simp] theorem restore_defaulted (name : String) (codec : Codec α) (get : ρ → α) (set : α → ρ → ρ)
    (record held : ρ) :
    restore record held (.defaulted name codec get set) = set (get record) held := rfl

@[simp] theorem restore_nullable (name : String) (codec : Codec (Option α)) (get : ρ → Option α)
    (set : Option α → ρ → ρ) (record held : ρ) :
    restore record held (.nullable name codec get set) = set (get record) held := rfl

@[simp] theorem restore_textUnlessEmpty {name : String} {get : ρ → String} {set : String → ρ → ρ}
    {record held : ρ} (blank : set "" held = held) :
    restore record held (.textUnlessEmpty name get set) = set (get record) held := by
  by_cases empty : get record = "" <;> simp [restore, textUnlessEmpty, empty, blank]

@[simp] theorem restore_listUnlessEmpty {name : String} {codec : Codec α} {get : ρ → List α}
    {set : List α → ρ → ρ} {record held : ρ} (blank : set [] held = held) :
    restore record held (.listUnlessEmpty name codec get set) = set (get record) held := by
  by_cases empty : get record = [] <;> simp [restore, listUnlessEmpty, empty, blank]

end Field

/-- A record type whose fields have names of their own and make up the whole record, those that are
omitted left as they are in the blank one. -/
structure Record.Lawful (shape : Record ρ) : Prop where
  distinct : (shape.fields.map (·.name)).Nodup
  fields : ∀ field ∈ shape.fields, field.Lawful
  restored (record : ρ) : shape.fields.foldl (Field.restore record) shape.blank = record

namespace Record

def membersOf (fields : List (Field ρ)) (record : ρ) : List (String × Json) :=
  fields.filterMap (·.member? record)

theorem exists_field_of_mem_membersOf {fields : List (Field ρ)} {record : ρ}
    {member : String × Json} (among : member ∈ membersOf fields record) :
    ∃ field ∈ fields, member = (field.name, field.codec.write (field.get record)) := by
  obtain ⟨field, known, written⟩ := List.mem_filterMap.mp among
  simp only [Field.member?] at written
  split at written
  · cases written
  · exact ⟨field, known, (Option.some.inj written).symm⟩

/-- Where the members of an object are read: the fields still to come, and the names seen. Names
seen do not come again, and no field is missed that has to be there. -/
structure Awaits (shape : Record ρ) (seen : List String) (later : List (Field ρ)) : Prop where
  known (field : Field ρ) (member : field ∈ later) : field ∈ shape.fields
  fresh (field : Field ρ) (member : field ∈ later) : field.name ∉ seen
  distinct : (later.map (·.name)).Nodup
  complete (field : Field ρ) (member : field ∈ shape.fields) (needed : field.keyOptional = false) :
    field.name ∈ seen ∨ field ∈ later

variable {shape : Record ρ} {seen : List String} {later : List (Field ρ)} {field : Field ρ}

theorem Lawful.awaits (lawful : shape.Lawful) : shape.Awaits [] shape.fields where
  known _ member := member
  fresh _ _ := List.not_mem_nil
  distinct := lawful.distinct
  complete _ member _ := .inr member

theorem Awaits.read (awaits : shape.Awaits seen (field :: later)) :
    shape.Awaits (field.name :: seen) later where
  known other member := awaits.known other (List.mem_cons_of_mem _ member)
  fresh other member := by
    have apart := List.nodup_cons.mp awaits.distinct
    have unseen := awaits.fresh other (List.mem_cons_of_mem _ member)
    simp only [List.mem_cons, not_or]
    exact ⟨fun same => apart.1 (List.mem_map.mpr ⟨other, member, same⟩), unseen⟩
  distinct := (List.nodup_cons.mp awaits.distinct).2
  complete other member needed := by
    rcases awaits.complete other member needed with already | among
    · exact .inl (List.mem_cons_of_mem _ already)
    · rcases List.mem_cons.mp among with same | among
      · exact .inl (same ▸ List.mem_cons_self)
      · exact .inr among

theorem Awaits.skip (awaits : shape.Awaits seen (field :: later))
    (optional : field.keyOptional = true) : shape.Awaits seen later where
  known other member := awaits.known other (List.mem_cons_of_mem _ member)
  fresh other member := awaits.fresh other (List.mem_cons_of_mem _ member)
  distinct := (List.nodup_cons.mp awaits.distinct).2
  complete other member needed := by
    rcases awaits.complete other member needed with already | among
    · exact .inl already
    · rcases List.mem_cons.mp among with same | among
      · rw [same, optional] at needed
        cases needed
      · exact .inr among

theorem find?_slot {fields : List (Field ρ)} (distinct : (fields.map (·.name)).Nodup)
    (member : field ∈ fields) (depth : Nat) :
    (fields.map (Field.slot depth)).find? (·.name = field.name) = some (field.slot depth) := by
  induction fields with
  | nil => exact absurd member List.not_mem_nil
  | cons other fields ih =>
    have apart := List.nodup_cons.mp distinct
    rcases List.mem_cons.mp member with rfl | member
    · simp [Field.slot]
    · have different : (other.slot depth).name ≠ field.name := fun same =>
        apart.1 (List.mem_map.mpr ⟨field, member, same.symm⟩)
      rw [List.map_cons, List.find?_cons, decide_eq_false different]
      exact ih apart.2 member

theorem Awaits.find?_missing (awaits : shape.Awaits seen []) (depth : Nat) :
    ((shape.fields.map (Field.slot depth)).find? fun slot =>
      !slot.keyOptional && slot.name ∉ seen) = none := by
  rw [List.find?_eq_none]
  intro slot member missing
  obtain ⟨field, among, rfl⟩ := List.mem_map.mp member
  simp only [Field.slot, Bool.and_eq_true, Bool.not_eq_true'] at missing
  rcases awaits.complete field among missing.1 with already | among
  · exact of_decide_eq_true missing.2 already
  · exact absurd among List.not_mem_nil

/-- The members that fields write fill a record with their values, one field after the other. -/
theorem fills_membersOf (lawful : shape.Lawful) (record : ρ) (depth : Nat)
    (later : List (Field ρ)) :
    ∀ seen, shape.Awaits seen later → ∀ held,
      Fills (shape.fields.map (Field.slot depth)) seen held
        ((membersOf later record).map memberPiece) (membersDepth (membersOf later record) ≤ depth)
        (later.foldl (Field.restore record) held) := by
  induction later with
  | nil =>
    intro seen awaits held
    exact (Fills.done (awaits.find?_missing depth)).congr
      (iff_of_true trivial (Nat.zero_le depth))
  | cons field later ih =>
    intro seen awaits held
    have member := awaits.known field List.mem_cons_self
    by_cases omitted : field.omits (field.get record) = true
    · have skipped := awaits.skip ((lawful.fields field member).optional _ omitted)
      have same : membersOf (field :: later) record = membersOf later record := by
        simp [membersOf, Field.member?, omitted]
      rw [same, List.foldl_cons, Field.restore, if_pos omitted]
      exact ih seen skipped held
    · have written : membersOf (field :: later) record =
          (field.name, field.codec.write (field.get record)) :: membersOf later record := by
        simp [membersOf, Field.member?, omitted]
      rw [written, List.foldl_cons, Field.restore, if_neg omitted]
      have rest := ih (field.name :: seen) awaits.read (field.set (field.get record) held)
      have value := (lawful.fields field member).faithful.takes (field.get record) depth
      refine Fills.congr ?_ (membersDepth_cons_le_iff ..).symm
      exact .known (.string _) (find?_slot lawful.distinct member depth)
        (awaits.fresh field List.mem_cons_self) (fun more => (value more).map field.set) rest

theorem reads_members (lawful : shape.Lawful) (record : ρ) (depth : Nat) (others : List Token) :
    Reads (membersDepth (membersOf shape.fields record) ≤ depth)
      (Spells (memberTokens true (membersOf shape.fields record) ++ .closeObject :: others))
      (Reader.members (shape.fields.map (Field.slot depth)) shape.blank) record
      (Spells (.closeObject :: others)) := by
  have fills := fills_membersOf lawful record depth shape.fields [] lawful.awaits shape.blank
  rw [lawful.restored] at fills
  rw [memberTokens_eq]
  exact fills.reads_members others

end Record

theorem Failure.prefix_message (failure : Failure) (text : List UInt8) :
    failure.fault.message.toList <+: (failure.message text).toList := by
  unfold Failure.message
  cases failure.place with
  | none => exact List.prefix_rfl
  | some place =>
    simp only [String.toList_append, List.append_assoc]
    exact List.prefix_append ..

namespace Codec.Faithful

theorem record {shape : Record ρ} (lawful : shape.Lawful) : (Codec.record shape).Faithful where
  exact record := by
    refine .object fun member among => ?_
    obtain ⟨field, known, rfl⟩ := Record.exists_field_of_mem_membersOf among
    exact (lawful.fields field known).faithful.exact _
  takes record depth more := by
    have written : (Codec.record shape).write record =
        .object (Record.membersOf shape.fields record) := rfl
    rw [written, tokens_object_append]
    apply (Reader.reads_peekValue .openObject _).seq
    rw [if_pos (by rfl), Reader.map_inside]
    exact Reader.reads_bracketed (by rintro _ ⟨⟩; rfl) (Reader.reads_closeObject more)
      (fun depth => Record.reads_members lawful record depth more) depth

end Codec.Faithful

/-- A text is read as a value if its brackets nest at most 127 deep. If they nest deeper it is
refused, and the refusal begins with words for that. -/
structure Codec.ReadsBack (codec : Codec α) (text : String) (value : α) : Prop where
  ok (shallow : nesting text ≤ 127) : codec.ofText text = .ok value
  tooDeep (deep : 128 ≤ nesting text) : ∃ message, codec.ofText text = .error message ∧
    "recursion limit exceeded".toList <+: message.toList

/-- A value that a codec takes is read back from any text that spells it. -/
theorem Takes.readsBack {codec : Codec α} {json : Json} {value : α}
    (takes : Takes codec.read json value) {text : String}
    (spells : Spells json.tokens text.toList) : codec.ReadsBack text value := by
  have whole : Spells (json.tokens ++ []) text.toList := by rwa [List.append_nil]
  have reads := takes maxDepth []
  rw [← nesting_of_spells spells] at reads
  constructor
  · intro shallow
    obtain ⟨rest, read, left⟩ := reads.ok shallow text.toList whole
    simp only [Codec.ofText, Codec.ofOctets, Reader.readAll, read, left.dropWhile_nil,
      Except.mapError]
  · intro deep
    obtain ⟨failure, read, fault⟩ := reads.tooDeep (Nat.not_le_of_lt deep) text.toList whole
    have message := failure.prefix_message (encode text.toList)
    rw [fault] at message
    refine ⟨_, ?_, message⟩
    simp only [Codec.ofText, Codec.ofOctets, Reader.readAll, read, Except.mapError]

theorem Codec.Faithful.readsBack {codec : Codec α} (faithful : codec.Faithful) {value : α}
    {text : String} (spells : Spells (codec.write value).tokens text.toList) :
    codec.ReadsBack text value :=
  (faithful.takes value).readsBack spells

theorem Codec.toList_text (codec : Codec α) (value : α) :
    (codec.text value).toList = (codec.write value).compact := by
  rw [Codec.text, Json.text, String.toList_ofList]

theorem Codec.Faithful.spells_text {codec : Codec α} (faithful : codec.Faithful) (value : α) :
    Spells (codec.write value).tokens (codec.text value).toList := by
  rw [codec.toList_text]
  exact spells_compact (faithful.exact value)

theorem Codec.Faithful.spells_prettyText {codec : Codec α} (faithful : codec.Faithful) (value : α) :
    Spells (codec.write value).tokens (codec.write value).prettyText.toList := by
  rw [Json.prettyText, String.toList_ofList]
  exact spells_pretty (faithful.exact value)

theorem Codec.Faithful.readsBack_text {codec : Codec α} (faithful : codec.Faithful) (value : α) :
    codec.ReadsBack (codec.text value) value :=
  faithful.readsBack (faithful.spells_text value)

theorem Codec.Faithful.readsBack_prettyText {codec : Codec α} (faithful : codec.Faithful)
    (value : α) : codec.ReadsBack (codec.write value).prettyText value :=
  faithful.readsBack (faithful.spells_prettyText value)

/-- No text spells two values of a faithful codec: a reader that may open as many brackets as either
of them has would take it for both. -/
theorem Codec.Faithful.eq_of_spells {codec : Codec α} (faithful : codec.Faithful) {first second : α}
    {text : List Char} (one : Spells (codec.write first).tokens text)
    (other : Spells (codec.write second).tokens text) : first = second := by
  rw [← List.append_nil (codec.write first).tokens] at one
  rw [← List.append_nil (codec.write second).tokens] at other
  obtain ⟨_, readFirst, _⟩ := (faithful.takes first _ []).ok (Nat.le_max_left ..) text one
  obtain ⟨_, readSecond, _⟩ := (faithful.takes second _ []).ok (Nat.le_max_right ..) text other
  exact (Prod.mk.inj (Except.ok.inj (readFirst.symm.trans readSecond))).1

theorem Codec.Faithful.text_inj {codec : Codec α} (faithful : codec.Faithful) (first second : α) :
    codec.text first = codec.text second ↔ first = second := by
  refine ⟨fun same => ?_, congrArg codec.text⟩
  have spells := faithful.spells_text second
  rw [← same] at spells
  exact faithful.eq_of_spells (faithful.spells_text first) spells

end PermissionSchema.Json
