import PermissionSchema.Wire.Message
import PermissionSchema.Proofs.Wire.Reading
/-!
Messages as lists of fields. Octets are cut into fields in at most one way, and the fields of two
messages put together are those of the first and then those of the second. What a message tells is
what its last field with number 1 has, and what was held before it if there is none.
-/
namespace PermissionSchema.Wire

structure Field where
  key : Key
  value : List UInt8
  deriving DecidableEq, Repr

inductive Fields : List Field → List UInt8 → Prop where
  | done : Fields [] []
  | next {field : Field} {fields : List Field} {key rest : List UInt8}
      (spelled : field.key.Spelled key) (valued : field.key.Value maxDepth field.value)
      (later : Fields fields rest) : Fields (field :: fields) (key ++ (field.value ++ rest))

def HasField (number : Nat) (octets : List UInt8) : Prop :=
  ∃ fields, Fields fields octets ∧ ∃ field ∈ fields, field.key.field = number

def LacksField (number : Nat) (octets : List UInt8) : Prop :=
  ∃ fields, Fields fields octets ∧ ∀ field ∈ fields, field.key.field ≠ number

namespace Fields

variable {fields others : List Field} {front back : List UInt8}

theorem append (first : Fields fields front) (second : Fields others back) :
    Fields (fields ++ others) (front ++ back) := by
  induction first with
  | done => exact second
  | next spelled valued _ ih =>
    simp only [List.append_assoc, List.cons_append]
    exact .next spelled valued ih

/-- Where fields stand in front, octets are cut into these and what stands behind. -/
theorem exists_of_append (first : Fields fields front) (whole : Fields others (front ++ back)) :
    ∃ rest, others = fields ++ rest ∧ Fields rest back := by
  induction first generalizing others with
  | done => exact ⟨others, rfl, whole⟩
  | @next field fields key rest spelled valued later ih =>
    simp only [List.append_assoc] at whole
    generalize octets : key ++ (field.value ++ (rest ++ back)) = all at whole
    cases whole with
    | done =>
      have some := spelled.length_pos
      rw [(List.append_eq_nil_iff.mp octets).1] at some
      exact absurd some (Nat.lt_irrefl 0)
    | @next other others key' rest' spelled' valued' later' =>
      obtain ⟨keys, _, values⟩ := reads_readKey.eq_of_append spelled spelled' octets
      obtain ⟨otherKey, otherValue⟩ := other
      dsimp only at keys valued' values
      subst keys
      obtain ⟨_, same, after⟩ :=
        @Reads.eq_of_append _ _ _ (reads_skipField maxDepth field.key) () () _ _ _ _ valued valued'
          values
      subst same
      obtain ⟨more, split, tail⟩ := ih (after ▸ later')
      exact ⟨more, by rw [split]; rfl, tail⟩

theorem eq_nil (none : Fields fields []) : fields = [] := by
  generalize octets : ([] : List UInt8) = all at none
  cases none with
  | done => rfl
  | next spelled _ _ =>
    have some := spelled.length_pos
    rw [(List.append_eq_nil_iff.mp octets.symm).1] at some
    exact absurd some (Nat.lt_irrefl 0)

theorem unique (first : Fields fields front) (second : Fields others front) : others = fields := by
  rw [← List.append_nil front] at second
  obtain ⟨rest, split, none⟩ := first.exists_of_append second
  rw [split, none.eq_nil, List.append_nil]

theorem hasField_iff (cut : Fields fields front) (number : Nat) :
    HasField number front ↔ ∃ field ∈ fields, field.key.field = number := by
  constructor
  · intro has
    obtain ⟨others, again, found⟩ := has
    rwa [cut.unique again] at found
  · intro found
    exact ⟨fields, cut, found⟩

end Fields

section

variable {α : Type}

/-- What is held in the end of the values of the known field, which are octets of a shape behind
keys of a wire type. -/
inductive Carries (wireType : WireType) (Shape : α → List UInt8 → Prop) :
    α → List Field → α → Prop where
  | done {held : α} : Carries wireType Shape held [] held
  | known {held value last : α} {field : Field} {fields : List Field}
      (key : field.key = ⟨1, wireType⟩) (shape : Shape value field.value)
      (later : Carries wireType Shape value fields last) :
      Carries wireType Shape held (field :: fields) last
  | other {held last : α} {field : Field} {fields : List Field} (number : field.key.field ≠ 1)
      (later : Carries wireType Shape held fields last) :
      Carries wireType Shape held (field :: fields) last

namespace Carries

variable {wireType : WireType} {Shape : α → List UInt8 → Prop} {held middle last : α}
  {fields others : List Field}

theorem append (first : Carries wireType Shape held fields middle)
    (second : Carries wireType Shape middle others last) :
    Carries wireType Shape held (fields ++ others) last := by
  induction first with
  | done => exact second
  | known key shape _ ih => exact .known key shape (ih second)
  | other number _ ih => exact .other number (ih second)

/-- Fields of other numbers leave what was held. -/
theorem of_others (held : α) (unknown : ∀ field ∈ fields, field.key.field ≠ 1) :
    Carries wireType Shape held fields held := by
  induction fields with
  | nil => exact .done
  | cons field fields ih =>
    obtain ⟨number, later⟩ := List.forall_mem_cons.mp unknown
    exact .other number (ih later)

theorem behind_others (unknown : ∀ field ∈ fields, field.key.field ≠ 1)
    (carries : Carries wireType Shape held (fields ++ others) last) :
    Carries wireType Shape held others last := by
  induction fields with
  | nil => exact carries
  | cons field fields ih =>
    obtain ⟨number, later⟩ := List.forall_mem_cons.mp unknown
    cases carries with
    | known key shape rest => exact absurd (by rw [key]) number
    | other _ rest => exact ih later rest

/-- Behind a known field it does not matter what was held before. -/
theorem of_mem (carries : Carries wireType Shape held fields last)
    (found : ∃ field ∈ fields, field.key.field = 1) (before : α) :
    Carries wireType Shape before fields last := by
  induction carries generalizing before with
  | done => simp at found
  | known key shape later _ => exact .known key shape later
  | other number _ ih =>
    obtain ⟨field, member, first⟩ := found
    rcases List.mem_cons.mp member with here | there
    · exact absurd (here ▸ first) number
    · exact .other number (ih ⟨field, there, first⟩ before)

end Carries

structure Known.Lawful (known : Known α) (Shape : α → List UInt8 → Prop) : Prop where
  reads : Reads known.value Shape
  valued : ∀ value octets, Shape value octets → Key.Value maxDepth ⟨1, known.wireType⟩ octets

variable {known : Known α} {Shape : α → List UInt8 → Prop}

/-- One turn of the loop over fields. -/
theorem fieldsUpTo_of_key {bound : Nat} {held : α} {key : Key} {first after : List UInt8}
    (spelled : key.Spelled first) :
    fieldsUpTo known (bound + 1) held (first ++ after) =
      if key.field = 1 then
        if key.wireType = known.wireType then
          match known.value after with
          | .error fault => .error ⟨some known.label, fault⟩
          | .ok (value, next) => fieldsUpTo known bound value next
        else .error ⟨some known.label, .wrongWireType key.wireType known.wireType⟩
      else
        match skipField maxDepth key after with
        | .error fault => .error ⟨none, fault⟩
        | .ok ((), next) => fieldsUpTo known bound held next := by
  have read := (reads_readKey _ key after).mpr ⟨first, rfl, spelled⟩
  obtain ⟨octet, rest, same⟩ := List.exists_cons_of_length_pos spelled.length_pos
  rw [same, List.cons_append] at read ⊢
  rewrite [fieldsUpTo, read]
  rfl

theorem fields_of_fieldsUpTo (lawful : known.Lawful Shape) {bound : Nat} {held last : α}
    {octets : List UInt8} (read : fieldsUpTo known bound held octets = .ok last) :
    ∃ fields, Fields fields octets ∧ Carries known.wireType Shape held fields last := by
  induction bound generalizing held octets with
  | zero =>
    cases octets with
    | nil =>
      cases read
      exact ⟨[], .done, .done⟩
    | cons octet rest => cases read
  | succ bound ih =>
    cases octets with
    | nil =>
      cases read
      exact ⟨[], .done, .done⟩
    | cons octet rest =>
      cases begins : readKey (octet :: rest) with
      | error fault =>
        rw [fieldsUpTo, begins] at read
        cases read
      | ok result =>
        obtain ⟨key, after⟩ := result
        obtain ⟨first, split, spelled⟩ := (reads_readKey _ _ _).mp begins
        rw [split, fieldsUpTo_of_key spelled] at read
        rw [split]
        split at read
        next number =>
          split at read
          next wireType =>
            split at read
            next => cases read
            next value next found =>
              obtain ⟨octets, divided, shape⟩ := (lawful.reads _ _ _).mp found
              obtain ⟨fields, cut, carries⟩ := ih read
              have same : key = ⟨1, known.wireType⟩ := by
                obtain ⟨field, type⟩ := key
                dsimp only at number wireType
                rw [number, wireType]
              refine ⟨⟨key, octets⟩ :: fields, ?_, .known same shape carries⟩
              rw [divided]
              exact .next spelled (same ▸ lawful.valued value octets shape) cut
          next => cases read
        next number =>
          split at read
          next => cases read
          next next skipped =>
            obtain ⟨octets, divided, valued⟩ := (reads_skipField _ _ _ _ _).mp skipped
            obtain ⟨fields, cut, carries⟩ := ih read
            refine ⟨⟨key, octets⟩ :: fields, ?_, .other number carries⟩
            rw [divided]
            exact .next spelled valued cut

theorem fieldsUpTo_of_fields (lawful : known.Lawful Shape) {bound : Nat} {held last : α}
    {fields : List Field} {octets : List UInt8} (cut : Fields fields octets)
    (carries : Carries known.wireType Shape held fields last) (enough : octets.length ≤ bound) :
    fieldsUpTo known bound held octets = .ok last := by
  induction cut generalizing bound held with
  | done =>
    cases carries with
    | done => cases bound <;> rfl
  | @next field fields key rest spelled valued later ih =>
    have some := spelled.length_pos
    simp only [List.length_append] at enough
    obtain ⟨bound, rfl⟩ := Nat.exists_eq_add_of_le' (show 1 ≤ bound by omega)
    rw [fieldsUpTo_of_key spelled]
    cases carries with
    | known same shape carries =>
      have read := (lawful.reads _ _ rest).mpr ⟨_, rfl, shape⟩
      rw [same, if_pos rfl, if_pos rfl, read]
      exact ih carries (by omega)
    | other number carries =>
      have skipped := (reads_skipField maxDepth field.key _ () rest).mpr ⟨_, rfl, valued⟩
      rw [if_neg number, skipped]
      exact ih carries (by omega)

/-- A payload is read exactly if it is well-formed fields, and then to what these carry. -/
theorem decode_eq_ok_iff (lawful : known.Lawful Shape) {blank value : α} {payload : List UInt8} :
    decode known blank payload = .ok value ↔
      ∃ fields, Fields fields payload ∧ Carries known.wireType Shape blank fields value := by
  constructor
  · exact fields_of_fieldsUpTo lawful
  · intro told
    obtain ⟨fields, cut, carries⟩ := told
    exact fieldsUpTo_of_fields lawful cut carries (Nat.le_refl _)

theorem map_decode_eq_ok_iff {β : Type} (lawful : known.Lawful Shape) {make : α → β}
    (distinct : Function.Injective make) {blank value : α} {payload : List UInt8} :
    (decode known blank payload).map make = .ok (make value) ↔
      ∃ fields, Fields fields payload ∧ Carries known.wireType Shape blank fields value := by
  rw [← decode_eq_ok_iff lawful]
  cases decode known blank payload with
  | error failure => simp [Except.map]
  | ok other => simp [Except.map, distinct.eq_iff]

end

end PermissionSchema.Wire
