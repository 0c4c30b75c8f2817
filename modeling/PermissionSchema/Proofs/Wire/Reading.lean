import PermissionSchema.Wire.Field
import PermissionSchema.Proofs.Wire.Varint
/-!
What the readers of the wire format take from the front of octets: varints, keys, and values of each
wire type. A reader takes octets of its shape whatever stands behind them, and so the shapes end by
themselves.
-/
namespace PermissionSchema.Wire

variable {α β : Type}

/-- A reader succeeds exactly where octets of a shape stand in front, and takes these. -/
def Reads (reader : Reader α) (Shape : α → List UInt8 → Prop) : Prop :=
  ∀ input value after, reader input = .ok (value, after) ↔
    ∃ octets, input = octets ++ after ∧ Shape value octets

theorem bind_eq_ok {reader : Reader α} {next : α → Reader β} {input after : List UInt8} {value : β} :
    (reader >>= next) input = .ok (value, after) ↔
      ∃ first rest, reader input = .ok (first, rest) ∧ next first rest = .ok (value, after) := by
  change (reader input >>= fun result => next result.1 result.2) = _ ↔ _
  cases reader input with
  | error fault => simp [bind, Except.bind]
  | ok result =>
    obtain ⟨first, rest⟩ := result
    constructor
    · intro read
      exact ⟨first, rest, rfl, read⟩
    · intro read
      obtain ⟨first', rest', same, later⟩ := read
      cases same
      exact later

namespace Reads

variable {reader : Reader α} {Shape : α → List UInt8 → Prop}

theorem bind {next : α → Reader β} {Later : α → β → List UInt8 → Prop}
    (first : Reads reader Shape) (later : ∀ value, Reads (next value) (Later value)) :
    Reads (reader >>= next) fun value octets =>
      ∃ start front back, octets = front ++ back ∧ Shape start front ∧ Later start value back := by
  intro input value after
  rw [bind_eq_ok]
  constructor
  · intro read
    obtain ⟨start, rest, begins, ends⟩ := read
    obtain ⟨front, split, shape⟩ := (first _ _ _).mp begins
    obtain ⟨back, divided, tail⟩ := (later start _ _ _).mp ends
    exact ⟨front ++ back, by rw [split, divided, List.append_assoc], start, front, back, rfl, shape,
      tail⟩
  · intro stands
    obtain ⟨octets, split, start, front, back, divided, shape, tail⟩ := stands
    refine ⟨start, back ++ after, (first _ _ _).mpr ⟨front, ?_, shape⟩,
      (later start _ _ _).mpr ⟨back, rfl, tail⟩⟩
    rw [split, divided, List.append_assoc]

theorem pure (value : α) : Reads (pure value) fun other octets => octets = [] ∧ other = value := by
  intro input other after
  constructor
  · intro read
    cases read
    exact ⟨[], rfl, rfl, rfl⟩
  · intro stands
    obtain ⟨octets, split, none, same⟩ := stands
    rw [split, same, none]
    rfl

theorem congr {Other : α → List UInt8 → Prop} (reads : Reads reader Shape)
    (same : ∀ value octets, Shape value octets ↔ Other value octets) : Reads reader Other := by
  intro input value after
  rw [reads input value after]
  simp only [same]

theorem bind_without_octets {next : α → Reader β} {Made : α → β → Prop} (first : Reads reader Shape)
    (later : ∀ value, Reads (next value) fun made octets => octets = [] ∧ Made value made) :
    Reads (reader >>= next) fun made octets => ∃ value, Shape value octets ∧ Made value made := by
  apply (first.bind later).congr
  intro made octets
  constructor
  · intro stands
    obtain ⟨value, front, back, split, shape, none, making⟩ := stands
    rw [none, List.append_nil] at split
    exact ⟨value, split ▸ shape, making⟩
  · intro stands
    obtain ⟨value, shape, making⟩ := stands
    exact ⟨value, octets, [], (List.append_nil octets).symm, shape, rfl, making⟩

theorem ignored (reads : Reads reader Shape) :
    Reads (reader >>= fun _ => Pure.pure ()) fun _ octets => ∃ value, Shape value octets :=
  (reads.bind_without_octets fun _ => pure ()).congr fun _ _ => by simp

/-- Octets of the shape of a reader end by themselves. -/
theorem eq_of_append (reads : Reads reader Shape) {first second : α}
    {octets others behind beyond : List UInt8} (shape : Shape first octets)
    (other : Shape second others) (same : octets ++ behind = others ++ beyond) :
    first = second ∧ octets = others ∧ behind = beyond := by
  have one := (reads _ first behind).mpr ⟨octets, rfl, shape⟩
  have two := (reads _ second beyond).mpr ⟨others, rfl, other⟩
  rw [same] at one
  obtain ⟨values, rests⟩ := Prod.mk.inj (Except.ok.inj (one.symm.trans two))
  subst rests
  exact ⟨values, List.append_cancel_right same, rfl⟩

end Reads

theorem reads_readVarint : Reads readVarint Varint :=
  fun _ _ _ => readVarint_eq_ok_iff

theorem reads_take (count : Nat) :
    Reads (take count) fun taken octets => taken = octets ∧ octets.length = count := by
  intro input taken after
  unfold take
  constructor
  · intro read
    split at read
    next enough =>
      cases read
      exact ⟨input.take count, (List.take_append_drop count input).symm, rfl,
        List.length_take_of_le enough⟩
    next => cases read
  · intro stands
    obtain ⟨octets, split, same, length⟩ := stands
    have enough : count ≤ input.length := by
      rw [split, List.length_append, length]
      exact Nat.le_add_right _ _
    rw [if_pos enough, split, ← length, List.take_left, List.drop_left, same]

def Delimited (content octets : List UInt8) : Prop :=
  ∃ length, octets = length ++ content ∧ Varint content.length length

theorem reads_takeDelimited : Reads takeDelimited Delimited := by
  apply (reads_readVarint.bind reads_take).congr
  intro content octets
  constructor
  · intro stands
    obtain ⟨count, length, back, split, spelled, same, counted⟩ := stands
    subst same counted
    exact ⟨length, split, spelled⟩
  · intro stands
    obtain ⟨length, split, spelled⟩ := stands
    exact ⟨_, length, content, split, spelled, rfl, rfl⟩

def WireType.number : WireType → Nat
  | .varint => 0
  | .fixed64 => 1
  | .lengthDelimited => 2
  | .groupStart => 3
  | .groupEnd => 4
  | .fixed32 => 5

theorem WireType.number_lt (wireType : WireType) : wireType.number < 8 := by
  cases wireType <;> decide

theorem WireType.ofNumber?_eq_some_iff {number : Nat} {wireType : WireType} :
    ofNumber? number = some wireType ↔ wireType.number = number := by
  constructor
  · intro known
    unfold ofNumber? at known
    split at known <;> cases known <;> rfl
  · intro same
    subst same
    cases wireType <;> rfl

/-- The octets of a key: a varint of 32 bits with the number of the field above the wire type. No
field has the number 0. -/
structure Key.Spelled (key : Key) (octets : List UInt8) : Prop where
  varint : Varint (key.field * 8 + key.wireType.number) octets
  positive : 0 < key.field
  fits : key.field * 8 + key.wireType.number < 0x100000000

theorem Key.ofNumber_eq_ok_iff {number : Nat} {key : Key} :
    Key.ofNumber number = .ok key ↔
      number = key.field * 8 + key.wireType.number ∧ 0 < key.field ∧ number < 0x100000000 := by
  obtain ⟨field, wireType⟩ := key
  have small := wireType.number_lt
  constructor
  · intro known
    unfold Key.ofNumber at known
    split at known
    next => cases known
    next fits =>
      split at known
      next => cases known
      next other found =>
        split at known
        next => cases known
        next positive =>
          cases known
          have type := WireType.ofNumber?_eq_some_iff.mp found
          refine ⟨?_, Nat.pos_of_ne_zero positive, Nat.lt_of_not_le fits⟩
          dsimp only
          omega
  · intro known
    dsimp only at known
    obtain ⟨same, positive, fits⟩ := known
    have field' : number / 8 = field := by omega
    have type : WireType.ofNumber? (number % 8) = some wireType :=
      WireType.ofNumber?_eq_some_iff.mpr (by omega)
    rw [Key.ofNumber, if_neg (Nat.not_le.mpr fits), type, field']
    exact if_neg (Nat.ne_of_gt positive)

theorem reads_readKey : Reads readKey Key.Spelled := by
  intro input key after
  unfold readKey
  rw [bind_eq_ok]
  constructor
  · intro read
    obtain ⟨number, rest, spelled, known⟩ := read
    obtain ⟨octets, split, varint⟩ := readVarint_eq_ok_iff.mp spelled
    cases found : Key.ofNumber number with
    | error fault =>
      rw [found] at known
      cases known
    | ok other =>
      rw [found] at known
      cases known
      obtain ⟨same, positive, fits⟩ := Key.ofNumber_eq_ok_iff.mp found
      exact ⟨octets, split, same ▸ varint, positive, same ▸ fits⟩
  · intro stands
    obtain ⟨octets, split, spelled⟩ := stands
    refine ⟨_, after, readVarint_eq_ok_iff.mpr ⟨octets, split, spelled.varint⟩, ?_⟩
    rw [Key.ofNumber_eq_ok_iff.mpr ⟨rfl, spelled.positive, spelled.fits⟩]
    rfl

theorem Key.Spelled.length_pos {key : Key} {octets : List UInt8} (spelled : key.Spelled octets) :
    0 < octets.length :=
  spelled.varint.septets.length_pos

theorem Key.spelled_single {key : Key} (positive : 0 < key.field)
    (small : key.field * 8 + key.wireType.number < 128) :
    key.Spelled [(key.field * 8 + key.wireType.number).toUInt8] where
  varint := varint_short small ▸ varint_spells (by omega)
  positive := positive
  fits := by omega

inductive Group (Inside : Key → List UInt8 → Prop) (field : Nat) : List UInt8 → Prop where
  | close {octets : List UInt8} (key : Key.Spelled ⟨field, .groupEnd⟩ octets) :
      Group Inside field octets
  | field {key : Key} {first value rest : List UInt8} (begins : key.wireType ≠ .groupEnd)
      (spelled : key.Spelled first) (inside : Inside key value) (later : Group Inside field rest) :
      Group Inside field (first ++ (value ++ rest))

/-- The octets of a value behind a key, with groups in it nested at most so many levels deep. -/
def Key.Value : Nat → Key → List UInt8 → Prop
  | 0, _, _ => False
  | depth + 1, key, octets =>
    match key.wireType with
    | .varint => ∃ value, Varint value octets
    | .fixed64 => octets.length = 8
    | .fixed32 => octets.length = 4
    | .lengthDelimited => ∃ content, Delimited content octets
    | .groupStart => Group (Key.Value depth) key.field octets
    | .groupEnd => False

section

variable {skip : Key → Reader Unit} {Inside : Key → List UInt8 → Prop}

theorem group_of_skipGroup (skips : ∀ key, Reads (skip key) fun _ => Inside key) {field bound : Nat}
    {input after : List UInt8} (read : skipGroup skip field bound input = .ok ((), after)) :
    ∃ octets, input = octets ++ after ∧ Group Inside field octets := by
  induction bound generalizing input with
  | zero => cases read
  | succ bound ih =>
    unfold skipGroup at read
    obtain ⟨key, rest, begins, ends⟩ := bind_eq_ok.mp read
    obtain ⟨first, split, spelled⟩ := (reads_readKey _ _ _).mp begins
    split at ends
    next closes =>
      split at ends
      next same =>
        cases ends
        obtain ⟨number, wireType⟩ := key
        dsimp only at closes same
        subst closes same
        exact ⟨first, split, .close spelled⟩
      next => cases ends
    next opens =>
      obtain ⟨_, next, skipped, more⟩ := bind_eq_ok.mp ends
      obtain ⟨value, divided, inside⟩ := (skips key _ _ _).mp skipped
      obtain ⟨octets, whole, later⟩ := ih more
      refine ⟨first ++ (value ++ octets), ?_, .field opens spelled inside later⟩
      rw [split, divided, whole, List.append_assoc, List.append_assoc]

theorem skipGroup_of_group (skips : ∀ key, Reads (skip key) fun _ => Inside key) {field bound : Nat}
    {octets : List UInt8} (group : Group Inside field octets) (enough : octets.length ≤ bound)
    (after : List UInt8) : skipGroup skip field bound (octets ++ after) = .ok ((), after) := by
  induction group generalizing bound with
  | close spelled =>
    have some := spelled.length_pos
    obtain ⟨bound, rfl⟩ := Nat.exists_eq_add_of_le' (show 1 ≤ bound by omega)
    unfold skipGroup
    refine bind_eq_ok.mpr ⟨_, after, (reads_readKey _ _ _).mpr ⟨_, rfl, spelled⟩, ?_⟩
    rw [if_pos rfl, if_pos rfl]
    rfl
  | @field key first value rest opens spelled inside later ih =>
    have some := spelled.length_pos
    simp only [List.length_append] at enough
    obtain ⟨bound, rfl⟩ := Nat.exists_eq_add_of_le' (show 1 ≤ bound by omega)
    unfold skipGroup
    refine bind_eq_ok.mpr ⟨key, value ++ (rest ++ after),
      (reads_readKey _ _ _).mpr ⟨first, by simp only [List.append_assoc], spelled⟩, ?_⟩
    rw [if_neg opens]
    exact bind_eq_ok.mpr ⟨(), rest ++ after, (skips key _ _ _).mpr ⟨value, rfl, inside⟩,
      ih (by omega)⟩

end

theorem reads_skipField (depth : Nat) (key : Key) :
    Reads (skipField depth key) fun _ octets => key.Value depth octets := by
  induction depth generalizing key with
  | zero =>
    intro input value after
    constructor
    · intro read
      cases read
    · intro stands
      obtain ⟨octets, _, none⟩ := stands
      exact none.elim
  | succ depth ih =>
    unfold skipField Key.Value
    cases key.wireType with
    | varint => exact reads_readVarint.ignored
    | fixed64 => exact (reads_take 8).ignored.congr fun _ _ => by simp
    | fixed32 => exact (reads_take 4).ignored.congr fun _ _ => by simp
    | lengthDelimited => exact reads_takeDelimited.ignored
    | groupStart =>
      intro input value after
      constructor
      · intro read
        exact group_of_skipGroup ih read
      · intro stands
        obtain ⟨octets, split, group⟩ := stands
        rw [split]
        refine skipGroup_of_group ih group ?_ after
        rw [List.length_append]
        omega
    | groupEnd =>
      intro input value after
      constructor
      · intro read
        cases read
      · intro stands
        obtain ⟨octets, _, none⟩ := stands
        exact none.elim

end PermissionSchema.Wire
