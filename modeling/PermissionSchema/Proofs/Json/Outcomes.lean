import PermissionSchema.Json.Choice
import PermissionSchema.Json.Codec
/-!
What readers can come to, whatever text they are given: a property of all values that a reader
yields follows from what the readers within it yield.
-/
namespace PermissionSchema.Json.Reader

variable {α β ρ τ : Type}

theorem bind_eq_ok {reader : Reader β} {next : β → Reader α} {input rest : List UInt8} {result : α} :
    (reader >>= next) input = .ok (result, rest) ↔
      ∃ value middle, reader input = .ok (value, middle) ∧
        next value middle = .ok (result, rest) := by
  simp only [Bind.bind, StateT.bind, Except.bind]
  cases reader input with
  | error failure => simp
  | ok found =>
    obtain ⟨value, middle⟩ := found
    constructor
    · exact fun read => ⟨value, middle, rfl, read⟩
    · rintro ⟨_, _, ⟨⟩, read⟩
      exact read

theorem map_eq_ok {reader : Reader β} {change : β → α} {input rest : List UInt8} {result : α} :
    (change <$> reader) input = .ok (result, rest) ↔
      ∃ value, reader input = .ok (value, rest) ∧ change value = result := by
  rw [map_eq_pure_bind, bind_eq_ok]
  constructor
  · rintro ⟨value, middle, read, made⟩
    cases made
    exact ⟨value, read, rfl⟩
  · rintro ⟨value, read, rfl⟩
    exact ⟨value, rest, read, rfl⟩

/-- What stands in brackets is read only with the bracket that closes them. -/
theorem thenClose_eq_ok {inside : Reader α} {close : Reader Unit} {input rest : List UInt8}
    {value : α} :
    thenClose inside close input = .ok (value, rest) ↔
      ∃ between, inside input = .ok (value, between) ∧ close between = .ok ((), rest) := by
  constructor
  · intro read
    simp only [thenClose] at read
    split at read
    · rename_i held between inner
      split at read
      · rename_i after closed
        cases read
        exact ⟨between, inner, closed⟩
      · cases read
    · split at read <;> cases read
  · rintro ⟨between, inner, closed⟩
    simp only [thenClose, inner, closed]

def Yields (reader : Reader α) (property : α → Prop) : Prop :=
  ∀ ⦃input value rest⦄, reader input = .ok (value, rest) → property value

def Keeps (property : ρ → Prop) (put : ρ → ρ) : Prop :=
  ∀ held, property held → property (put held)

namespace Yields

variable {property : α → Prop} {first : β → Prop}

theorem anything (reader : Reader α) : reader.Yields fun _ => True :=
  fun _ _ _ _ => trivial

theorem mono {reader : Reader α} {weaker : α → Prop} (yields : reader.Yields property)
    (implies : ∀ value, property value → weaker value) : reader.Yields weaker :=
  fun _ value _ read => implies value (yields read)

theorem pure {value : α} (holds : property value) :
    (Pure.pure value : Reader α).Yields property := by
  intro input other rest read
  cases read
  exact holds

/-- A field that a property does not speak of keeps it, whatever is read there. -/
theorem untouched {reader : Reader α} {put : α → ρ → ρ} {property : ρ → Prop}
    (same : ∀ value held, property held → property (put value held)) :
    reader.Yields fun value => Keeps property (put value) :=
  fun _ value _ _ => same value

theorem failHere (fault : Fault) : (failHere fault : Reader α).Yields property := nofun

theorem failNext (fault : Fault) : (failNext fault : Reader α).Yields property := nofun

theorem failUnplaced (fault : Fault) : (failUnplaced fault : Reader α).Yields property := nofun

theorem bind {reader : Reader β} {next : β → Reader α} (leading : reader.Yields first)
    (trailing : ∀ value, first value → (next value).Yields property) :
    (reader >>= next).Yields property := by
  intro input result rest read
  obtain ⟨value, middle, before, behind⟩ := bind_eq_ok.mp read
  exact trailing value (leading before) behind

theorem seq {reader : Reader β} {next : β → Reader α}
    (trailing : ∀ value, (next value).Yields property) : (reader >>= next).Yields property :=
  (anything reader).bind fun value _ => trailing value

theorem map {reader : Reader β} {change : β → α}
    (yields : reader.Yields fun value => property (change value)) :
    (change <$> reader).Yields property := by
  rw [map_eq_pure_bind]
  exact yields.bind fun _ holds => .pure holds

theorem ite {condition : Prop} [Decidable condition] {yes no : Reader α}
    (holding : yes.Yields property) (failing : no.Yields property) :
    (if condition then yes else no).Yields property := by
  split
  · exact holding
  · exact failing

theorem thenClose {inside : Reader α} {close : Reader Unit} (yields : inside.Yields property) :
    (thenClose inside close).Yields property := by
  intro input value rest read
  obtain ⟨between, held, _⟩ := thenClose_eq_ok.mp read
  exact yields held

theorem bracketed {close : Reader Unit} {inside : Option (Reader α)}
    (yields : ∀ reader, inside = some reader → reader.Yields property) :
    (bracketed close inside).Yields property := by
  cases inside with
  | none => exact failNext .tooDeep
  | some reader => exact .seq fun _ => thenClose (yields reader rfl)

theorem refuse (expected : String) : (refuse expected : Reader α).Yields property := by
  refine .seq fun octet => ?_
  refine .ite (.seq fun _ => failHere _) ?_
  refine .ite (.seq fun _ => failHere _) ?_
  refine .ite (.seq fun _ => failHere _) ?_
  refine .ite (.seq fun _ => failHere _) ?_
  refine .ite (.seq fun _ => .seq fun _ => failHere _) ?_
  exact .ite (failHere _) (.ite (failHere _) (failNext _))

theorem elementsUpTo {element : Reader α} (yields : element.Yields property) :
    ∀ bound atFirst, (elementsUpTo element bound atFirst).Yields fun values =>
      ∀ value ∈ values, property value := by
  intro bound
  induction bound with
  | zero => exact fun _ => failNext .endInList
  | succ bound ih =>
    intro atFirst
    refine .seq fun more => .ite ?_ (.pure (by simp))
    refine yields.bind fun value holds => (ih false).bind fun values later => .pure ?_
    exact List.forall_mem_cons.mpr ⟨holds, later⟩

/-- A list is only read where its brackets may be opened, and its elements one level below. -/
theorem sequence {element : Nat → Reader α} {depth : Nat}
    (yields : ∀ within, depth = within + 1 → (element within).Yields property) :
    (sequence (inside element depth)).Yields fun values =>
      0 < depth ∧ ∀ value ∈ values, property value := by
  refine .seq fun octet => .ite (bracketed fun reader known => ?_) (refuse _)
  cases depth with
  | zero => cases known
  | succ within =>
    cases known
    intro input values rest read
    exact ⟨Nat.succ_pos within, elementsUpTo (yields within rfl) _ true read⟩

theorem optional {value : Reader α} (yields : value.Yields property) :
    (optional value).Yields fun held => ∀ value ∈ held, property value := by
  have present : (some <$> value).Yields fun held => ∀ value ∈ held, property value :=
    map (yields.mono fun value holds => by simpa using holds)
  intro input held rest read
  simp only [Reader.optional] at read
  split at read
  · exact present read
  · split at read
    · exact (seq fun _ => pure (by simp) : (do nullWord; Pure.pure none : Reader (Option α)).Yields
        fun held => ∀ value ∈ held, property value) read
    · exact present read

theorem membersUpTo {slots : List (Slot ρ)} {property : ρ → Prop}
    (puts : ∀ slot ∈ slots, slot.value.Yields (Keeps property)) :
    ∀ bound atFirst seen held, property held →
      (membersUpTo slots bound atFirst seen held).Yields property := by
  intro bound
  induction bound with
  | zero => exact fun _ _ _ _ => failNext .endInObject
  | succ bound ih =>
    intro atFirst seen held holds
    refine .seq fun more => .ite ?_ ?_
    · refine .seq fun _ => .seq fun name => ?_
      split
      · exact .seq fun _ => .seq fun _ => ih false seen held holds
      · rename_i slot found
        refine .ite (failUnplaced _) (.seq fun _ => ?_)
        refine (puts slot (List.mem_of_find?_eq_some found)).bind fun put keeps => ?_
        exact ih false (name :: seen) (put held) (keeps held holds)
    · split
      · exact failUnplaced _
      · exact .pure holds

theorem positions {label : String} {count : Nat} {slots : List (Slot ρ)} {property : ρ → Prop}
    (puts : ∀ slot ∈ slots, slot.value.Yields (Keeps property)) :
    ∀ index atFirst held, property held →
      (positions label count slots index atFirst held).Yields property := by
  induction slots with
  | nil => exact fun _ _ _ holds => .pure holds
  | cons slot slots ih =>
    intro index atFirst held holds
    have later := ih fun other among => puts other (List.mem_cons_of_mem _ among)
    refine .seq fun more => .ite ?_ (.ite (later _ _ held holds) (failUnplaced _))
    refine (puts slot List.mem_cons_self).bind fun put keeps => ?_
    exact later _ _ (put held) (keeps held holds)

/-- What is known of a blank record and kept by every field is known of all records that are read.
Records are only read where their brackets may be opened. -/
theorem record {shape : Record ρ} {depth : Nat} {property : ρ → Prop} (blank : property shape.blank)
    (fields : ∀ within, depth = within + 1 → ∀ field ∈ shape.fields,
      (field.codec.read within).Yields fun value => Keeps property (field.set value)) :
    ((Codec.record shape).read depth).Yields fun record => 0 < depth ∧ property record := by
  cases depth with
  | zero => exact .seq fun octet => .ite (failNext _) (.ite (failNext _) (refuse _))
  | succ within =>
    have puts : ∀ slot ∈ shape.fields.map (Field.slot within),
        slot.value.Yields (Keeps property) := by
      intro slot member
      obtain ⟨field, among, rfl⟩ := List.mem_map.mp member
      exact .map (fields within rfl field among)
    have members : (Reader.members (shape.fields.map (Field.slot within)) shape.blank).Yields
        fun record => 0 < within + 1 ∧ property record :=
      fun _ _ _ read => ⟨Nat.succ_pos within, membersUpTo puts _ true [] shape.blank blank read⟩
    have listed : (Reader.positions shape.label (shape.fields.map (Field.slot within)).length
        (shape.fields.map (Field.slot within)) 0 true shape.blank).Yields
        fun record => 0 < within + 1 ∧ property record :=
      fun _ _ _ read => ⟨Nat.succ_pos within, positions puts 0 true shape.blank blank read⟩
    refine .seq fun octet => .ite ?_ (.ite ?_ (refuse _))
    · exact .seq fun _ => thenClose members
    · exact .seq fun _ => thenClose listed

theorem record_brackets (shape : Record ρ) (depth : Nat) :
    ((Codec.record shape).read depth).Yields fun _ => 0 < depth := by
  have known : ((Codec.record shape).read depth).Yields fun _ => 0 < depth ∧ True :=
    record trivial fun _ _ _ _ => untouched fun _ _ _ => trivial
  exact known.mono fun _ both => both.1

theorem choice {variants : Variants τ α} {payload : Nat → τ → Reader α} {depth : Nat}
    (bare : ∀ tag value, variants.bare tag = .ok value → property value)
    (holds : ∀ within tag expected, depth = within + 1 → variants.bare tag = .error expected →
      (payload within tag).Yields property) :
    (choice variants (inside payload depth)).Yields property := by
  refine .seq fun octet => .ite ?_ (.ite ?_ (failNext _))
  · refine .seq fun _ => .seq fun name => .seq fun tag => ?_
    split
    · exact .pure (bare tag _ ‹_›)
    · exact failUnplaced _
  · cases depth with
    | zero => exact failNext _
    | succ within =>
      have inner : (variant variants (payload within)).Yields property := by
        refine .seq fun octet => .ite ?_ (.ite (failNext _) (failNext _))
        refine .seq fun _ => .seq fun name => .seq fun tag => .seq fun _ => ?_
        split
        · exact .seq fun _ => .pure (bare tag _ ‹_›)
        · exact holds within tag _ rfl ‹_›
      exact .seq fun _ => inner.bind fun value held => .seq fun _ => .pure held

end Yields

theorem readAll_eq_ok {reader : Reader α} {text : List UInt8} {value : α} :
    reader.readAll text = .ok value ↔
      ∃ rest, reader text = .ok (value, rest) ∧ rest.dropWhile Octet.isBlank = [] := by
  simp only [readAll]
  constructor
  · intro whole
    split at whole
    · cases whole
    · rename_i held rest read
      split at whole
      · rename_i behind
        cases whole
        exact ⟨rest, read, behind⟩
      · cases whole
  · rintro ⟨rest, read, behind⟩
    simp only [read, behind]

theorem ofText_eq_ok {codec : Codec α} {text : String} {value : α} :
    codec.ofText text = .ok value ↔
      ∃ rest, codec.read maxDepth (Text.Utf8.encode text.toList) = .ok (value, rest) ∧
        rest.dropWhile Octet.isBlank = [] := by
  rw [← readAll_eq_ok, Codec.ofText, Codec.ofOctets]
  cases (codec.read maxDepth).readAll (Text.Utf8.encode text.toList) with
  | error failure =>
    constructor
    · rintro ⟨⟩
    · rintro ⟨⟩
  | ok held =>
    constructor
    · rintro ⟨⟩
      rfl
    · rintro ⟨⟩
      rfl

theorem Yields.ofText {codec : Codec α} {text : String} {value : α} {property : α → Prop}
    (yields : (codec.read maxDepth).Yields property) (read : codec.ofText text = .ok value) :
    property value := by
  obtain ⟨rest, taken, _⟩ := ofText_eq_ok.mp read
  exact yields taken

end PermissionSchema.Json.Reader
