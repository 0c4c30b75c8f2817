import PermissionSchema.Proofs.Json.Faithful
import PermissionSchema.Proofs.Json.Skipping
import Mathlib.Data.List.Nodup
/-!
Which sources tell a value, told apart from how a reader goes about them: strings with their
characters escaped in any way, and records with their parts in any order, those left out that hold
their default, and members of other names among them. A codec understands a telling if its reader
takes every such source as the value that it tells.
-/
namespace PermissionSchema.Json

variable {α ρ : Type}

abbrev Telling (α : Type) : Type :=
  α → Source → Prop

structure Part (ρ : Type) where
  name : String
  tells : Telling ρ
  omissible : ρ → Prop

namespace Part

def required (name : String) (tells : Telling α) (get : ρ → α) : Part ρ :=
  ⟨name, fun record => tells (get record), fun _ => False⟩

def defaulted (name : String) (tells : Telling α) (get : ρ → α) (default : α) : Part ρ :=
  ⟨name, fun record => tells (get record), fun record => get record = default⟩

end Part

/-- Members that tell parts of a record: each tells any one of the parts still to be told, or has a
name that is no part's and any value. The parts that remain may be left out. -/
inductive TellsMembers (names : List String) (record : ρ) :
    List (Part ρ) → List (List Char × Source) → Prop where
  | rest {parts : List (Part ρ)} (omissible : ∀ part ∈ parts, part.omissible record) :
      TellsMembers names record parts []
  | part {part : Part ρ} {before after : List (Part ρ)} {body : List Char} {value : Source}
      {members : List (List Char × Source)} (label : Literal part.name.toList body)
      (tells : part.tells record value)
      (later : TellsMembers names record (before ++ after) members) :
      TellsMembers names record (before ++ part :: after) ((body, value) :: members)
  | other {parts : List (Part ρ)} {name : String} {body : List Char} {value : Source}
      {members : List (List Char × Source)} (label : Literal name.toList body)
      (unknown : name ∉ names) (later : TellsMembers names record parts members) :
      TellsMembers names record parts ((body, value) :: members)

namespace Telling

def string : Telling String := fun value source =>
  ∃ body, Literal value.toList body ∧ source = .string body

def octet : Telling UInt8 := fun value source =>
  source = .numeral (Nat.toDigits 10 value.toNat)

def list (element : Telling α) : Telling (List α) := fun values source =>
  ∃ items, List.Forall₂ element values items ∧ source = .array items

def optional (value : Telling α) : Telling (Option α)
  | none, source => source = .null
  | some held, source => value held source

def single (name : String) (payload : Source → Prop) (source : Source) : Prop :=
  ∃ body value, Literal name.toList body ∧ payload value ∧ source = .object [(body, value)]

def record (parts : List (Part ρ)) : Telling ρ := fun record source =>
  ∃ members, TellsMembers (parts.map (·.name)) record parts members ∧ source = .object members

end Telling

theorem Telling.string_written (value : String) : Telling.string value (Json.string value).source :=
  ⟨_, literal_flatMap_escapedChar value.toList, rfl⟩

theorem Telling.single_written {payload : Source → Prop} {json : Json} (name : String)
    (told : payload json.source) : Telling.single name payload (object [(name, json)]).source :=
  ⟨_, _, literal_flatMap_escapedChar name.toList, told, rfl⟩

theorem Telling.list_written {element : Telling α} {values : List α} {items : List Json}
    (each : List.Forall₂ (fun value item => element value item.source) values items) :
    Telling.list element values (array items).source := by
  refine ⟨items.map source, List.forall₂_map_right_iff.mpr each, ?_⟩
  rw [source, itemSources_eq]

def Accepts (read : Nat → Reader α) (source : Source) (value : α) : Prop :=
  ∀ depth, source.depth ≤ depth → ∀ more,
    Reads True (Spells (source.tokens ++ more)) (read depth) value (Spells more)

theorem Accepts.map {β : Type} {read : Nat → Reader α} {source : Source} {value : α}
    (accepts : Accepts read source value) (change : α → β) :
    Accepts (fun depth => change <$> read depth) source (change value) :=
  fun depth shallow more => (accepts depth shallow more).map change

/-- A codec understands a telling: its reader takes every source that tells a value as that value,
and what it writes tells the value. -/
structure Codec.Understands (codec : Codec α) (tells : Telling α) : Prop where
  takes (value : α) (source : Source) (told : tells value source) : Accepts codec.read source value
  written (value : α) : tells value (codec.write value).source

namespace Reader

theorem accepts_natural {read : Reader α} {value : Nat} {result : α}
    (small : value < 0x10000000000000000)
    (takes : Takes (fun _ => read) (.natural value) result) :
    Accepts (fun _ => read) (.numeral (Nat.toDigits 10 value)) result := by
  intro depth _ more
  refine ((takes depth more).congr (iff_true_intro (Nat.zero_le _))).given fun text spells => ?_
  cases spells with
  | more white spelled ends later =>
    cases spelled
    exact .more white (.natural small) ends later

theorem accepts_sequence {element : Nat → Reader α} {items : List Source} {values : List α}
    (each : List.Forall₂ (Accepts element) items values) :
    Accepts (fun depth => sequence (inside element depth)) (.array items) values := by
  intro depth shallow more
  cases depth with
  | zero => exact absurd shallow (Nat.not_succ_le_zero _)
  | succ bound =>
    have fit := (Source.itemsDepth_le_iff items bound).mp (Nat.le_of_succ_le_succ shallow)
    have reads : List.Forall₂ (ReadsItem Source.tokens (fun _ => True) (element bound))
        items values := by
      refine (List.forall₂_and_left _ _ |>.mpr ⟨fit, each⟩).imp ?_
      exact fun item value ⟨low, accepts⟩ => ⟨item.beginsValue_tokens, accepts bound low⟩
    rw [Source.tokens_array_append]
    apply (reads_peekValue .openList _).seq
    rw [if_pos (by rfl)]
    refine reads_between (by rintro _ ⟨⟩; rfl) (reads_closeList more) ?_
    exact (reads_elements reads more).congr (by simp)

theorem accepts_bare {τ : Type} {variants : Variants τ α} {tag : τ} {source : Source} {value : α}
    (names : variants.Names tag) (told : Telling.string (variants.name tag) source)
    (bare : variants.bare tag = .ok value) (payload : Nat → τ → Reader α) :
    Accepts (fun depth => choice variants (inside payload depth)) source value := by
  obtain ⟨body, label, rfl⟩ := told
  exact fun _ _ more => reads_bare names (.literal label) bare _ more

theorem accepts_single {τ : Type} {variants : Variants τ α} {tag : τ} {source : Source} {value : α}
    {expected : String} {payload : Nat → τ → Reader α} {tells : Source → Prop}
    (names : variants.Names tag) (told : Telling.single (variants.name tag) tells source)
    (holds : variants.bare tag = .error expected)
    (accepts : ∀ inner, tells inner → Accepts (fun depth => payload depth tag) inner value) :
    Accepts (fun depth => choice variants (inside payload depth)) source value := by
  obtain ⟨body, inner, label, told, rfl⟩ := told
  intro depth shallow more
  cases depth with
  | zero => exact absurd shallow (Nat.not_succ_le_zero _)
  | succ bound =>
    have fit := (Source.membersDepth_le_iff [(body, inner)] bound).mp
      (Nat.le_of_succ_le_succ shallow) _ List.mem_cons_self
    rw [Source.tokens_object_append]
    simp only [List.map_cons, List.map_nil, joined, separator, ↓reduceIte, List.nil_append,
      List.append_nil, Source.memberPiece, List.cons_append]
    exact reads_variant names (.literal label) holds (accepts inner told bound fit) more

end Reader

namespace Codec.Understands

theorem string : Codec.string.Understands .string where
  takes := by
    rintro value _ ⟨body, literal, rfl⟩
    exact fun _ _ more => Reader.reads_string (.literal literal) more
  written value := Telling.string_written value

theorem octet : Codec.octet.Understands .octet where
  takes := by
    rintro value _ rfl
    exact Reader.accepts_natural (Nat.lt_trans value.toNat_lt (by decide))
      (Reader.takes_octet value)
  written value := congrArg Source.numeral (text_natural value.toNat)

theorem list {element : Codec α} {tells : Telling α} (understands : element.Understands tells) :
    element.list.Understands (.list tells) where
  takes := by
    rintro values _ ⟨items, told, rfl⟩
    exact Reader.accepts_sequence (told.flip.imp fun item value => understands.takes value item)
  written values := Telling.list_written (List.forall₂_map_right_iff.mpr
    (List.forall₂_same.mpr fun value _ => understands.written value))

/-- What is present must not be told as `null`. -/
theorem optional {value : Codec α} {tells : Telling α} (understands : value.Understands tells)
    (present : ∀ held source, tells held source → source ≠ .null) :
    value.optional.Understands (.optional tells) where
  takes
    | none, _, rfl => fun depth _ more => Reader.reads_none (value.read depth) more
    | some held, source, told => by
      intro depth shallow more
      have reads := understands.takes held source told depth shallow more
      obtain ⟨first, others, tokens, begins, null⟩ := source.tokens_eq_cons
      rw [tokens, List.cons_append] at reads ⊢
      exact Reader.reads_some begins (fun same => present held source told (null same)) reads
  written
    | none => rfl
    | some held => understands.written held

end Codec.Understands

structure Part.Suits (blank : ρ) (part : Part ρ) (field : Field ρ) : Prop where
  name : part.name = field.name
  takes (record : ρ) (source : Source) (told : part.tells record source) :
    Accepts field.codec.read source (field.get record)
  omissible (record : ρ) (omissible : part.omissible record) :
    field.keyOptional = true ∧ field.get record = field.get blank
  written (record : ρ) : field.omits (field.get record) = false ∧
    part.tells record (field.codec.write (field.get record)).source

namespace Part.Suits

variable {blank : ρ} {name : String} {codec : Codec α} {tells : Telling α} {get : ρ → α}
  {set : α → ρ → ρ}

theorem required (understands : codec.Understands tells) :
    (Part.required name tells get).Suits blank (.required name codec get set) where
  name := rfl
  takes record source told := understands.takes (get record) source told
  omissible _ := False.elim
  written record := ⟨rfl, understands.written (get record)⟩

theorem defaulted (understands : codec.Understands tells) :
    (Part.defaulted name tells get (get blank)).Suits blank (.defaulted name codec get set) where
  name := rfl
  takes record source told := understands.takes (get record) source told
  omissible _ same := ⟨rfl, same⟩
  written record := ⟨rfl, understands.written (get record)⟩

end Part.Suits

namespace Record

/-- The fields of a record type do not disturb each other: what is put into one is found there, the
others stay as they were, and a record is no more than its fields. -/
structure Independent (shape : Record ρ) : Prop where
  distinct : (shape.fields.map (·.name)).Nodup
  same : ∀ field ∈ shape.fields, ∀ value held, field.get (field.set value held) = value
  others : ∀ field ∈ shape.fields, ∀ other ∈ shape.fields, other.name ≠ field.name →
    ∀ value held, other.get (field.set value held) = other.get held
  whole (first second : ρ) (agree : ∀ field ∈ shape.fields, field.get first = field.get second) :
    first = second

variable {shape : Record ρ} {seen : List String} {parts before after : List (Part ρ)}
  {part : Part ρ}

/-- Where parts are told: each that is still to be told is one of a field whose name was not seen,
and every field was seen or is still to be told. -/
structure Expects (shape : Record ρ) (seen : List String) (parts : List (Part ρ)) : Prop where
  distinct : (parts.map (·.name)).Nodup
  suits (part : Part ρ) (member : part ∈ parts) :
    ∃ field ∈ shape.fields, part.Suits shape.blank field ∧ field.name ∉ seen
  complete (field : Field ρ) (member : field ∈ shape.fields) :
    field.name ∈ seen ∨ ∃ part ∈ parts, part.Suits shape.blank field

theorem Expects.told (expects : shape.Expects seen (before ++ part :: after)) :
    shape.Expects (part.name :: seen) (before ++ after) := by
  have apart := expects.distinct
  rw [List.map_append, List.map_cons, List.nodup_middle, ← List.map_append,
    List.nodup_cons] at apart
  refine ⟨apart.2, fun other member => ?_, fun field known => ?_⟩
  · obtain ⟨field, known, suits, fresh⟩ := expects.suits other (by
      rw [List.mem_append, List.mem_cons]
      exact (List.mem_append.mp member).imp_right .inr)
    refine ⟨field, known, suits, ?_⟩
    rw [List.mem_cons, not_or, ← suits.name]
    exact ⟨fun same => apart.1 (same ▸ List.mem_map_of_mem member), suits.name ▸ fresh⟩
  · rcases expects.complete field known with already | ⟨other, member, suits⟩
    · exact .inl (List.mem_cons_of_mem _ already)
    · rw [List.mem_append, List.mem_cons] at member
      rcases member with member | rfl | member
      · exact .inr ⟨other, List.mem_append_left _ member, suits⟩
      · exact .inl (suits.name ▸ List.mem_cons_self)
      · exact .inr ⟨other, List.mem_append_right _ member, suits⟩

def Holds (shape : Record ρ) (record : ρ) (seen : List String) (held : ρ) : Prop :=
  ∀ field ∈ shape.fields,
    field.get held = if field.name ∈ seen then field.get record else field.get shape.blank

theorem Independent.holds_set (independent : shape.Independent) {record held : ρ}
    {field : Field ρ} (known : field ∈ shape.fields) (holds : shape.Holds record seen held) :
    shape.Holds record (field.name :: seen) (field.set (field.get record) held) := by
  intro other among
  by_cases same : other.name = field.name
  · obtain rfl := List.inj_on_of_nodup_map independent.distinct among known same
    rw [independent.same other among, if_pos List.mem_cons_self]
  · rw [independent.others field known other among same, holds other among]
    simp only [List.mem_cons, same, false_or]

/-- Once all parts are told that may not be left out, the record is complete. -/
theorem Independent.eq_of_holds (independent : shape.Independent) {record held : ρ}
    (expects : shape.Expects seen parts) (omissible : ∀ part ∈ parts, part.omissible record)
    (holds : shape.Holds record seen held) : held = record := by
  refine independent.whole held record fun field known => ?_
  rw [holds field known]
  split
  next => rfl
  next unseen =>
    obtain ⟨part, member, suits⟩ := (expects.complete field known).resolve_left unseen
    exact (suits.omissible record (omissible part member)).2.symm

theorem Expects.find?_missing {record : ρ} (expects : shape.Expects seen parts)
    (omissible : ∀ part ∈ parts, part.omissible record) (depth : Nat) :
    ((shape.fields.map (Field.slot depth)).find? fun slot =>
      !slot.keyOptional && slot.name ∉ seen) = none := by
  rw [List.find?_eq_none]
  intro slot member missing
  obtain ⟨field, known, rfl⟩ := List.mem_map.mp member
  simp only [Field.slot, Bool.and_eq_true, Bool.not_eq_true'] at missing
  obtain ⟨part, among, suits⟩ := (expects.complete field known).resolve_left
    (of_decide_eq_true missing.2)
  have optional := (suits.omissible record (omissible part among)).1
  exact absurd (optional.symm.trans missing.1) (by decide)

/-- Members that tell a record's parts fill the blank record with the values of its fields. -/
theorem Independent.fills (independent : shape.Independent) {names : List String}
    (all : shape.fields.map (·.name) = names) {record : ρ} {members : List (List Char × Source)}
    (tells : TellsMembers names record parts members) (depth : Nat)
    (shallow : ∀ member ∈ members, member.2.depth ≤ depth) :
    ∀ seen held, shape.Expects seen parts → shape.Holds record seen held →
      Fills (shape.fields.map (Field.slot depth)) seen held (members.map Source.memberPiece) True
        record := by
  induction tells with
  | rest omissible =>
    intro seen held expects holds
    obtain rfl := independent.eq_of_holds expects omissible holds
    exact .done (expects.find?_missing omissible depth)
  | @part part before after body value members label told later ih =>
    intro seen held expects holds
    obtain ⟨low, lower⟩ := List.forall_mem_cons.mp shallow
    -- A part still to be told is of a field not seen yet, so the member is no duplicate.
    obtain ⟨field, known, suits, fresh⟩ := expects.suits part
      (List.mem_append_right _ List.mem_cons_self)
    have next := expects.told
    rw [suits.name] at label next
    have rest := ih lower (field.name :: seen) _ next (independent.holds_set known holds)
    have reads (more : List Token) :=
      (suits.takes record value told depth low more).map field.set
    exact (Fills.known (.literal label) (find?_slot independent.distinct known depth) fresh reads
      rest).congr (by simp)
  | @other parts name body value members label unknown later ih =>
    intro seen held expects holds
    obtain ⟨_, lower⟩ := List.forall_mem_cons.mp shallow
    have missing : (shape.fields.map (Field.slot depth)).find? (·.name = name) = none := by
      rw [List.find?_eq_none]
      intro slot member same
      obtain ⟨field, known, rfl⟩ := List.mem_map.mp member
      have named : field.name = name := of_decide_eq_true same
      exact unknown (all ▸ List.mem_map.mpr ⟨field, known, named⟩)
    exact .unknown (.literal label) missing (Reader.reads_skipValue value)
      (ih lower seen held expects holds)

theorem exists_of_forall₂ {σ τ : Type*} {related : σ → τ → Prop} {first : List σ}
    {second : List τ} (each : List.Forall₂ related first second) :
    ∀ value ∈ first, ∃ other ∈ second, related value other := by
  induction each with
  | nil => exact List.forall_mem_nil _
  | cons here _ ih =>
    refine List.forall_mem_cons.mpr ⟨⟨_, List.mem_cons_self, here⟩, fun value member => ?_⟩
    obtain ⟨other, among, rest⟩ := ih value member
    exact ⟨other, List.mem_cons_of_mem _ among, rest⟩

theorem names_of_suits {fields : List (Field ρ)} {blank : ρ}
    (suits : List.Forall₂ (Part.Suits blank) parts fields) :
    fields.map (·.name) = parts.map (·.name) := by
  induction suits with
  | nil => rfl
  | cons here _ ih => rw [List.map_cons, List.map_cons, ih, here.name]

theorem Independent.expects (independent : shape.Independent)
    (suits : List.Forall₂ (Part.Suits shape.blank) parts shape.fields) :
    shape.Expects [] parts where
  distinct := names_of_suits suits ▸ independent.distinct
  suits part member := by
    obtain ⟨field, known, suits⟩ := exists_of_forall₂ suits part member
    exact ⟨field, known, suits, List.not_mem_nil⟩
  complete field known := .inr (exists_of_forall₂ suits.flip field known)

theorem tells_membersOf {fields : List (Field ρ)} {blank : ρ}
    (suits : List.Forall₂ (Part.Suits blank) parts fields) (names : List String) (record : ρ) :
    TellsMembers names record parts (memberSources (membersOf fields record)) := by
  induction suits with
  | nil => exact .rest (List.forall_mem_nil _)
  | @cons part field parts fields here _ ih =>
    obtain ⟨kept, written⟩ := here.written record
    have member : membersOf (field :: fields) record =
        (field.name, field.codec.write (field.get record)) :: membersOf fields record := by
      simp [membersOf, Field.member?, kept]
    have label := literal_flatMap_escapedChar part.name.toList
    rw [member, memberSources, ← here.name, ← List.nil_append (part :: parts)]
    exact .part label written ih

end Record

theorem Codec.Understands.record {shape : Record ρ} {parts : List (Part ρ)}
    (independent : shape.Independent)
    (suits : List.Forall₂ (Part.Suits shape.blank) parts shape.fields) :
    (Codec.record shape).Understands (.record parts) where
  takes := by
    rintro record _ ⟨members, tells, rfl⟩ depth shallow more
    cases depth with
    | zero => exact absurd shallow (Nat.not_succ_le_zero _)
    | succ bound =>
      have fit := (Source.membersDepth_le_iff members bound).mp (Nat.le_of_succ_le_succ shallow)
      have blank : shape.Holds record [] shape.blank := fun field _ => by simp
      have fills := independent.fills (Record.names_of_suits suits) tells bound fit [] shape.blank
        (independent.expects suits) blank
      rw [Source.tokens_object_append]
      apply (Reader.reads_peekValue .openObject _).seq
      rw [if_pos (by rfl)]
      exact Reader.reads_between (by rintro _ ⟨⟩; rfl) (Reader.reads_closeObject more)
        (fills.reads_members more)
  written record := ⟨_, Record.tells_membersOf suits _ record, by rw [Codec.record, source]; rfl⟩

/-- A text that tells a value is read as that value if its brackets nest at most 127 deep. -/
theorem Codec.Understands.ofText {codec : Codec α} {tells : Telling α}
    (understands : codec.Understands tells) {value : α} {source : Source} {text : String}
    (told : tells value source) (spells : Spells source.tokens text.toList)
    (shallow : nesting text ≤ 127) : codec.ofText text = .ok value := by
  rw [Source.nesting_of_spells spells] at shallow
  rw [← List.append_nil source.tokens] at spells
  have reads := understands.takes value source told maxDepth shallow []
  obtain ⟨rest, read, left⟩ := reads.ok trivial text.toList spells
  simp only [Codec.ofText, ofOctets, Reader.readAll, read, left.dropWhile_nil, Except.mapError]

end PermissionSchema.Json
