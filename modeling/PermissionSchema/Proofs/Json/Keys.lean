import PermissionSchema.Proofs.Json.Views
/-!
Which keys objects have. A type of objects has its keys in an order, and for each of them it is known
when the key is there and what stands under it. Records are written as objects of such a type.
-/
namespace PermissionSchema.Json

structure Key where
  name : String
  present : Prop
  value : Json → Prop

/-- An object that has keys of its type only, each once at most and in their order, each exactly if
it should be there, and under each what should stand there. -/
structure Keyed (keys : List Key) (json : Json) : Prop where
  object : ∃ members, json = .object members
  ordered : json.names.Sublist (keys.map Key.name)
  once : json.names.Nodup
  present : ∀ key ∈ keys, key.name ∈ json.names ↔ key.present
  value : ∀ key ∈ keys, ∀ held ∈ json.under key.name, key.value held

def Lists {α : Type} (shape : α → Json → Prop) (values : List α) (json : Json) : Prop :=
  ∃ items, json = .array items ∧ List.Forall₂ shape values items

namespace Key

def always (name : String) (value : Json → Prop) : Key :=
  ⟨name, True, value⟩

def text (name text : String) : Key :=
  always name (· = .string text)

def textUnlessEmpty (name text : String) : Key :=
  ⟨name, text ≠ "", (· = .string text)⟩

def list {α : Type} (name : String) (shape : α → Json → Prop) (values : List α) : Key :=
  always name (Lists shape values)

def listUnlessEmpty {α : Type} (name : String) (shape : α → Json → Prop) (values : List α) : Key :=
  ⟨name, values ≠ [], Lists shape values⟩

end Key

inductive Fitting : List Key → List (String × Json) → Prop where
  | empty : Fitting [] []
  | kept {key : Key} {keys : List Key} {held : Json} {members : List (String × Json)}
      (present : key.present) (value : key.value held) (rest : Fitting keys members) :
      Fitting (key :: keys) ((key.name, held) :: members)
  | omitted {key : Key} {keys : List Key} {members : List (String × Json)}
      (absent : ¬key.present) (rest : Fitting keys members) : Fitting (key :: keys) members

namespace Fitting

variable {keys : List Key} {members : List (String × Json)}

theorem names_sublist (fitting : Fitting keys members) :
    (members.map (·.1)).Sublist (keys.map Key.name) := by
  induction fitting with
  | empty => exact .slnil
  | kept _ _ _ ih => exact ih.cons_cons _
  | omitted _ _ ih => exact ih.cons _

theorem key_of_mem (fitting : Fitting keys members) :
    ∀ member ∈ members, ∃ key ∈ keys, key.name = member.1 ∧ key.present ∧ key.value member.2 := by
  induction fitting with
  | empty => exact List.forall_mem_nil _
  | @kept key keys held members present value rest ih =>
    intro member among
    rcases List.mem_cons.mp among with same | later
    · exact ⟨key, List.mem_cons_self, by rw [same], present, same ▸ value⟩
    · obtain ⟨other, known, fits⟩ := ih member later
      exact ⟨other, List.mem_cons_of_mem _ known, fits⟩
  | omitted absent rest ih =>
    intro member among
    obtain ⟨other, known, fits⟩ := ih member among
    exact ⟨other, List.mem_cons_of_mem _ known, fits⟩

theorem name_mem_of_present (fitting : Fitting keys members) :
    ∀ key ∈ keys, key.present → key.name ∈ members.map (·.1) := by
  induction fitting with
  | empty => exact List.forall_mem_nil _
  | @kept first keys held members present value rest ih =>
    intro key among there
    rw [List.map_cons, List.mem_cons]
    rcases List.mem_cons.mp among with same | later
    · exact Or.inl (congrArg Key.name same)
    · exact Or.inr (ih key later there)
  | omitted absent rest ih =>
    intro key among there
    rcases List.mem_cons.mp among with same | later
    · exact absurd (same ▸ there) absent
    · exact ih key later there

/-- Keys with names of their own are told apart by their members. -/
theorem keyed (fitting : Fitting keys members) (distinct : (keys.map Key.name).Nodup) :
    Keyed keys (.object members) := by
  have sole {key : Key} (known : key ∈ keys) {member : String × Json} (among : member ∈ members)
      (named : member.1 = key.name) : key.present ∧ key.value member.2 := by
    obtain ⟨other, listed, same, fits⟩ := fitting.key_of_mem member among
    rwa [List.inj_on_of_nodup_map distinct listed known (same.trans named)] at fits
  have ordered := fitting.names_sublist
  refine ⟨⟨members, rfl⟩, ordered, ordered.nodup distinct, ?_, ?_⟩
  · intro key known
    constructor
    · intro named
      obtain ⟨member, among, same⟩ := List.mem_map.mp named
      exact (sole known among same).1
    · exact fitting.name_mem_of_present key known
  · intro key known held under
    obtain ⟨member, among, same⟩ := List.mem_map.mp under
    obtain ⟨listed, named⟩ := List.mem_filter.mp among
    exact same ▸ (sole known listed (of_decide_eq_true named)).2

end Fitting

structure Field.Suits {ρ : Type} (record : ρ) (key : Key) (field : Field ρ) : Prop where
  name : field.name = key.name
  present : field.omits (field.get record) = false ↔ key.present
  value : key.present → key.value (field.codec.write (field.get record))

namespace Field

variable {ρ α β : Type} {record : ρ} {name : String}

theorem suits_always {codec : Codec α} {get : ρ → α} {set : α → ρ → ρ} {value : Json → Prop}
    (holds : value (codec.write (get record))) :
    Suits record (.always name value) (.required name codec get set) :=
  ⟨rfl, by simp [required, Key.always], fun _ => holds⟩

theorem suits_nullable {codec : Codec (Option α)} {get : ρ → Option α}
    {set : Option α → ρ → ρ} {value : Json → Prop} (holds : value (codec.write (get record))) :
    Suits record (.always name value) (.nullable name codec get set) :=
  ⟨rfl, by simp [nullable, Key.always], fun _ => holds⟩

theorem suits_text {get : ρ → String} {set : String → ρ → ρ} {text : String}
    (same : get record = text) :
    Suits record (.text name text) (.required name .string get set) :=
  suits_always (congrArg Json.string same)

theorem suits_textUnlessEmpty {get : ρ → String} {set : String → ρ → ρ} {text : String}
    (same : get record = text) :
    Suits record (.textUnlessEmpty name text) (.textUnlessEmpty name get set) :=
  ⟨rfl, by simp [textUnlessEmpty, Key.textUnlessEmpty, same], fun _ => congrArg Json.string same⟩

theorem lists_write {codec : Codec β} {shape : α → Json → Prop} {values : List α}
    {written : List β}
    (each : List.Forall₂ (fun value item => shape value (codec.write item)) values written) :
    Lists shape values (codec.list.write written) :=
  ⟨written.map codec.write, rfl, List.forall₂_map_right_iff.mpr each⟩

theorem suits_list {codec : Codec β} {get : ρ → List β} {set : List β → ρ → ρ}
    {shape : α → Json → Prop} {values : List α}
    (each : List.Forall₂ (fun value item => shape value (codec.write item)) values (get record)) :
    Suits record (.list name shape values) (.required name codec.list get set) :=
  suits_always (lists_write each)

theorem suits_listUnlessEmpty {codec : Codec β} {get : ρ → List β} {set : List β → ρ → ρ}
    {shape : α → Json → Prop} {values : List α}
    (each : List.Forall₂ (fun value item => shape value (codec.write item)) values (get record)) :
    Suits record (.listUnlessEmpty name shape values) (.listUnlessEmpty name codec get set) where
  name := rfl
  present := by
    have length : values.length = (get record).length := each.length_eq
    show (get record).isEmpty = false ↔ values ≠ []
    rw [← List.length_pos_iff, length, List.length_pos_iff, List.isEmpty_eq_false_iff]
  value _ := lists_write each

end Field

variable {ρ : Type}

theorem fitting_of_suits {record : ρ} {keys : List Key} {fields : List (Field ρ)}
    (suits : List.Forall₂ (Field.Suits record) keys fields) :
    Fitting keys (fields.filterMap fun field => field.member? record) := by
  induction suits with
  | nil => exact .empty
  | @cons key field keys fields first rest ih =>
    by_cases there : key.present
    · have written : field.member? record =
          some (key.name, field.codec.write (field.get record)) := by
        simp [Field.member?, first.present.mpr there, first.name]
      rw [List.filterMap_cons, written]
      exact .kept there (first.value there) ih
    · have omitted : field.omits (field.get record) = true := by
        rwa [← first.present, Bool.not_eq_false] at there
      have nothing : field.member? record = none := by simp [Field.member?, omitted]
      rw [List.filterMap_cons, nothing]
      exact .omitted there ih

/-- A record is written with the keys that suit its fields. -/
theorem keyed_record {shape : Record ρ} {record : ρ} {keys : List Key}
    (distinct : (keys.map Key.name).Nodup)
    (suits : List.Forall₂ (Field.Suits record) keys shape.fields) :
    Keyed keys ((Codec.record shape).write record) :=
  (fitting_of_suits suits).keyed distinct

end PermissionSchema.Json
