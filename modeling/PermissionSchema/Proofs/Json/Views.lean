import PermissionSchema.Proofs.Json.Keeping
import Mathlib.Data.List.Forall2
import Mathlib.Data.List.Nodup
/-!
Readers that read in place: such a reader makes of octets what a view of the kept value makes of
that value, and takes as many of them. What is read of a text is then told by the value that is kept
of it.
-/
namespace PermissionSchema.Json

open Reader

variable {α : Type}

def keeping : Codec Json := ⟨id, any⟩

def Codec.Views (codec : Codec α) (view : Json → Option α) : Prop :=
  ∀ ⦃depth input value rest⦄, codec.read depth input = .ok (value, rest) ↔
    ∃ json, any depth input = .ok (json, rest) ∧ view json = some value

namespace Reader

variable {τ : Type} {variants : Variants τ τ} {input rest : List UInt8}

theorem tag_eq_ok {name : String} {tag : τ} :
    variants.tag name input = .ok (tag, rest) ↔
      variants.tags.find? (variants.name · = name) = some tag ∧ input = rest := by
  rw [Variants.tag]
  cases found : variants.tags.find? (variants.name · = name) with
  | none => simp [failHere]
  | some other =>
    constructor
    · rintro ⟨⟩
      exact ⟨rfl, rfl⟩
    · rintro ⟨⟨⟩, rfl⟩
      rfl

def Variants.named? (variants : Variants τ τ) : Json → Option τ
  | .string name => variants.tags.find? (variants.name · = name)
  | .object [(name, .null)] => variants.tags.find? (variants.name · = name)
  | _ => none

theorem variant_eq_ok (bare : ∀ tag, variants.bare tag = .ok tag) {payload : τ → Reader τ}
    {tag : τ} :
    (variant variants payload >>= fun held => closeVariant >>= fun _ => pure held) input =
        .ok (tag, rest) ↔
      ∃ name, variants.tags.find? (variants.name · = name) = some tag ∧
        Single null name input () rest := by
  simp only [variant, bare, bind_eq_ok, peekToken_eq_ok]
  constructor
  · rintro ⟨_, _, ⟨octet, _, ⟨more, begins, rfl⟩, read⟩, _, _, closes, made⟩
    cases made
    split_ifs at read with quote
    · simp only [bind_eq_ok, tag_eq_ok] at read
      obtain ⟨_, body, passed, name, _, label, _, _, ⟨found, rfl⟩, _, _, colon, _, _, reads,
        held⟩ := read
      cases passed
      cases held
      exact ⟨name, found, quote ▸ begins, label, colon, reads, closeVariant_eq_ok.mp closes⟩
    · cases read
    · cases read
  · rintro ⟨name, found, quote, label, colon, reads, closes⟩
    refine ⟨tag, _, ⟨_, _, ⟨_, quote, rfl⟩, ?_⟩, (), rest, closeVariant_eq_ok.mpr closes, rfl⟩
    simp only [↓reduceIte, bind_eq_ok, tag_eq_ok]
    exact ⟨(), _, rfl, name, _, label, tag, _, ⟨found, rfl⟩, (), _, colon, (), _, reads, rfl⟩

end Reader

theorem views_choice {τ : Type} {variants : Variants τ τ}
    (bare : ∀ tag, variants.bare tag = .ok tag) (payload : Nat → τ → Reader τ) (write : τ → Json) :
    Codec.Views ⟨write, fun depth => choice variants (inside payload depth)⟩ variants.named? := by
  intro depth input tag rest
  simp only [choice, bare]
  rw [bind_eq_ok]
  simp only [peekValue, peekToken_eq_ok]
  constructor
  · rintro ⟨octet, _, ⟨more, begins, rfl⟩, read⟩
    split_ifs at read with quote object
    · simp only [bind_eq_ok, tag_eq_ok] at read
      obtain ⟨_, body, passed, name, _, label, _, _, ⟨found, rfl⟩, made⟩ := read
      cases passed
      cases made
      exact ⟨.string name, any_eq_string.mpr ⟨_, quote ▸ begins, label⟩, found⟩
    · cases depth with
      | zero => cases read
      | succ within =>
        simp only [inside, bind_ok (advance_cons octet)] at read
        obtain ⟨name, found, single⟩ := (variant_eq_ok bare).mp read
        refine ⟨.object [(name, .null)], any_eq_single_null.mpr ?_, found⟩
        exact ⟨more, object ▸ begins, Nat.succ_pos within, single⟩
    · cases read
  · rintro ⟨json, kept, named⟩
    unfold Variants.named? at named
    split at named
    · rename_i name
      obtain ⟨more, begins, label⟩ := any_eq_string.mp kept
      refine ⟨_, _, ⟨more, begins, rfl⟩, ?_⟩
      simp only [↓reduceIte, bind_eq_ok, tag_eq_ok]
      exact ⟨(), _, rfl, name, _, label, tag, _, ⟨named, rfl⟩, rfl⟩
    · rename_i name
      obtain ⟨more, begins, level, single⟩ := any_eq_single_null.mp kept
      obtain ⟨within, rfl⟩ := Nat.exists_eq_succ_of_ne_zero (Nat.ne_of_gt level)
      refine ⟨_, _, ⟨more, begins, rfl⟩, ?_⟩
      rw [if_neg (by decide), if_pos rfl]
      simp only [inside, bind_ok (advance_cons Octet.openObject)]
      exact (variant_eq_ok bare).mpr ⟨name, named, single⟩
    · cases named

def Readable (json : Json) : Prop :=
  ∃ depth input rest, any depth input = .ok (json, rest)

theorem Readable.kept {json : Json} (readable : Readable json) :
    ∃ depth octets rest, Kept depth octets json rest := by
  obtain ⟨depth, input, rest, kept⟩ := readable
  exact ⟨depth, _, rest, any_eq_ok.mp kept⟩

theorem Readable.yields (depth : Nat) : (any depth).Yields Readable :=
  fun input _ rest kept => ⟨depth, input, rest, kept⟩

theorem Readable.item {items : List Json} (readable : Readable (.array items)) :
    ∀ item ∈ items, Readable item := by
  obtain ⟨depth, octets, rest, kept⟩ := readable.kept
  cases kept with
  | array level inside =>
    obtain ⟨between, read, _⟩ := thenClose_eq_ok.mp inside
    exact (Readable.yields _).elementsUpTo _ true read

theorem Readable.member {members : List (String × Json)} (readable : Readable (.object members)) :
    ∀ member ∈ members, Readable member.2 := by
  obtain ⟨depth, octets, rest, kept⟩ := readable.kept
  cases kept with
  | object level inside =>
    obtain ⟨between, read, _⟩ := thenClose_eq_ok.mp inside
    exact (Readable.yields _).keptMembersUpTo _ true read

/-- Wherever a text holds the JSON value, a value of the type is read there; and some text holds
it. -/
structure Codec.ReadsAs (codec : Codec α) (json : Json) (value : α) : Prop where
  readable : Readable json
  reads : ∀ ⦃depth input rest⦄, any depth input = .ok (json, rest) →
    codec.read depth input = .ok (value, rest)

theorem Codec.Views.readsAs_iff {codec : Codec α} {view : Json → Option α}
    (views : codec.Views view) {json : Json} {value : α} :
    codec.ReadsAs json value ↔ Readable json ∧ view json = some value := by
  constructor
  · rintro ⟨⟨depth, input, rest, kept⟩, reads⟩
    obtain ⟨other, same, viewed⟩ := views.mp (reads kept)
    rw [kept] at same
    cases same
    exact ⟨⟨depth, input, rest, kept⟩, viewed⟩
  · rintro ⟨readable, viewed⟩
    exact ⟨readable, fun depth input rest kept => views.mpr ⟨json, kept, viewed⟩⟩

theorem Codec.Views.forall₂_readsAs_iff {codec : Codec α} {view : Json → Option α}
    (views : codec.Views view) {items : List Json} {values : List α}
    (readable : ∀ item ∈ items, Readable item) :
    List.Forall₂ codec.ReadsAs items values ↔
      List.Forall₂ (fun item value => view item = some value) items values := by
  have both : codec.ReadsAs = fun item value => Readable item ∧ view item = some value := by
    funext item value
    exact propext views.readsAs_iff
  rw [both, List.forall₂_and_left, and_iff_right readable]

theorem readable_of_ofText {text : String} {json : Json} (kept : keeping.ofText text = .ok json) :
    Readable json := by
  obtain ⟨rest, read, _⟩ := Reader.ofText_eq_ok.mp kept
  exact ⟨maxDepth, _, rest, read⟩

def under (name : String) : Json → List Json
  | .object members => (members.filter (·.1 = name)).map (·.2)
  | _ => []

def names : Json → List String
  | .object members => members.map (·.1)
  | _ => []

theorem Readable.under {json : Json} (readable : Readable json) {name : String} :
    ∀ held ∈ json.under name, Readable held := by
  cases json with
  | object members =>
    intro held among
    obtain ⟨member, known, rfl⟩ := List.mem_map.mp among
    exact readable.member member (List.mem_filter.mp known).1
  | _ => exact List.forall_mem_nil _

theorem length_under_le {json : Json} (distinct : json.names.Nodup) (name : String) :
    (json.under name).length ≤ 1 := by
  cases json with
  | object members =>
    have once : (members.map (·.1)).count name ≤ 1 := List.nodup_iff_count_le_one.mp distinct name
    rw [List.count, List.countP_map, List.countP_eq_length_filter] at once
    rw [under, List.length_map]
    exact once
  | _ => exact Nat.zero_le 1

end PermissionSchema.Json
