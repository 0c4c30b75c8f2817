import PermissionSchema.Proofs.Json.Faithful
import PermissionSchema.Proofs.Json.Outcomes
/-!
How deep values nest that are read and that are written. A codec that writes no value deeper than a
text may nest has normal texts: whatever text a value was read from, the text that is written of it
is read as the same value.
-/
namespace PermissionSchema.Json

variable {α ρ : Type} {bound : Nat}

theorem Codec.depth_list_le {element : Codec α} {values : List α}
    (each : ∀ value ∈ values, (element.write value).depth ≤ bound) :
    (element.list.write values).depth ≤ bound + 1 := by
  refine Nat.succ_le_succ ((itemsDepth_le_iff _ bound).mpr ?_)
  rwa [List.forall_mem_map]

theorem Codec.depth_optional_le {value : Codec α} {held : Option α}
    (present : ∀ some ∈ held, (value.write some).depth ≤ bound) :
    (value.optional.write held).depth ≤ bound := by
  cases held with
  | none => exact Nat.zero_le bound
  | some held => exact present held rfl

theorem Codec.depth_record_le {shape : Record ρ} {record : ρ}
    (fields : ∀ field ∈ shape.fields, (field.codec.write (field.get record)).depth ≤ bound) :
    ((Codec.record shape).write record).depth ≤ bound + 1 := by
  refine Nat.succ_le_succ ((membersDepth_le_iff _ bound).mpr fun member among => ?_)
  obtain ⟨field, known, rfl⟩ := Record.exists_field_of_mem_membersOf among
  exact fields field known

namespace Reader

theorem Yields.keptMembersUpTo {value : Reader Json} {property : Json → Prop}
    (yields : value.Yields property) :
    ∀ bound atFirst, (keptMembersUpTo value bound atFirst).Yields fun members =>
      ∀ member ∈ members, property member.2 := by
  intro bound
  induction bound with
  | zero => exact fun _ => failNext .endInObject
  | succ bound ih =>
    intro atFirst
    refine .seq fun more => .ite ?_ (.pure (by simp))
    refine .seq fun _ => .seq fun name => .seq fun _ => ?_
    refine yields.bind fun held holds => (ih false).bind fun members later => .pure ?_
    exact List.forall_mem_cons.mpr ⟨holds, later⟩

/-- What is kept nests one level deeper than the values inside it. -/
theorem yields_anyWith {within : Option (Reader Json)} {bound : Nat}
    (inner : ∀ reader, within = some reader →
      ∃ below, bound = below + 1 ∧ reader.Yields fun json => json.depth ≤ below) :
    (anyWith within).Yields fun json => json.depth ≤ bound := by
  have arrays : (Json.array <$> bracketed closeList (within.map elements)).Yields
      fun json => json.depth ≤ bound := by
    refine .map (.bracketed fun reader known => ?_)
    obtain ⟨value, present, rfl⟩ := Option.map_eq_some_iff.mp known
    obtain ⟨below, rfl, yields⟩ := inner value present
    intro input items rest read
    exact Nat.succ_le_succ ((itemsDepth_le_iff items below).mpr (yields.elementsUpTo _ _ read))
  have objects : (Json.object <$> bracketed closeObject (within.map keptMembers)).Yields
      fun json => json.depth ≤ bound := by
    refine .map (.bracketed fun reader known => ?_)
    obtain ⟨value, present, rfl⟩ := Option.map_eq_some_iff.mp known
    obtain ⟨below, rfl, yields⟩ := inner value present
    intro input members rest read
    exact Nat.succ_le_succ
      ((membersDepth_le_iff members below).mpr (yields.keptMembersUpTo _ _ read))
  have flat {α : Type} (reader : Reader α) (value : α → Json)
      (bare : ∀ held, (value held).depth = 0) :
      (value <$> reader).Yields fun json => json.depth ≤ bound :=
    .map fun _ held _ _ => by simp [bare held]
  refine .seq fun octet => .ite (.seq fun _ => .pure (Nat.zero_le _)) ?_
  refine .ite (.seq fun _ => .pure (Nat.zero_le _)) ?_
  refine .ite (.seq fun _ => .pure (Nat.zero_le _)) ?_
  refine .ite (flat _ _ fun _ => rfl) ?_
  refine .ite (.seq fun _ => flat _ _ fun _ => rfl) ?_
  exact .ite arrays (.ite objects (.failNext _))

theorem yields_any (depth : Nat) : (any depth).Yields fun json => json.depth ≤ depth := by
  induction depth with
  | zero => exact yields_anyWith nofun
  | succ depth ih =>
    refine yields_anyWith ?_
    rintro _ ⟨⟩
    exact ⟨depth, rfl, ih⟩

end Reader

def Codec.Fits (codec : Codec α) : Prop :=
  (codec.read maxDepth).Yields fun value => (codec.write value).depth ≤ maxDepth

theorem Codec.Fits.bounded {codec : Codec α}
    (shallow : ∀ value, (codec.write value).depth ≤ maxDepth) : codec.Fits :=
  fun _ value _ _ => shallow value

def Codec.rewritten (codec : Codec α) (text : String) : Except String String :=
  codec.text <$> codec.ofText text

/-- The normal text of a value that was read from some text: it may be read too, is read as the same
value, and written again it stays as it is. -/
structure Codec.Normal (codec : Codec α) (value : α) : Prop where
  shallow : nesting (codec.text value) ≤ 127
  same : codec.ofText (codec.text value) = .ok value
  stable : codec.rewritten (codec.text value) = .ok (codec.text value)

theorem Codec.Faithful.normal {codec : Codec α} (faithful : codec.Faithful) (fits : codec.Fits)
    {text : String} {value : α} (read : codec.ofText text = .ok value) : codec.Normal value := by
  have depth : (codec.write value).depth ≤ 127 := fits.ofText read
  have shallow : nesting (codec.text value) ≤ 127 := by
    rwa [nesting_of_spells (faithful.spells_text value)]
  have same := (faithful.readsBack_text value).ok shallow
  refine ⟨shallow, same, ?_⟩
  rw [rewritten, same]
  rfl

end PermissionSchema.Json
