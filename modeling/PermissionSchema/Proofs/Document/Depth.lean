import PermissionSchema.Proofs.Document.RoundTrip
import PermissionSchema.Proofs.Json.Depth
/-!
How deep the text of an exported schema nests: as its user sets do, within the brackets of their
permissions, definitions and lists. A user set that was read is written no deeper than it stood in
its text.
-/
namespace PermissionSchema.Document

open PermissionSchema.Json
open PermissionSchema.Json.Reader (Yields)

namespace UserSet

theorem depth_operation (operator : Operator) (children : List UserSet) :
    (toJson (.operation operator children)).depth ≤ itemsDepth (listToJson children) + 2 := by
  cases children with
  | nil => simp [toJson, Json.depth, membersDepth]
  | cons child rest => simp [toJson, Json.depth, membersDepth]

/-- Of the members of an object, only the operands of an operation have brackets of their own. -/
theorem Members.depth_userSet? {members : Members} {set : UserSet}
    (shape : members.userSet? = some set) :
    set.toJson.depth ≤ 1 ∨ ∃ operator children, set = .operation operator children ∧
      some children ∈ members.children := by
  unfold Members.userSet? at shape
  split at shape
  · cases shape
    exact .inl (Nat.le_refl 1)
  · cases shape
    exact .inr ⟨_, _, rfl, by simp [*]⟩
  · cases shape
    exact .inl (Nat.le_refl 1)
  · cases shape
    exact .inl (Nat.le_refl 1)
  · cases shape

theorem children_membersOfJson_cons (name : String) (value : Json) (rest : List (String × Json)) :
    (membersOfJson ((name, value) :: rest)).children =
      (if name = "children" then [childrenOfJson value] else []) ++ (membersOfJson rest).children := by
  rw [membersOfJson]
  by_cases same : name = "children"
  · simp [same]
  · simp only [same, if_false]
    split_ifs <;> rfl

mutual

theorem depth_le_of_ofJson : ∀ {json : Json} {set : UserSet}, ofJson json = some set →
    set.toJson.depth ≤ json.depth
  | .object members, set, read => by
    rw [ofJson] at read
    rcases Members.depth_userSet? read with flat | ⟨operator, children, rfl, member⟩
    · exact Nat.le_trans flat (Nat.le_add_left ..)
    · have inside := depth_le_of_membersOfJson member
      have written := depth_operation operator children
      simp only [Json.depth]
      omega

theorem depth_le_of_listOfJson : ∀ {items : List Json} {sets : List UserSet},
    listOfJson items = some sets → itemsDepth (listToJson sets) ≤ itemsDepth items
  | [], _, read => by
    cases read
    exact Nat.le_refl 0
  | item :: rest, sets, read => by
    rw [listOfJson] at read
    split at read
    · rename_i set others first later
      cases read
      have head := depth_le_of_ofJson first
      have tail := depth_le_of_listOfJson later
      simp only [listToJson, itemsDepth]
      omega
    · cases read

theorem depth_le_of_membersOfJson : ∀ {members : List (String × Json)} {children : List UserSet},
    some children ∈ (membersOfJson members).children →
      itemsDepth (listToJson children) + 1 ≤ membersDepth members
  | (name, value) :: rest, children, member => by
    rw [children_membersOfJson_cons, List.mem_append] at member
    rcases member with here | later
    · split at here
      · have inside := depth_le_of_childrenOfJson (List.mem_singleton.mp here).symm
        exact Nat.le_trans inside (Nat.le_max_left ..)
      · cases here
    · exact Nat.le_trans (depth_le_of_membersOfJson later) (Nat.le_max_right ..)

theorem depth_le_of_childrenOfJson : ∀ {json : Json} {children : List UserSet},
    childrenOfJson json = some children → itemsDepth (listToJson children) + 1 ≤ json.depth
  | .array items, children, read => by
    rw [childrenOfJson] at read
    exact Nat.succ_le_succ (depth_le_of_listOfJson read)

end

theorem yields_shallow (depth : Nat) : (read depth).Yields fun set => set.toJson.depth ≤ depth := by
  refine (Reader.yields_any depth).bind fun json shallow => ?_
  split
  · exact .pure (Nat.le_trans (depth_le_of_ofJson ‹_›) shallow)
  · exact .failUnplaced _

end UserSet

def Permission.Shallow (bound : Nat) (permission : Permission) : Prop :=
  ∀ set ∈ permission.userSet, set.toJson.depth ≤ bound

def Definition.Shallow (bound : Nat) (definition : Definition) : Prop :=
  ∀ permission ∈ definition.permissions, permission.Shallow bound

def Schema.Shallow (bound : Nat) (schema : Schema) : Prop :=
  ∀ definition ∈ schema.definitions, definition.Shallow bound

variable {bound : Nat}

theorem SubjectType.depth_le (subject : SubjectType) :
    (SubjectType.codec.write subject).depth ≤ bound + 1 := by
  refine Codec.depth_record_le ?_
  simp only [List.forall_mem_cons]
  exact ⟨Nat.zero_le _, Nat.zero_le _, Nat.zero_le _, nofun⟩

theorem Relation.depth_le (relation : Relation) :
    (Relation.codec.write relation).depth ≤ bound + 3 := by
  refine Codec.depth_record_le ?_
  simp only [List.forall_mem_cons]
  exact ⟨Nat.zero_le _, Codec.depth_list_le fun _ _ => SubjectType.depth_le _, Nat.zero_le _, nofun⟩

theorem Permission.depth_le {permission : Permission} (shallow : permission.Shallow bound) :
    (Permission.codec.write permission).depth ≤ bound + 1 := by
  refine Codec.depth_record_le ?_
  simp only [List.forall_mem_cons]
  exact ⟨Nat.zero_le _, Codec.depth_optional_le shallow, Nat.zero_le _, nofun⟩

theorem Caveat.depth_le (caveat : Caveat) : (Caveat.codec.write caveat).depth ≤ bound + 2 := by
  refine Codec.depth_record_le ?_
  simp only [List.forall_mem_cons]
  exact ⟨Nat.zero_le _, Codec.depth_list_le fun _ _ => Nat.zero_le _, Nat.zero_le _, nofun⟩

theorem Definition.depth_le {definition : Definition} (shallow : definition.Shallow (bound + 2)) :
    (Definition.codec.write definition).depth ≤ bound + 5 := by
  refine Codec.depth_record_le ?_
  simp only [List.forall_mem_cons]
  refine ⟨Nat.zero_le _, Nat.zero_le _, ?_, ?_, Nat.zero_le _, nofun⟩
  · exact Codec.depth_list_le fun relation _ => relation.depth_le
  · exact Codec.depth_list_le fun permission member =>
      Permission.depth_le (shallow permission member)

/-- Around user sets there are the brackets of a permission, a definition, the schema and two
lists. -/
theorem Schema.depth_le {schema : Schema} (shallow : schema.Shallow (bound + 2)) :
    (Schema.codec.write schema).depth ≤ bound + 7 := by
  refine Codec.depth_record_le ?_
  simp only [List.forall_mem_cons]
  refine ⟨?_, ?_, nofun⟩
  · exact Codec.depth_list_le fun definition member =>
      Definition.depth_le (shallow definition member)
  · exact Codec.depth_list_le fun caveat _ => caveat.depth_le

theorem Permission.yields_shallow (bound : Nat) :
    (Permission.codec.read (bound + 1)).Yields (Permission.Shallow bound) := by
  refine Yields.mono (Yields.record nofun fun within level => ?_) fun _ known => known.2
  cases level
  simp only [List.forall_mem_cons]
  refine ⟨.untouched fun _ _ known => known, ?_, .untouched fun _ _ known => known, nofun⟩
  exact (Yields.optional (UserSet.yields_shallow bound)).mono fun _ shallow _ _ => shallow

theorem Definition.yields_shallow (bound : Nat) :
    (Definition.codec.read (bound + 3)).Yields (Definition.Shallow bound) := by
  refine Yields.mono (Yields.record nofun fun within level => ?_) fun _ known => known.2
  cases level
  simp only [List.forall_mem_cons]
  refine ⟨.untouched fun _ _ known => known, .untouched fun _ _ known => known,
    .untouched fun _ _ known => known, ?_, .untouched fun _ _ known => known, nofun⟩
  refine (Yields.sequence fun below level => ?_).mono fun _ shallow _ _ => shallow.2
  cases level
  exact Permission.yields_shallow bound

theorem Schema.yields_shallow (bound : Nat) :
    (Schema.codec.read (bound + 5)).Yields (Schema.Shallow bound) := by
  refine Yields.mono (Yields.record nofun fun within level => ?_) fun _ known => known.2
  cases level
  simp only [List.forall_mem_cons]
  refine ⟨?_, .untouched fun _ _ known => known, nofun⟩
  refine (Yields.sequence fun below level => ?_).mono fun _ shallow _ _ => shallow.2
  cases level
  exact Definition.yields_shallow bound

end PermissionSchema.Document
