import PermissionSchema.Compiler
import PermissionSchema.Proofs.Compiled.RoundTrip
import PermissionSchema.Proofs.Json.Depth
/-!
How deep the rewrites of a schema can nest that was read from a text. Brackets of schemas, lists,
definitions and declarations stand around them, which leaves 122 levels. Written again, a schema
nests as deep as its rewrites say, however many lists a text left out.
-/
namespace PermissionSchema.Compiled

open PermissionSchema.Json
open PermissionSchema.Json.Reader (Yields)

theorem operandsToJson_eq (operands : List Operand) :
    operandsToJson operands = operands.map Operand.toJson := by
  induction operands with
  | nil => rfl
  | cons operand rest ih => rw [operandsToJson, ih, List.map_cons]

theorem Rewrite.depth_toJson_le_iff (rewrite : Rewrite) (bound : Nat) :
    rewrite.toJson.depth ≤ bound + 2 ↔
      ∀ operand ∈ rewrite.operands, operand.toJson.depth ≤ bound := by
  have items := itemsDepth_le_iff (rewrite.operands.map Operand.toJson) bound
  rw [List.forall_mem_map] at items
  rw [← items, Rewrite.toJson, depth_single, Json.depth, operandsToJson_eq]
  omega

theorem Operand.depth_toJson_ofRewrite (rewrite : Rewrite) :
    (Operand.ofRewrite rewrite).toJson.depth = rewrite.toJson.depth + 1 :=
  depth_single OperandKind.nested.name rewrite.toJson

theorem yields_shallow (depth : Nat) :
    (Rewrite.read depth).Yields (fun rewrite => rewrite.toJson.depth ≤ depth) ∧
      (readOperands depth).Yields (fun operands =>
        0 < depth ∧ ∀ operand ∈ operands, operand.toJson.depth + 1 ≤ depth) ∧
      (Operand.read depth).Yields (fun operand => operand.toJson.depth ≤ depth) := by
  induction depth with
  | zero =>
    refine ⟨?_, ?_, ?_⟩
    · rw [Rewrite.read_eq]
      exact .choice nofun nofun
    · rw [readOperands_eq]
      exact .sequence nofun
    · rw [Operand.read_eq]
      refine .choice ?_ nofun
      intro kind operand bare
      cases kind <;> cases bare <;> exact Nat.le_refl 0
  | succ depth ih =>
    obtain ⟨rewrites, operands, operand⟩ := ih
    refine ⟨?_, ?_, ?_⟩
    · rw [Rewrite.read_eq]
      refine .choice nofun ?_
      intro within operator expected level _
      cases level
      refine .map (operands.mono fun values known => ?_)
      obtain ⟨bound, rfl⟩ := Nat.exists_eq_succ_of_ne_zero (Nat.ne_of_gt known.1)
      refine (Rewrite.depth_toJson_le_iff _ bound).mpr fun operand member => ?_
      exact Nat.le_of_succ_le_succ (known.2 operand member)
    · rw [readOperands_eq]
      refine .sequence ?_
      intro within level
      cases level
      exact operand.mono fun value shallow => Nat.succ_le_succ shallow
    · rw [Operand.read_eq]
      refine .choice ?_ ?_
      · intro kind operand bare
        cases kind <;> cases bare <;> exact Nat.zero_le _
      · intro within kind expected level holds
        cases level
        cases kind with
        | computed =>
          exact .map ((Yields.record_brackets _ depth).mono fun _ some => Nat.succ_le_succ some)
        | arrow =>
          exact .map ((Yields.record_brackets _ depth).mono fun _ some => Nat.succ_le_succ some)
        | nested =>
          refine .map (rewrites.mono fun rewrite shallow => ?_)
          rw [Operand.depth_toJson_ofRewrite]
          exact Nat.succ_le_succ shallow
        | this | nil => cases holds

def Declaration.Shallow (bound : Nat) (declaration : Declaration) : Prop :=
  ∀ rewrite ∈ declaration.rewrite, rewrite.toJson.depth ≤ bound

def Definition.Shallow (bound : Nat) (definition : Definition) : Prop :=
  ∀ declaration ∈ definition.declarations, declaration.Shallow bound

def Schema.Shallow (bound : Nat) (schema : Schema) : Prop :=
  ∀ definition ∈ schema.definitions, definition.Shallow bound

theorem Declaration.yields_shallow (bound : Nat) :
    (Declaration.codec.read (bound + 1)).Yields (Declaration.Shallow bound) := by
  refine Yields.mono (Yields.record nofun fun within level => ?_) fun _ known => known.2
  cases level
  simp only [List.forall_mem_cons]
  refine ⟨.untouched fun _ _ known => known, ?_, .untouched fun _ _ known => known,
    .untouched fun _ _ known => known, nofun⟩
  exact (Yields.optional (Compiled.yields_shallow bound).1).mono fun _ shallow _ _ => shallow

theorem Definition.yields_shallow (bound : Nat) :
    (Definition.codec.read (bound + 3)).Yields (Definition.Shallow bound) := by
  refine Yields.mono (Yields.record nofun fun within level => ?_) fun _ known => known.2
  cases level
  simp only [List.forall_mem_cons]
  refine ⟨.untouched fun _ _ known => known, ?_, .untouched fun _ _ known => known, nofun⟩
  refine (Yields.sequence fun below level => ?_).mono fun _ shallow _ _ => shallow.2
  cases level
  exact Declaration.yields_shallow bound

theorem Schema.yields_shallow (bound : Nat) :
    (Schema.codec.read (bound + 5)).Yields (Schema.Shallow bound) := by
  refine Yields.mono (Yields.record nofun fun within level => ?_) fun _ known => known.2
  cases level
  simp only [List.forall_mem_cons]
  refine ⟨?_, .untouched fun _ _ known => known, nofun⟩
  refine (Yields.sequence fun below level => ?_).mono fun _ shallow _ _ => shallow.2
  cases level
  exact Definition.yields_shallow bound

theorem Schema.shallow_of_ofText {text : String} {schema : Schema}
    (read : Schema.ofText text = .ok schema) : schema.Shallow 122 := by
  unfold Schema.ofText at read
  cases result : Schema.codec.ofText text with
  | error message => rw [result] at read; cases read
  | ok found =>
    rw [result] at read
    cases read
    exact (Schema.yields_shallow 122).ofText result

variable {bound : Nat}

theorem MetadataEntry.depth_le (entry : MetadataEntry) :
    (MetadataEntry.codec.write entry).depth ≤ bound + 2 := by
  refine Codec.depth_record_le ?_
  simp only [List.forall_mem_cons]
  exact ⟨Nat.zero_le _, Codec.depth_list_le fun _ _ => Nat.zero_le _, nofun⟩

theorem Metadata.depth_le (metadata : Metadata) :
    (Metadata.codec.write metadata).depth ≤ bound + 3 :=
  Codec.depth_list_le fun entry _ => entry.depth_le

theorem SubjectRelation.depth_le (relation : SubjectRelation) :
    (SubjectRelation.codec.write relation).depth ≤ bound + 1 := by
  cases relation with
  | relation name => exact Nat.le_add_left 1 bound
  | wildcard => exact Nat.zero_le _

theorem AllowedSubject.depth_le (subject : AllowedSubject) :
    (AllowedSubject.codec.write subject).depth ≤ bound + 2 := by
  refine Codec.depth_record_le ?_
  simp only [List.forall_mem_cons]
  exact ⟨Nat.zero_le _, subject.relation.depth_le,
    Codec.depth_optional_le fun _ _ => Nat.zero_le _, nofun⟩

theorem Caveat.depth_le (caveat : Caveat) : (Caveat.codec.write caveat).depth ≤ bound + 4 := by
  refine Codec.depth_record_le ?_
  simp only [List.forall_mem_cons]
  exact ⟨Nat.zero_le _, Codec.depth_list_le fun _ _ => Nat.zero_le _, Metadata.depth_le _, nofun⟩

/-- Metadata that a text leaves out are written as a list, in which nothing nests. -/
theorem Declaration.depth_le {declaration : Declaration}
    (shallow : declaration.Shallow (bound + 3)) :
    (Declaration.codec.write declaration).depth ≤ bound + 4 := by
  refine Codec.depth_record_le ?_
  simp only [List.forall_mem_cons]
  refine ⟨Nat.zero_le _, Codec.depth_optional_le shallow, ?_, Metadata.depth_le _, nofun⟩
  exact Codec.depth_list_le fun subject _ => subject.depth_le

theorem Definition.depth_le {definition : Definition} (shallow : definition.Shallow (bound + 3)) :
    (Definition.codec.write definition).depth ≤ bound + 6 := by
  refine Codec.depth_record_le ?_
  simp only [List.forall_mem_cons]
  refine ⟨Nat.zero_le _, ?_, Metadata.depth_le _, nofun⟩
  exact Codec.depth_list_le fun declaration member =>
    Declaration.depth_le (shallow declaration member)

theorem Schema.depth_le {schema : Schema} (shallow : schema.Shallow (bound + 3)) :
    (Schema.codec.write schema).depth ≤ bound + 8 := by
  refine Codec.depth_record_le ?_
  simp only [List.forall_mem_cons]
  refine ⟨?_, ?_, nofun⟩
  · exact Codec.depth_list_le fun definition member =>
      Definition.depth_le (shallow definition member)
  · exact Codec.depth_list_le fun caveat _ => caveat.depth_le

end PermissionSchema.Compiled
