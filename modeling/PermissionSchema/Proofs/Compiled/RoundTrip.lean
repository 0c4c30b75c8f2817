import PermissionSchema.Compiler
import PermissionSchema.Proofs.Compiled.Walk
import PermissionSchema.Proofs.Json.Faithful
/-!
Compiled schemas as text and back. The written text of a schema is read as the same schema if its
brackets nest at most 127 deep, and is refused for its depth if they nest deeper.
-/
namespace PermissionSchema.Compiled

open PermissionSchema.Json

theorem MetadataEntry.faithful : MetadataEntry.codec.Faithful :=
  .record {
    distinct := by decide
    fields := by
      simp only [List.forall_mem_cons]
      exact ⟨.required .string, .defaulted (.list .octet), by simp⟩
    restored := by simp }

theorem Metadata.faithful : Metadata.codec.Faithful :=
  .list MetadataEntry.faithful

theorem computed_faithful : computedCodec.Faithful :=
  .record {
    distinct := by decide
    fields := by
      simp only [List.forall_mem_cons]
      exact ⟨.required .string, by simp⟩
    restored := by simp }

theorem arrow_faithful : arrowCodec.Faithful :=
  .record {
    distinct := by decide
    fields := by
      simp only [List.forall_mem_cons]
      exact ⟨.required .string, .required .string, by simp⟩
    restored := by simp }

theorem rewriteVariants_names (operator : Operator) : rewriteVariants.Names operator := by
  cases operator <;> rfl

theorem operandVariants_names (kind : OperandKind) : operandVariants.Names kind := by
  cases kind <;> rfl

def Rewrite.payload (depth : Nat) (operator : Operator) : Reader Rewrite :=
  Rewrite.mk operator <$> readOperands depth

def Operand.payload (depth : Nat) : OperandKind → Reader Operand
  | .computed => Operand.computed <$> computedCodec.read depth
  | .arrow => (fun arrow => Operand.arrow arrow.1 arrow.2) <$> arrowCodec.read depth
  | .nested => Operand.ofRewrite <$> Rewrite.read depth
  | .this => pure .this
  | .nil => pure .nil

theorem Rewrite.read_eq : Rewrite.read =
    fun depth => Reader.choice rewriteVariants (Reader.inside Rewrite.payload depth) := by
  funext depth
  cases depth <;> rfl

theorem readOperands_eq :
    readOperands = fun depth => Reader.sequence (Reader.inside Operand.read depth) := by
  funext depth
  cases depth <;> rfl

theorem Operand.read_eq : Operand.read =
    fun depth => Reader.choice operandVariants (Reader.inside Operand.payload depth) := by
  funext depth
  cases depth <;> rfl

theorem Rewrite.takes {operators : List Json} {operands : List Operand} (operator : Operator)
    (each : List.Forall₂ (Takes Operand.read) operators operands) :
    Takes Rewrite.read (.object [(operator.name, .array operators)]) ⟨operator, operands⟩ := by
  have listed : Takes readOperands (.array operators) operands := by
    rw [readOperands_eq]
    exact Reader.takes_sequence each
  rw [Rewrite.read_eq]
  exact Reader.takes_choice_payload (rewriteVariants_names operator) rfl
    (listed.map (Rewrite.mk operator))

theorem operands_take (operands : List Operand) :
    List.Forall₂ (Takes Operand.read) (operandsToJson operands) operands := by
  induction operands using Operand.inductionOn with
  | empty => exact .nil
  | this rest ih =>
    refine .cons ?_ ih
    rw [Operand.read_eq]
    exact Reader.takes_choice_bare (operandVariants_names .this) rfl _
  | computed relation rest ih =>
    refine .cons ?_ ih
    rw [Operand.read_eq]
    exact Reader.takes_choice_payload (operandVariants_names .computed) rfl
      ((computed_faithful.takes relation).map Operand.computed)
  | arrow tupleset target rest ih =>
    refine .cons ?_ ih
    rw [Operand.read_eq]
    exact Reader.takes_choice_payload (operandVariants_names .arrow) rfl
      ((arrow_faithful.takes (tupleset, target)).map fun arrow => Operand.arrow arrow.1 arrow.2)
  | nested operator inner rest ihInner ihRest =>
    refine .cons ?_ ihRest
    rw [Operand.read_eq]
    exact Reader.takes_choice_payload (operandVariants_names .nested) rfl
      ((Rewrite.takes operator ihInner).map Operand.ofRewrite)
  | nil rest ih =>
    refine .cons ?_ ih
    rw [Operand.read_eq]
    exact Reader.takes_choice_bare (operandVariants_names .nil) rfl _

theorem operands_exact (operands : List Operand) :
    ∀ json ∈ operandsToJson operands, json.Exact := by
  induction operands using Operand.inductionOn with
  | empty => simp [operandsToJson]
  | this rest ih | nil rest ih => exact List.forall_mem_cons.mpr ⟨.string _, ih⟩
  | computed relation rest ih =>
    exact List.forall_mem_cons.mpr ⟨Exact.single (computed_faithful.exact relation) _, ih⟩
  | arrow tupleset target rest ih =>
    exact List.forall_mem_cons.mpr ⟨Exact.single (arrow_faithful.exact (tupleset, target)) _, ih⟩
  | nested operator inner rest ihInner ihRest =>
    have inside : (Json.object [(operator.name, .array (operandsToJson inner))]).Exact :=
      Exact.single (.array ihInner) operator.name
    exact List.forall_mem_cons.mpr ⟨Exact.single inside _, ihRest⟩

theorem Rewrite.faithful : Rewrite.codec.Faithful where
  exact rewrite := Exact.single (.array (operands_exact rewrite.operands)) _
  takes rewrite := Rewrite.takes rewrite.operator (operands_take rewrite.operands)

theorem Operand.faithful : Operand.codec.Faithful where
  exact operand := operands_exact [operand] operand.toJson List.mem_cons_self
  takes operand := (List.forall₂_cons.mp (operands_take [operand])).1

theorem SubjectRelation.variants_names (kind : SubjectRelation.Kind) :
    SubjectRelation.variants.Names kind := by
  cases kind <;> rfl

theorem SubjectRelation.faithful : SubjectRelation.codec.Faithful where
  exact
    | .relation name => Exact.single (.string name) _
    | .wildcard => .string _
  takes
    | .relation name =>
      Reader.takes_choice_payload (variants_names .relation) rfl
        ((Reader.takes_string name).map SubjectRelation.relation)
    | .wildcard => Reader.takes_choice_bare (variants_names .wildcard) rfl _

theorem AllowedSubject.faithful : AllowedSubject.codec.Faithful :=
  .record {
    distinct := by decide
    fields := by
      simp only [List.forall_mem_cons]
      exact ⟨.required .string, .required SubjectRelation.faithful,
        .defaulted (.optional .string nofun), by simp⟩
    restored := by simp }

theorem Declaration.faithful : Declaration.codec.Faithful :=
  .record {
    distinct := by decide
    fields := by
      simp only [List.forall_mem_cons]
      exact ⟨.required .string, .defaulted (.optional Rewrite.faithful nofun),
        .defaulted (.list AllowedSubject.faithful), .defaulted Metadata.faithful, by simp⟩
    restored := by simp }

theorem Definition.faithful : Definition.codec.Faithful :=
  .record {
    distinct := by decide
    fields := by
      simp only [List.forall_mem_cons]
      exact ⟨.required .string, .defaulted (.list Declaration.faithful),
        .defaulted Metadata.faithful, by simp⟩
    restored := by simp }

theorem Caveat.faithful : Caveat.codec.Faithful :=
  .record {
    distinct := by decide
    fields := by
      simp only [List.forall_mem_cons]
      exact ⟨.required .string, .defaulted (.list .string), .defaulted Metadata.faithful, by simp⟩
    restored := by simp }

theorem Schema.faithful : Schema.codec.Faithful :=
  .record {
    distinct := by decide
    fields := by
      simp only [List.forall_mem_cons]
      exact ⟨.defaulted (.list Definition.faithful), .defaulted (.list Caveat.faithful), by simp⟩
    restored := by simp }

/-- The compact text of a compiled schema is read as that schema if its brackets nest at most 127
deep; if they nest deeper it is refused, and the refusal begins with words for that. -/
theorem Schema.ofText_text (schema : Schema) :
    (nesting (Schema.codec.text schema) ≤ 127 →
      Schema.ofText (Schema.codec.text schema) = .ok schema) ∧
    (128 ≤ nesting (Schema.codec.text schema) →
      ∃ message, Schema.ofText (Schema.codec.text schema) = .error (.parse message) ∧
        "recursion limit exceeded".toList <+: message.toList) := by
  have back := Schema.faithful.readsBack_text schema
  refine ⟨fun shallow => ?_, fun deep => ?_⟩
  · rw [Schema.ofText, back.ok shallow]
    rfl
  · obtain ⟨message, refused, words⟩ := back.tooDeep deep
    refine ⟨message, ?_, words⟩
    rw [Schema.ofText, refused]
    rfl

end PermissionSchema.Compiled
