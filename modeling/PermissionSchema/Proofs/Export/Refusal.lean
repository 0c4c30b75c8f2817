import PermissionSchema.Proofs.Compiled.Metadata
import PermissionSchema.Proofs.Export.Declaration
/-!
When mapping a schema fails, and as what. A declaration is refused if its kind is not known, or if
the export is strict and a placeholder occurs in the rewrite of a permission. A schema fails exactly
if it has such a declaration, and always as the first of them.
-/
namespace PermissionSchema.Export

open PermissionSchema.Compiled

def Refused (options : Options) (declaration : Declaration) : Prop :=
  declaration.metadata.kind options.relationMetadataUrl = .unknown ∨
    options.strict = true ∧ declaration.metadata.kind options.relationMetadataUrl = .permission ∧
      ∃ rewrite, declaration.rewrite = some rewrite ∧
        (Operand.Occurs .this rewrite.operands ∨ Operand.Occurs .nil rewrite.operands)

theorem exists_first_placeholder_iff (operands : List Operand) :
    (∃ kind, (Operand.placeholders operands).head? = some kind) ↔
      Operand.Occurs .this operands ∨ Operand.Occurs .nil operands := by
  have free := Operand.placeholders_eq_nil_iff operands
  rw [← not_or] at free
  rw [← not_iff_not, ← free]
  cases Operand.placeholders operands with
  | nil => simp
  | cons kind rest => simp

theorem exists_refusal_iff (options : Options) (owner : String) (declaration : Declaration) :
    (∃ error, Refusal options owner declaration error) ↔ Refused options declaration := by
  constructor
  · intro caused
    obtain ⟨error, refusal⟩ := caused
    cases refusal with
    | unclassified unknown => exact Or.inl unknown
    | placeholder strict computed expression first =>
      exact Or.inr ⟨strict, computed, _, expression,
        (exists_first_placeholder_iff _).mp ⟨_, first⟩⟩
  · intro refused
    rcases refused with unknown | ⟨strict, computed, rewrite, expression, occurs⟩
    · exact ⟨_, .unclassified unknown⟩
    · obtain ⟨kind, first⟩ := (exists_first_placeholder_iff rewrite.operands).mpr occurs
      exact ⟨_, .placeholder strict computed expression first⟩

theorem mapDeclaration_fails_iff (options : Options) (owner : String) (declaration : Declaration) :
    (mapDeclaration options owner declaration).Fails ↔ Refused options declaration := by
  rw [← exists_refusal_iff options owner]
  exact exists_congr fun _ => mapDeclaration_error_iff

/-- A definition fails as the first of its declarations that is refused. -/
theorem mapDefinition_error_iff (options : Options) (definition : Definition)
    (error : SchemaError) :
    (mapDefinition options definition).result = .error error ↔
      ∃ before declaration after, definition.declarations = before ++ declaration :: after ∧
        (∀ earlier ∈ before, ¬Refused options earlier) ∧
        Refusal options definition.name declaration error := by
  simp only [mapDefinition, Traced.bind_error_iff, Traced.emit, Traced.pure_eq, reduceCtorEq,
    and_false, exists_false, or_false]
  simp only [mapDeclarations_eq_each, Traced.each_error_iff, ← Traced.not_fails_iff,
    mapDeclaration_fails_iff, mapDeclaration_error_iff]

theorem mapDefinition_fails_iff (options : Options) (definition : Definition) :
    (mapDefinition options definition).Fails ↔
      ∃ declaration ∈ definition.declarations, Refused options declaration := by
  simp only [← mapDeclaration_fails_iff options definition.name, ← Traced.each_fails_iff]
  simp only [Traced.Fails, mapDefinition, Traced.bind_error_iff, Traced.emit, Traced.pure_eq,
    reduceCtorEq, and_false, exists_false, or_false, mapDeclarations_eq_each]

theorem mapDefinition_passes_iff (options : Options) (definition : Definition) :
    (∃ exported, (mapDefinition options definition).result = .ok exported) ↔
      ∀ one ∈ definition.declarations, ¬Refused options one := by
  rw [← Traced.not_fails_iff, mapDefinition_fails_iff]
  simp only [not_exists, not_and]

/-- The declaration that ends the export of a schema: the first refused one of the first definition
that has one. -/
theorem mapSchema_error_iff_first (options : Options) (schema : Schema) (error : SchemaError) :
    (mapSchema options schema).result = .error error ↔
      ∃ earlier definition later before declaration after,
        schema.definitions = earlier ++ definition :: later ∧
        definition.declarations = before ++ declaration :: after ∧
        (∀ other ∈ earlier, ∀ one ∈ other.declarations, ¬Refused options one) ∧
        (∀ one ∈ before, ¬Refused options one) ∧
        Refusal options definition.name declaration error := by
  rw [mapSchema_error_iff_definitions, Traced.each_error_iff]
  simp only [mapDefinition_passes_iff, mapDefinition_error_iff]
  constructor
  · intro failed
    obtain ⟨earlier, definition, later, split, free, before, declaration, after, inner, first,
      cause⟩ := failed
    exact ⟨earlier, definition, later, before, declaration, after, split, inner, free, first, cause⟩
  · intro shape
    obtain ⟨earlier, definition, later, before, declaration, after, split, inner, free, first,
      cause⟩ := shape
    exact ⟨earlier, definition, later, split, free, before, declaration, after, inner, first, cause⟩

theorem mapSchema_fails_iff_refused (options : Options) (schema : Schema) :
    (mapSchema options schema).Fails ↔
      ∃ definition ∈ schema.definitions, ∃ declaration ∈ definition.declarations,
        Refused options declaration := by
  simp only [← mapDefinition_fails_iff, ← Traced.each_fails_iff]
  exact exists_congr fun error => mapSchema_error_iff_definitions options schema error

theorem refusal_kind {options : Options} {owner : String} {declaration : Declaration}
    {error : SchemaError} (refusal : Refusal options owner declaration error) :
    error.kind = .unclassified ∨ error.kind = .unsupportedOperand := by
  cases refusal with
  | unclassified _ => exact Or.inl rfl
  | placeholder _ _ _ _ => exact Or.inr rfl

theorem not_refused_of_relation {options : Options} {declaration : Declaration}
    (stored : declaration.metadata.kind options.relationMetadataUrl = .relation) :
    ¬Refused options declaration := by
  intro refused
  rcases refused with unknown | ⟨_, computed, _⟩
  · cases stored.symm.trans unknown
  · cases stored.symm.trans computed

/-- A schema fails if and only if it has a refused declaration, and then with the refusal of the
first one: of two causes only, never because of a stored relation's rewrite, and whatever the
caveats are. -/
theorem mapSchema_refuses_first (options : Options) (schema : Schema) :
    ((mapSchema options schema).Fails ↔
      ∃ definition ∈ schema.definitions, ∃ declaration ∈ definition.declarations,
        Refused options declaration) ∧
    (∀ error, (mapSchema options schema).result = .error error ↔
      ∃ earlier definition later before declaration after,
        schema.definitions = earlier ++ definition :: later ∧
        definition.declarations = before ++ declaration :: after ∧
        (∀ other ∈ earlier, ∀ one ∈ other.declarations, ¬Refused options one) ∧
        (∀ one ∈ before, ¬Refused options one) ∧
        Refusal options definition.name declaration error) ∧
    (∀ error, (mapSchema options schema).result = .error error →
      error.kind = .unclassified ∨ error.kind = .unsupportedOperand) ∧
    (∀ declaration : Declaration,
      declaration.metadata.kind options.relationMetadataUrl = .relation →
        ¬Refused options declaration) ∧
    (∀ caveats error, (mapSchema options ⟨schema.definitions, caveats⟩).result = .error error ↔
      (mapSchema options schema).result = .error error) := by
  refine ⟨mapSchema_fails_iff_refused options schema, mapSchema_error_iff_first options schema,
    ?_, fun _ => not_refused_of_relation, ?_⟩
  · intro error failed
    obtain ⟨_, _, _, _, _, _, _, _, _, _, refusal⟩ :=
      (mapSchema_error_iff_first options schema error).mp failed
    exact refusal_kind refusal
  · intro caveats error
    rw [mapSchema_error_iff_definitions, mapSchema_error_iff_definitions]

/-- The kind of a declaration is looked at first, and placeholders in the order of the walk. -/
example :
    let nested : Rewrite :=
      ⟨.union, [.computed "viewer", .nested .exclusion [.arrow "parent" "view", .nil], .this]⟩
    let declarations : List Declaration :=
      [{ Declaration.relation "viewer" [] with rewrite := some nested },
        .permission "view" nested, { name := "edit" }]
    (mapSchema { strict := true } ⟨[⟨"acme/document", declarations, []⟩], []⟩).result =
      .error (.unsupportedOperand "acme/document" "view" "_nil") := by
  simp only [Declaration.relation, Declaration.permission, MetadataEntry.relationKind_eq]
  rfl

end PermissionSchema.Export
