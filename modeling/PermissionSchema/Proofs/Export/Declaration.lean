import PermissionSchema.Proofs.Export.Expression
/-!
What mapping a declaration can come to: a relation, a permission, or one of two refusals. All that
is proved of declarations elsewhere is read off these two statements.
-/
namespace PermissionSchema.Export

open PermissionSchema.Compiled

/-- Why a declaration of a definition cannot be mapped: its kind is not known, or the export is
strict and its rewrite has a placeholder, of which the first in the walk is named. -/
inductive Refusal (options : Options) (owner : String) (declaration : Declaration) :
    SchemaError → Prop where
  | unclassified (unknown : declaration.metadata.kind options.relationMetadataUrl = .unknown) :
      Refusal options owner declaration (.unclassified owner declaration.name)
  | placeholder {rewrite : Rewrite} {kind : OperandKind} (strict : options.strict = true)
      (computed : declaration.metadata.kind options.relationMetadataUrl = .permission)
      (expression : declaration.rewrite = some rewrite)
      (first : (Operand.placeholders rewrite.operands).head? = some kind) :
      Refusal options owner declaration (.unsupportedOperand owner declaration.name kind.name)

def permissionOf (options : Options) (declaration : Declaration) : Document.Permission where
  name := declaration.name
  userSet := declaration.rewrite.map Rewrite.userSet
  comment := docComment declaration.metadata options.docCommentUrl

theorem mapPermission_ok_iff {options : Options} {owner : String} {declaration : Declaration}
    {permission : Document.Permission} :
    (mapPermission options owner declaration).result = .ok permission ↔
      (∀ rewrite, declaration.rewrite = some rewrite → options.strict = true →
        Operand.placeholders rewrite.operands = []) ∧
        permission = permissionOf options declaration := by
  simp only [mapPermission, permissionOf, Traced.bind_ok_iff, Traced.pure_eq]
  cases declaration.rewrite with
  | none =>
    constructor
    · intro result
      obtain ⟨set, absent, same⟩ := result
      cases absent
      cases same
      exact ⟨by simp, rfl⟩
    · intro shape
      obtain ⟨_, same⟩ := shape
      exact ⟨none, rfl, congrArg Except.ok same.symm⟩
  | some rewrite =>
    simp only [mapExpression, Traced.map_ok_iff, mapRewrite_ok_iff]
    constructor
    · intro result
      obtain ⟨set, ⟨mapped, ⟨free, expression⟩, found⟩, same⟩ := result
      subst expression found
      refine ⟨?_, (Except.ok.inj same).symm⟩
      intro other present
      cases present
      exact free
    · intro shape
      obtain ⟨free, same⟩ := shape
      exact ⟨_, ⟨_, ⟨free rewrite rfl, rfl⟩, rfl⟩, congrArg Except.ok same.symm⟩

theorem mapPermission_error_iff {options : Options} {owner : String} {declaration : Declaration}
    {error : SchemaError} :
    (mapPermission options owner declaration).result = .error error ↔
      ∃ rewrite kind, options.strict = true ∧ declaration.rewrite = some rewrite ∧
        (Operand.placeholders rewrite.operands).head? = some kind ∧
        error = .unsupportedOperand owner declaration.name kind.name := by
  simp only [mapPermission, Traced.bind_error_iff, Traced.pure_eq, reduceCtorEq, and_false,
    exists_false, or_false]
  cases declaration.rewrite with
  | none => simp [mapExpression, Traced.emit, Traced.pure_eq, bind, Traced.bind]
  | some rewrite =>
    simp only [mapExpression, Traced.map_error_iff, mapRewrite_error_iff]
    constructor
    · intro failed
      obtain ⟨strict, kind, first, same⟩ := failed
      exact ⟨rewrite, kind, strict, rfl, first, same⟩
    · intro shape
      obtain ⟨other, kind, strict, present, first, same⟩ := shape
      cases present
      exact ⟨strict, kind, first, same⟩

theorem mapDeclaration_ok_iff {options : Options} {owner : String} {declaration : Declaration}
    {entry : Entry} :
    (mapDeclaration options owner declaration).result = .ok entry ↔
      (declaration.metadata.kind options.relationMetadataUrl = .relation ∧
        entry = .relation (mapRelation options declaration)) ∨
      (declaration.metadata.kind options.relationMetadataUrl = .permission ∧
        (∀ rewrite, declaration.rewrite = some rewrite → options.strict = true →
          Operand.placeholders rewrite.operands = []) ∧
        entry = .permission (permissionOf options declaration)) := by
  unfold mapDeclaration
  cases declaration.metadata.kind options.relationMetadataUrl with
  | unknown => simp [Traced.fail]
  | relation =>
    constructor
    · intro mapped
      cases mapped
      exact Or.inl ⟨rfl, rfl⟩
    · intro shape
      rcases shape with ⟨_, same⟩ | ⟨computed, _⟩
      · rw [same]
        rfl
      · cases computed
  | permission =>
    simp only [Traced.map_ok_iff, mapPermission_ok_iff, reduceCtorEq, false_and, false_or, true_and]
    constructor
    · intro result
      obtain ⟨permission, ⟨free, mapped⟩, same⟩ := result
      exact ⟨free, mapped ▸ same.symm⟩
    · intro shape
      obtain ⟨free, same⟩ := shape
      exact ⟨_, ⟨free, rfl⟩, same.symm⟩

/-- A declaration fails with its refusal and with nothing else. -/
theorem mapDeclaration_error_iff {options : Options} {owner : String} {declaration : Declaration}
    {error : SchemaError} :
    (mapDeclaration options owner declaration).result = .error error ↔
      Refusal options owner declaration error := by
  unfold mapDeclaration
  cases kind : declaration.metadata.kind options.relationMetadataUrl with
  | unknown =>
    constructor
    · intro failed
      cases failed
      exact .unclassified kind
    · intro refusal
      cases refusal with
      | unclassified unknown => rfl
      | placeholder strict computed expression first => cases kind.symm.trans computed
  | relation =>
    constructor
    · intro failed
      cases failed
    · intro refusal
      cases refusal with
      | unclassified unknown => cases kind.symm.trans unknown
      | placeholder strict computed expression first => cases kind.symm.trans computed
  | permission =>
    simp only [Traced.map_error_iff, mapPermission_error_iff]
    constructor
    · intro failed
      obtain ⟨rewrite, found, strict, expression, first, same⟩ := failed
      rw [same]
      exact .placeholder strict kind expression first
    · intro refusal
      cases refusal with
      | unclassified unknown => cases kind.symm.trans unknown
      | placeholder strict computed expression first =>
        exact ⟨_, _, strict, expression, first, rfl⟩

end PermissionSchema.Export
