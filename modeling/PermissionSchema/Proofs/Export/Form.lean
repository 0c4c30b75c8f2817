import PermissionSchema.Proofs.Export.Correspondence
import PermissionSchema.Proofs.Export.Subject
import PermissionSchema.Proofs.Export.Texts
import PermissionSchema.Proofs.Json.Keys
/-!
The form of exported texts: which keys every object in them has, told by what was compiled. Texts and
lists are left out where they would be empty, but for those that say what an object is.
-/
namespace PermissionSchema.Export

open PermissionSchema.Compiled
open PermissionSchema.Json (Field Fitting Key Keyed keyed_record)

mutual

/-- The form of an operand: an operation with its operands, a relation with the permission to look
for behind it, or a relation alone. A placeholder has no form. -/
def OperandForm : Operand → Json → Prop
  | .this, _ => False
  | .computed relation, json => Keyed [.text "relation" relation] json
  | .arrow tupleset target, json =>
    Keyed [.text "relation" tupleset, .text "permission" target] json
  | .nested operator operands, json =>
    Keyed [
      .text "operation" operator.name,
      { name := "children"
        present := ∃ operand ∈ operands, operand.kind.isPlaceholder = false
        value := fun held => ∃ items, held = .array items ∧ OperandsForm operands items }] json
  | .nil, _ => False

def OperandsForm : List Operand → List Json → Prop
  | [], items => items = []
  | operand :: rest, items =>
    if operand.kind.isPlaceholder = true then OperandsForm rest items
    else ∃ first more, items = first :: more ∧ OperandForm operand first ∧ OperandsForm rest more

end

def ExpressionForm : Option Rewrite → Json → Prop
  | none, json => json = .null
  | some rewrite, json => OperandForm (.ofRewrite rewrite) json

def SubjectForm (subject : AllowedSubject) : Json → Prop :=
  Keyed [
    .text "type" subject.subjectType,
    .textUnlessEmpty "relation" subject.relation.exportedName,
    .textUnlessEmpty "caveat" (subject.caveat.getD "")]

def commentKey (options : Options) (metadata : Metadata) : Key :=
  .textUnlessEmpty "comment" (docComment metadata options.docCommentUrl)

def RelationForm (options : Options) (declaration : Declaration) : Json → Prop :=
  Keyed [
    .text "name" declaration.name,
    .list "types" SubjectForm declaration.allowed,
    commentKey options declaration.metadata]

def PermissionForm (options : Options) (declaration : Declaration) : Json → Prop :=
  Keyed [
    .text "name" declaration.name,
    .always "userSet" (ExpressionForm declaration.rewrite),
    commentKey options declaration.metadata]

def declarationsOf (options : Options) (definition : Definition) (kind : RelationKind) :
    List Declaration :=
  definition.declarations.filter (·.metadata.kind options.relationMetadataUrl = kind)

def DefinitionForm (options : Options) (definition : Definition) : Json → Prop :=
  Keyed [
    .text "name" (Document.splitName definition.name).2,
    .textUnlessEmpty "namespace" (Document.splitName definition.name).1,
    .listUnlessEmpty "relations" (RelationForm options)
      (declarationsOf options definition .relation),
    .listUnlessEmpty "permissions" (PermissionForm options)
      (declarationsOf options definition .permission),
    commentKey options definition.metadata]

def CaveatForm (options : Options) (caveat : Caveat) : Json → Prop :=
  Keyed [
    .text "name" caveat.name,
    .list "parameters" (fun parameter json => json = .string parameter) caveat.parameters,
    commentKey options caveat.metadata]

def SchemaForm (options : Options) (schema : Schema) : Json → Prop :=
  Keyed [
    .list "definitions" (DefinitionForm options) schema.definitions,
    .listUnlessEmpty "caveats" (CaveatForm options) schema.caveats]

section Operands

open Document.UserSet (listToJson)

theorem userSets_ne_nil_iff (operands : List Operand) :
    Operand.userSets operands ≠ [] ↔
      ∃ operand ∈ operands, operand.kind.isPlaceholder = false := by
  induction operands with
  | nil => simp
  | cons operand rest ih =>
    cases operand <;> simp [ih, Operand.kind, OperandKind.isPlaceholder]

theorem operandForm_nested {operator : Operator} {operands : List Operand}
    (inner : OperandsForm operands (listToJson (Operand.userSets operands))) :
    OperandForm (.nested operator operands)
      (Document.UserSet.operation operator (Operand.userSets operands)).toJson := by
  have distinct : ["operation", "children"].Nodup := by decide
  have there := userSets_ne_nil_iff operands
  rw [OperandForm]
  cases sets : Operand.userSets operands with
  | nil =>
    rw [sets] at there
    rw [Document.UserSet.toJson]
    have none : ¬∃ operand ∈ operands, operand.kind.isPlaceholder = false :=
      there.not.mp (not_not_intro rfl)
    apply Fitting.keyed
    · exact .kept trivial rfl (.omitted none .empty)
    · exact distinct
  | cons first more =>
    rw [sets] at there inner
    rw [Document.UserSet.toJson]
    have some : ∃ operand ∈ operands, operand.kind.isPlaceholder = false :=
      there.mp (List.cons_ne_nil _ _)
    apply Fitting.keyed
    · exact .kept trivial rfl (.kept some ⟨_, rfl, inner⟩ .empty)
    · exact distinct

theorem operandsForm_userSets (operands : List Operand) :
    OperandsForm operands (listToJson (Operand.userSets operands)) := by
  induction operands using Operand.inductionOn with
  | empty => rfl
  | this rest ih | nil rest ih => exact ih
  | computed relation rest ih =>
    have first : OperandForm (.computed relation) (Document.UserSet.relation relation).toJson :=
      Fitting.keyed (.kept trivial rfl .empty) (List.nodup_singleton _)
    exact ⟨_, _, rfl, first, ih⟩
  | arrow tupleset target rest ih =>
    have distinct : ["relation", "permission"].Nodup := by decide
    have first : OperandForm (.arrow tupleset target)
        (Document.UserSet.arrow tupleset target).toJson :=
      Fitting.keyed (.kept trivial rfl (.kept trivial rfl .empty)) distinct
    exact ⟨_, _, rfl, first, ih⟩
  | nested operator inner rest ihInner ihRest =>
    rw [Operand.userSets_nested]
    exact ⟨_, _, rfl, operandForm_nested ihInner, ihRest⟩

end Operands

variable {options : Options}

theorem subjectForm (subject : AllowedSubject) :
    SubjectForm subject (Document.SubjectType.codec.write (mapSubject subject)) := by
  have distinct : ["type", "relation", "caveat"].Nodup := by decide
  rw [mapSubject_eq]
  apply keyed_record
  · exact distinct
  · exact .cons (Field.suits_text rfl) (.cons (Field.suits_textUnlessEmpty rfl)
      (.cons (Field.suits_textUnlessEmpty rfl) .nil))

theorem relationForm (options : Options) (declaration : Declaration) :
    RelationForm options declaration
      (Document.Relation.codec.write (mapRelation options declaration)) := by
  have distinct : ["name", "types", "comment"].Nodup := by decide
  have types : List.Forall₂
      (fun subject type => SubjectForm subject (Document.SubjectType.codec.write type))
      declaration.allowed (declaration.allowed.map mapSubject) := by
    rw [List.forall₂_map_right_iff, List.forall₂_same]
    intro subject _
    exact subjectForm subject
  apply keyed_record
  · exact distinct
  · exact .cons (Field.suits_text rfl) (.cons (Field.suits_list types)
      (.cons (Field.suits_textUnlessEmpty rfl) .nil))

theorem expressionForm (rewrite : Option Rewrite) :
    ExpressionForm rewrite
      ((Json.Codec.optional Document.UserSet.codec).write (rewrite.map Rewrite.userSet)) := by
  cases rewrite with
  | none => rfl
  | some rewrite => exact operandForm_nested (operandsForm_userSets rewrite.operands)

theorem permissionForm (options : Options) (declaration : Declaration) :
    PermissionForm options declaration
      (Document.Permission.codec.write (permissionOf options declaration)) := by
  have distinct : ["name", "userSet", "comment"].Nodup := by decide
  apply keyed_record
  · exact distinct
  · exact .cons (Field.suits_text rfl)
      (.cons (Field.suits_nullable (expressionForm declaration.rewrite))
        (.cons (Field.suits_textUnlessEmpty rfl) .nil))

theorem caveatForm (options : Options) (caveat : Caveat) :
    CaveatForm options caveat (Document.Caveat.codec.write (mapCaveat options caveat)) := by
  have distinct : ["name", "parameters", "comment"].Nodup := by decide
  have parameters : List.Forall₂
      (fun parameter item => Json.Codec.string.write item = .string parameter)
      caveat.parameters caveat.parameters := by
    rw [List.forall₂_same]
    intro parameter _
    rfl
  apply keyed_record
  · exact distinct
  · exact .cons (Field.suits_text rfl) (.cons (Field.suits_list parameters)
      (.cons (Field.suits_textUnlessEmpty rfl) .nil))

theorem relationForm_of_exported {owner : String} {declaration : Declaration}
    {relation : Document.Relation} (exported : ExportedRelation options owner declaration relation) :
    RelationForm options declaration (Document.Relation.codec.write relation) := by
  rcases mapDeclaration_ok_iff.mp exported.mapped with ⟨_, same⟩ | ⟨_, _, same⟩
  · cases same
    exact relationForm options declaration
  · cases same

theorem permissionForm_of_exported {owner : String} {declaration : Declaration}
    {permission : Document.Permission}
    (exported : ExportedPermission options owner declaration permission) :
    PermissionForm options declaration (Document.Permission.codec.write permission) := by
  rcases mapDeclaration_ok_iff.mp exported.mapped with ⟨_, same⟩ | ⟨_, _, same⟩
  · cases same
  · cases same
    exact permissionForm options declaration

theorem definitionForm {definition : Definition} {exported : Document.Definition}
    (mapped : (mapDefinition options definition).result = .ok exported) :
    DefinitionForm options definition (Document.Definition.codec.write exported) := by
  have distinct : ["name", "namespace", "relations", "permissions", "comment"].Nodup := by decide
  have declarations := exportedDefinition_of_mapped mapped
  have relations := declarations.relations.imp fun _ _ => relationForm_of_exported
  have permissions := declarations.permissions.imp fun _ _ => permissionForm_of_exported
  obtain ⟨entries, _, same⟩ := (mapDefinition_ok_iff options definition exported).mp mapped
  subst same
  apply keyed_record
  · exact distinct
  · exact .cons (Field.suits_text rfl) (.cons (Field.suits_textUnlessEmpty rfl)
      (.cons (Field.suits_listUnlessEmpty relations) (.cons (Field.suits_listUnlessEmpty permissions)
        (.cons (Field.suits_textUnlessEmpty rfl) .nil))))

theorem schemaForm {schema : Schema} {document : Document.Schema}
    (mapped : (mapSchema options schema).result = .ok document) :
    SchemaForm options schema (Document.Schema.codec.write document) := by
  have distinct : ["definitions", "caveats"].Nodup := by decide
  obtain ⟨each, same⟩ := (mapSchema_ok_iff options schema document).mp mapped
  have definitions := each.imp fun _ _ => definitionForm
  have caveats : List.Forall₂
      (fun caveat item => CaveatForm options caveat (Document.Caveat.codec.write item))
      schema.caveats document.caveats := by
    rw [same, List.forall₂_map_right_iff, List.forall₂_same]
    intro caveat _
    exact caveatForm options caveat
  apply keyed_record
  · exact distinct
  · exact .cons (Field.suits_list definitions) (.cons (Field.suits_listUnlessEmpty caveats) .nil)

/-- An exported text, compact or pretty, is that of a value of the form that the compiled schema
asks for, with every object in it. -/
theorem compactText_form {schema : Schema} {text : String}
    (exported : (compactText options schema).result = .ok text) :
    ∃ json : Json, text = json.text ∧
      (prettyText options schema).result = .ok json.prettyText ∧ SchemaForm options schema json := by
  obtain ⟨document, mapped, same⟩ := (compactText_ok_iff options schema text).mp exported
  refine ⟨Document.Schema.codec.write document, same.symm, ?_, schemaForm mapped⟩
  rw [prettyText_result, mapped]
  rfl

theorem compactText_form_folder :
    (compactText {} folderSchema).result = .ok (Document.Schema.codec.text folderDocument) ∧
      ∃ json : Json, Document.Schema.codec.text folderDocument = json.text ∧
        (prettyText {} folderSchema).result = .ok json.prettyText ∧
          SchemaForm {} folderSchema json := by
  have mapped : (mapSchema {} folderSchema).result = .ok folderDocument := by
    simp only [folderSchema, Declaration.relation, Declaration.permission,
      MetadataEntry.relationKind_eq]
    rfl
  have exported := (compactText_ok_iff {} folderSchema _).mpr ⟨folderDocument, mapped, rfl⟩
  exact ⟨exported, compactText_form exported⟩

end PermissionSchema.Export
