import PermissionSchema.Compiled.Schema
import PermissionSchema.Document.Schema
import PermissionSchema.Export.Comment
import PermissionSchema.Export.Options
import PermissionSchema.Export.Traced
/-!
From compiled schemas to exported ones. Declarations are mapped in order, and the first that cannot
be mapped ends the pass.
-/
namespace PermissionSchema.Export

open PermissionSchema.Compiled

structure Scope where
  definition : String
  relation : String
  strict : Bool
  deriving DecidableEq, Repr

/-- An operand that stands for no expression: refused if the export is strict, else dropped. -/
def placeholder (scope : Scope) (kind : OperandKind) : Traced (Option Document.UserSet) :=
  if scope.strict then .fail (.unsupportedOperand scope.definition scope.relation kind.name)
  else do
    Traced.emit (.dropped scope.definition scope.relation kind.name)
    pure none

mutual

def mapOperand (scope : Scope) : Operand → Traced (Option Document.UserSet)
  | .this => placeholder scope .this
  | .nil => placeholder scope .nil
  | .computed relation => pure (some (.relation relation))
  | .arrow tupleset computed => pure (some (.arrow tupleset computed))
  | .nested operator operands => do
    let children ← mapOperands scope operands
    pure (some (.operation operator children))

def mapOperands (scope : Scope) : List Operand → Traced (List Document.UserSet)
  | [] => pure []
  | operand :: rest => do
    let set ← mapOperand scope operand
    let sets ← mapOperands scope rest
    pure (set.toList ++ sets)

end

def mapRewrite (scope : Scope) (rewrite : Rewrite) : Traced Document.UserSet := do
  let children ← mapOperands scope rewrite.operands
  pure (.operation rewrite.operator children)

def mapSubject (subject : AllowedSubject) : Document.SubjectType where
  typeName := subject.subjectType
  relation :=
    match subject.relation with
    | .wildcard => Document.wildcard
    | .relation name => if name = ellipsis then "" else name
  caveat := subject.caveat.getD ""

def mapCaveat (options : Options) (caveat : Caveat) : Document.Caveat where
  name := caveat.name
  parameters := caveat.parameters
  comment := docComment caveat.metadata options.docCommentUrl

def mapRelation (options : Options) (declaration : Declaration) : Document.Relation where
  name := declaration.name
  types := declaration.allowed.map mapSubject
  comment := docComment declaration.metadata options.docCommentUrl

def mapExpression (scope : Scope) : Option Rewrite → Traced (Option Document.UserSet)
  | some rewrite => some <$> mapRewrite scope rewrite
  | none => do
    Traced.emit (.withoutRewrite scope.definition scope.relation)
    pure none

def mapPermission (options : Options) (definition : String) (declaration : Declaration) :
    Traced Document.Permission := do
  let userSet ← mapExpression ⟨definition, declaration.name, options.strict⟩ declaration.rewrite
  pure ⟨declaration.name, userSet, docComment declaration.metadata options.docCommentUrl⟩

inductive Entry where
  | relation (relation : Document.Relation)
  | permission (permission : Document.Permission)
  deriving Repr

def mapDeclaration (options : Options) (definition : String) (declaration : Declaration) :
    Traced Entry :=
  match declaration.metadata.kind options.relationMetadataUrl with
  | .relation => pure (.relation (mapRelation options declaration))
  | .permission => Entry.permission <$> mapPermission options definition declaration
  | .unknown => .fail (.unclassified definition declaration.name)

def mapDeclarations (options : Options) (definition : String) :
    List Declaration → Traced (List Entry)
  | [] => pure []
  | declaration :: rest => do
    let entry ← mapDeclaration options definition declaration
    let entries ← mapDeclarations options definition rest
    pure (entry :: entries)

def relationsOf (entries : List Entry) : List Document.Relation :=
  entries.filterMap fun
    | .relation relation => some relation
    | .permission _ => none

def permissionsOf (entries : List Entry) : List Document.Permission :=
  entries.filterMap fun
    | .relation _ => none
    | .permission permission => some permission

def mapDefinition (options : Options) (definition : Definition) : Traced Document.Definition := do
  let entries ← mapDeclarations options definition.name definition.declarations
  let relations := relationsOf entries
  let permissions := permissionsOf entries
  let (nameSpace, name) := Document.splitName definition.name
  Traced.emit (.definitionMapped nameSpace name relations.length permissions.length)
  let comment := docComment definition.metadata options.docCommentUrl
  pure ⟨name, nameSpace, relations, permissions, comment⟩

def mapDefinitions (options : Options) : List Definition → Traced (List Document.Definition)
  | [] => pure []
  | definition :: rest => do
    let mapped ← mapDefinition options definition
    let more ← mapDefinitions options rest
    pure (mapped :: more)

def mapSchema (options : Options) (schema : Schema) : Traced Document.Schema := do
  let definitions ← mapDefinitions options schema.definitions
  let caveats := schema.caveats.map (mapCaveat options)
  Traced.emit (.schemaMapped definitions.length (caveats.map (·.name)))
  pure ⟨definitions, caveats⟩

end PermissionSchema.Export
