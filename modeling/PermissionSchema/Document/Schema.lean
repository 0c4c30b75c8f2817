import PermissionSchema.Document.UserSet
/-!
Exported schemas: object types with their relations and permissions, and caveats.
-/
namespace PermissionSchema.Document

/-- One type of subjects of a relation. The relation is empty for the subjects themselves and `*`
for all subjects of the type. -/
structure SubjectType where
  typeName : String
  relation : String
  caveat : String
  deriving DecidableEq, Repr, Inhabited

def wildcard : String := "*"

namespace SubjectType

def isWildcard (subject : SubjectType) : Bool :=
  subject.relation = wildcard

def isSelf (subject : SubjectType) : Bool :=
  subject.relation = ""

end SubjectType

structure Relation where
  name : String
  types : List SubjectType
  comment : String
  deriving DecidableEq, Repr, Inhabited

/-- A computed permission. It has no user set only if it was compiled without an expression. -/
structure Permission where
  name : String
  userSet : Option UserSet
  comment : String
  deriving Repr, Inhabited

structure Definition where
  name : String
  nameSpace : String
  relations : List Relation
  permissions : List Permission
  comment : String
  deriving Repr, Inhabited

/-- Splits a qualified name at its first slash into a name space and a name. Without a slash the
name space is empty. -/
def splitName (qualified : String) : String × String :=
  let letters := qualified.toList
  match letters.dropWhile (· ≠ '/') with
  | [] => ("", qualified)
  | _ :: name => (String.ofList (letters.takeWhile (· ≠ '/')), String.ofList name)

def qualifiedName (nameSpace name : String) : String :=
  if nameSpace = "" then name else nameSpace ++ "/" ++ name

def Definition.qualifiedName (definition : Definition) : String :=
  Document.qualifiedName definition.nameSpace definition.name

structure Caveat where
  name : String
  parameters : List String
  comment : String
  deriving DecidableEq, Repr, Inhabited

structure Schema where
  definitions : List Definition
  caveats : List Caveat
  deriving Repr, Inhabited

def Schema.definition? (schema : Schema) (qualifiedName : String) : Option Definition :=
  schema.definitions.find? (·.qualifiedName = qualifiedName)

end PermissionSchema.Document
