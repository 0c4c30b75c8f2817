import PermissionSchema.Compiled.Metadata
import PermissionSchema.Compiled.Rewrite
/-!
Compiled schemas: definitions of object types with their declarations, and caveats.
-/
namespace PermissionSchema.Compiled

inductive SubjectRelation where
  | relation (name : String)
  | wildcard
  deriving DecidableEq, Repr, Inhabited

/-- The relation that stands for the subject itself. -/
def ellipsis : String := "..."

structure AllowedSubject where
  subjectType : String
  relation : SubjectRelation
  caveat : Option String := none
  deriving DecidableEq, Repr, Inhabited

namespace AllowedSubject

def inRelation (subjectType relation : String) : AllowedSubject :=
  ⟨subjectType, .relation relation, none⟩

def direct (subjectType : String) : AllowedSubject :=
  inRelation subjectType ellipsis

def wildcard (subjectType : String) : AllowedSubject :=
  ⟨subjectType, .wildcard, none⟩

def withCaveat (subject : AllowedSubject) (caveat : String) : AllowedSubject :=
  { subject with caveat := some caveat }

end AllowedSubject

/-- A declaration within a definition. Its metadata tell whether it is stored or computed. -/
structure Declaration where
  name : String
  rewrite : Option Rewrite := none
  allowed : List AllowedSubject := []
  metadata : Metadata := []
  deriving Repr, Inhabited

namespace Declaration

def relation (name : String) (allowed : List AllowedSubject) : Declaration :=
  { name, allowed, metadata := [.relationKind .relation] }

def permission (name : String) (rewrite : Rewrite) : Declaration :=
  { name, rewrite := some rewrite, metadata := [.relationKind .permission] }

def withComment (declaration : Declaration) (comment : String) : Declaration :=
  { declaration with metadata := declaration.metadata.withComment comment }

end Declaration

structure Definition where
  name : String
  declarations : List Declaration := []
  metadata : Metadata := []
  deriving Repr, Inhabited

def Definition.withComment (definition : Definition) (comment : String) : Definition :=
  { definition with metadata := definition.metadata.withComment comment }

structure Caveat where
  name : String
  parameters : List String := []
  metadata : Metadata := []
  deriving DecidableEq, Repr, Inhabited

def Caveat.withComment (caveat : Caveat) (comment : String) : Caveat :=
  { caveat with metadata := caveat.metadata.withComment comment }

structure Schema where
  definitions : List Definition := []
  caveats : List Caveat := []
  deriving Repr, Inhabited

end PermissionSchema.Compiled
