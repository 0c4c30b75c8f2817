import PermissionSchema.Operator
import PermissionSchema.Json.Any
import PermissionSchema.Json.Codec
/-!
User sets: the expressions of exported permissions. Their JSON form has no tag; which of three
shapes an object has is told by its names.
-/
namespace PermissionSchema

open PermissionSchema.Json

def Operator.variants : Reader.Variants Operator Operator where
  tags := Operator.all
  name := Operator.name
  bare operator := .ok operator

def Operator.codec : Codec Operator where
  write operator := .string operator.name
  read depth :=
    Reader.choice Operator.variants (Reader.inside (fun _ operator => pure operator) depth)

namespace Document

/-- A set of users: a set operation, the users in a relation of related objects, or those in a
relation of the object itself. -/
inductive UserSet where
  | operation (operator : Operator) (children : List UserSet)
  | arrow (through permission : String)
  | relation (name : String)
  deriving Repr, Inhabited

namespace UserSet

def children : UserSet → List UserSet
  | .operation _ children => children
  | _ => []

mutual

def toJson : UserSet → Json
  | .operation operator [] => .object [("operation", .string operator.name)]
  | .operation operator (child :: rest) =>
    .object [
      ("operation", .string operator.name),
      ("children", .array (listToJson (child :: rest)))]
  | .arrow through permission =>
    .object [("relation", .string through), ("permission", .string permission)]
  | .relation name => .object [("relation", .string name)]

def listToJson : List UserSet → List Json
  | [] => []
  | set :: rest => set.toJson :: listToJson rest

end

/-- What the members of an object say under the names that matter: for every member of that name, in
order, what its value reads as. -/
structure Members where
  operation : List (Option Operator) := []
  children : List (Option (List UserSet)) := []
  relation : List (Option String) := []
  permission : List (Option String) := []

def operatorOfJson : Json → Option Operator
  | .string name => Operator.ofName? name
  | .object [(name, .null)] => Operator.ofName? name
  | _ => none

def textOfJson : Json → Option String
  | .string text => some text
  | _ => none

/-- The first shape that fits. A name that a shape wants has to stand there once, with a value that
reads; operands may be missing. -/
def Members.userSet? (members : Members) : Option UserSet :=
  match members.operation, members.children, members.relation, members.permission with
  | [some operator], [], _, _ => some (.operation operator [])
  | [some operator], [some children], _, _ => some (.operation operator children)
  | _, _, [some through], [some permission] => some (.arrow through permission)
  | _, _, [some name], _ => some (.relation name)
  | _, _, _, _ => none

mutual

def ofJson : Json → Option UserSet
  | .object members => (membersOfJson members).userSet?
  | _ => none

def listOfJson : List Json → Option (List UserSet)
  | [] => some []
  | value :: rest =>
    match ofJson value, listOfJson rest with
    | some set, some sets => some (set :: sets)
    | _, _ => none

def childrenOfJson : Json → Option (List UserSet)
  | .array items => listOfJson items
  | _ => none

def membersOfJson : List (String × Json) → Members
  | [] => {}
  | (name, value) :: rest =>
    let more := membersOfJson rest
    if name = "operation" then
      { more with operation := operatorOfJson value :: more.operation }
    else if name = "children" then
      { more with children := childrenOfJson value :: more.children }
    else if name = "relation" then
      { more with relation := textOfJson value :: more.relation }
    else if name = "permission" then
      { more with permission := textOfJson value :: more.permission }
    else more

end

/-- Reads a user set: first the whole value, whatever it is, and then its shape. -/
def read (depth : Nat) : Reader UserSet := do
  match ofJson (← Reader.any depth) with
  | some set => pure set
  | none => Reader.failUnplaced (.noShape "UserSet")

def codec : Codec UserSet := ⟨toJson, read⟩

end UserSet

end Document

end PermissionSchema
