import PermissionSchema.Json.Brackets
/-!
Reading records: objects with known fields. A record may also be written as the list of its fields.
-/
namespace PermissionSchema.Json.Reader

structure Slot (ρ : Type) where
  name : String
  keyOptional : Bool
  placeOptional : Bool
  value : Reader (ρ → ρ)

def membersUpTo {ρ : Type} (slots : List (Slot ρ)) : Nat → Bool → List String → ρ → Reader ρ
  | 0, _, _, _ => failNext .endInObject
  | bound + 1, atFirst, seen, held => do
    if ← nextMember atFirst then
      advance
      let name ← stringBody
      match slots.find? (·.name = name) with
      | none =>
        colon
        skipValue
        membersUpTo slots bound false seen held
      | some slot =>
        if name ∈ seen then failUnplaced (.duplicateField name)
        else
          colon
          let put ← slot.value
          membersUpTo slots bound false (name :: seen) (put held)
    else
      match slots.find? fun slot => !slot.keyOptional && slot.name ∉ seen with
      | some slot => failUnplaced (.missingField slot.name)
      | none => pure held

def members {ρ : Type} (slots : List (Slot ρ)) (blank : ρ) : Reader ρ := fun input =>
  membersUpTo slots (input.length + 1) true [] blank input

def positions {ρ : Type} (label : String) (count : Nat) :
    List (Slot ρ) → Nat → Bool → ρ → Reader ρ
  | [], _, _, held => pure held
  | slot :: rest, index, atFirst, held => do
    if ← nextElement atFirst then
      let put ← slot.value
      positions label count rest (index + 1) false (put held)
    else if slot.placeOptional then positions label count rest (index + 1) atFirst held
    else failUnplaced (.wrongLength index label count)

/-- Reads a record, written as an object or as the list of its fields; `blank` holds the values of
fields that may be left out. -/
def record {ρ : Type} (label : String) (blank : ρ) (slots : Option (List (Slot ρ))) : Reader ρ := do
  let octet ← peekValue
  if octet = Octet.openObject then
    bracketed closeObject (slots.map fun slots => members slots blank)
  else if octet = Octet.openList then
    bracketed closeList (slots.map fun slots => positions label slots.length slots 0 true blank)
  else refuse label

end PermissionSchema.Json.Reader
