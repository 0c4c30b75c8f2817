import PermissionSchema.Json.Brackets
/-!
Reading any value and keeping it as it is.
-/
namespace PermissionSchema.Json.Reader

def keptMembersUpTo (value : Reader Json) : Nat → Bool → Reader (List (String × Json))
  | 0, _ => failNext .endInObject
  | bound + 1, atFirst => do
    if ← nextMember atFirst then
      advance
      let name ← stringBody
      colon
      let held ← value
      let more ← keptMembersUpTo value bound false
      pure ((name, held) :: more)
    else pure []

def keptMembers (value : Reader Json) : Reader (List (String × Json)) := fun input =>
  keptMembersUpTo value (input.length + 1) true input

def anyWith (within : Option (Reader Json)) : Reader Json := do
  let octet ← peekValue
  if octet = Octet.letterN then
    nullWord
    pure .null
  else if octet = Octet.letterT then
    trueWord
    pure (.boolean true)
  else if octet = Octet.letterF then
    falseWord
    pure (.boolean false)
  else if octet = Octet.minus || Octet.isDigit octet then Json.number <$> number
  else if octet = Octet.quote then
    advance
    Json.string <$> stringBody
  else if octet = Octet.openList then
    Json.array <$> bracketed closeList (within.map elements)
  else if octet = Octet.openObject then
    Json.object <$> bracketed closeObject (within.map keptMembers)
  else failNext .expectedValue

/-- Reads any value and keeps it, repeated names and all. -/
def any : Nat → Reader Json
  | 0 => anyWith none
  | depth + 1 => anyWith (some (any depth))

end PermissionSchema.Json.Reader
