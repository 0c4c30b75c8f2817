import PermissionSchema.Json.Scalar
/-!
Brackets: going from one element or member to the next, closing, and reading lists.

A reader that may open a bracket gets what it is to read inside as an `Option`: where it is `none`,
no further bracket may be opened, and the text is refused as nested too deep.
-/
namespace PermissionSchema.Json.Reader

/-- Goes to the next element of a list, past the comma between two elements; `false` at the end of
the list. -/
def nextElement (atFirst : Bool) : Reader Bool := do
  let octet ← peekToken .endInList
  if octet = Octet.closeList then pure false
  else if atFirst then pure true
  else if octet = Octet.comma then
    advance
    let next ← peekValue
    if next = Octet.closeList then failNext .trailingComma else pure true
  else failNext .expectedListEnd

def nextMember (atFirst : Bool) : Reader Bool := do
  let octet ← peekToken .endInObject
  if octet = Octet.closeObject then pure false
  else if atFirst then
    if octet = Octet.quote then pure true else failNext .keyNotString
  else if octet = Octet.comma then
    advance
    let next ← peekValue
    if next = Octet.quote then pure true
    else if next = Octet.closeObject then failNext .trailingComma
    else failNext .keyNotString
  else failNext .expectedObjectEnd

def closeList : Reader Unit := do
  let octet ← peekToken .endInList
  if octet = Octet.closeList then advance
  else if octet = Octet.comma then
    advance
    skipBlanks
    fun input => match input with
      | [] => failNext .trailingCharacters []
      | next :: rest =>
        if next = Octet.closeList then failNext .trailingComma (next :: rest)
        else failNext .trailingCharacters (next :: rest)
  else failNext .trailingCharacters

def closeObject : Reader Unit := do
  let octet ← peekToken .endInObject
  if octet = Octet.closeObject then advance
  else if octet = Octet.comma then failNext .trailingComma
  else failNext .trailingCharacters

def bracketed {α : Type} (close : Reader Unit) : Option (Reader α) → Reader α
  | none => failNext .tooDeep
  | some inside => do
    advance
    thenClose inside close

def elementsUpTo {α : Type} (element : Reader α) : Nat → Bool → Reader (List α)
  | 0, _ => failNext .endInList
  | bound + 1, atFirst => do
    if ← nextElement atFirst then
      let value ← element
      let more ← elementsUpTo element bound false
      pure (value :: more)
    else pure []

/-- Reads the elements of a list. Every element takes an octet at least. -/
def elements {α : Type} (element : Reader α) : Reader (List α) := fun input =>
  elementsUpTo element (input.length + 1) true input

def sequence {α : Type} (element : Option (Reader α)) : Reader (List α) := do
  let octet ← peekValue
  if octet = Octet.openList then bracketed closeList (element.map elements)
  else refuse "a sequence"

end PermissionSchema.Json.Reader
