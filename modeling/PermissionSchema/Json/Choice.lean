import PermissionSchema.Json.Brackets
/-!
Reading choices: a variant's name alone, or an object with that one name and what the variant holds.
-/
namespace PermissionSchema.Json.Reader

/-- The variants of a choice: their names, and what a bare name stands for or else what it would
have to be. -/
structure Variants (τ α : Type) where
  tags : List τ
  name : τ → String
  bare : τ → Except String α

def Variants.tag {τ α : Type} (variants : Variants τ α) (name : String) : Reader τ :=
  match variants.tags.find? (variants.name · = name) with
  | some tag => pure tag
  | none => failHere (.unknownVariant name (variants.tags.map variants.name))

def variant {τ α : Type} (variants : Variants τ α) (payload : τ → Reader α) : Reader α := do
  let octet ← peekToken .endInObject
  if octet = Octet.quote then
    advance
    let tag ← variants.tag (← stringBody)
    colon
    match variants.bare tag with
    | .ok value =>
      null
      pure value
    | .error _ => payload tag
  else if octet = Octet.closeObject then failNext .expectedValue
  else failNext .keyNotString

def closeVariant : Reader Unit := do
  skipBlanks
  fun input => match input with
    | [] => failHere .endInObject []
    | octet :: rest =>
      if octet = Octet.closeObject then .ok ((), rest)
      else failHere .expectedValue (octet :: rest)

/-- Reads a choice, written as the bare name of a variant or as an object with that name and the
value. -/
def choice {τ α : Type} (variants : Variants τ α) (payload : Option (τ → Reader α)) :
    Reader α := do
  let octet ← peekValue
  if octet = Octet.quote then
    advance
    let tag ← variants.tag (← stringBody)
    match variants.bare tag with
    | .ok value => pure value
    | .error expected => failUnplaced (.wrongType .bareVariant expected)
  else if octet = Octet.openObject then
    match payload with
    | none => failNext .tooDeep
    | some payload =>
      advance
      let value ← variant variants payload
      closeVariant
      pure value
  else failNext .expectedValue

end PermissionSchema.Json.Reader
