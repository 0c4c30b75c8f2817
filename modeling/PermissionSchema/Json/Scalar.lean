import PermissionSchema.Json.Skip
/-!
Reading a value of a known kind that has no parts, and refusing a value of another kind. A value
that is refused is read first, brackets apart: what is wrong inside it is reported before its kind.
-/
namespace PermissionSchema.Json.Reader

def peekValue : Reader UInt8 :=
  peekToken .endInValue

def refuse {α : Type} (expected : String) : Reader α := do
  let octet ← peekValue
  if octet = Octet.letterN then
    nullWord
    failHere (.wrongType .null expected)
  else if octet = Octet.letterT then
    trueWord
    failHere (.wrongType (.boolean true) expected)
  else if octet = Octet.letterF then
    falseWord
    failHere (.wrongType (.boolean false) expected)
  else if octet = Octet.minus || Octet.isDigit octet then
    let value ← number
    failHere (.wrongType (.number value) expected)
  else if octet = Octet.quote then
    advance
    let value ← stringBody
    failHere (.wrongType (.string value) expected)
  else if octet = Octet.openList then failHere (.wrongType .sequence expected)
  else if octet = Octet.openObject then failHere (.wrongType .map expected)
  else failNext .expectedValue

def string : Reader String := do
  let octet ← peekValue
  if octet = Octet.quote then
    advance
    stringBody
  else refuse "a string"

def boolean : Reader Bool := do
  let octet ← peekValue
  if octet = Octet.letterT then
    trueWord
    pure true
  else if octet = Octet.letterF then
    falseWord
    pure false
  else refuse "a boolean"

def octet : Reader UInt8 := do
  let first ← peekValue
  if first = Octet.minus || Octet.isDigit first then
    match ← number with
    | .real value => failHere (.wrongType (.number (.real value)) "u8")
    | .integer value =>
      if 0 ≤ value ∧ value < 256 then pure value.toNat.toUInt8
      else failHere (.wrongValue value "u8")
  else refuse "u8"

def null : Reader Unit := do
  let octet ← peekValue
  if octet = Octet.letterN then nullWord else refuse "unit"

def optional {α : Type} (value : Reader α) : Reader (Option α) := fun input =>
  match input.dropWhile Octet.isBlank with
  | [] => (some <$> value) []
  | octet :: rest =>
    if octet = Octet.letterN then (do nullWord; pure none : Reader _) (octet :: rest)
    else (some <$> value) (octet :: rest)

end PermissionSchema.Json.Reader
