import PermissionSchema.Json.Numeral
import PermissionSchema.Json.StringLiteral
/-!
Passing over a value that nobody asked for. It may nest as deep as it likes.
-/
namespace PermissionSchema.Json.Reader

def colon : Reader Unit := do
  let octet ← peekToken .endInObject
  if octet = Octet.colon then advance else failNext .expectedColon

def skipKey : Reader Unit := do
  let octet ← peekToken .endInObject
  if octet = Octet.quote then
    advance
    skipStringBody
  else failNext .keyNotString

mutual

/-- Passes over a value. Every bracket and every comma within it costs at most two of `bound`. -/
def skipWithin : Nat → Reader Unit
  | 0 => failNext .endInValue
  | bound + 1 => do
    let octet ← peekToken .endInValue
    if octet = Octet.letterN then nullWord
    else if octet = Octet.letterT then trueWord
    else if octet = Octet.letterF then falseWord
    else if octet = Octet.minus || Octet.isDigit octet then
      let _ ← numeral .badNumber
    else if octet = Octet.quote then
      advance
      skipStringBody
    else if octet = Octet.openList then
      advance
      skipItems bound true
    else if octet = Octet.openObject then
      advance
      skipMembers bound true
    else failNext .expectedValue

def skipItems : Nat → Bool → Reader Unit
  | 0, _ => failNext .endInList
  | bound + 1, atFirst => do
    let octet ← peekToken .endInList
    if octet = Octet.closeList then advance
    else if atFirst then
      skipWithin bound
      skipItems bound false
    else if octet = Octet.comma then
      advance
      skipWithin bound
      skipItems bound false
    else failNext .expectedListEnd

def skipMembers : Nat → Bool → Reader Unit
  | 0, _ => failNext .endInObject
  | bound + 1, atFirst => do
    let octet ← peekToken .endInObject
    if octet = Octet.closeObject then advance
    else if atFirst then
      skipKey
      colon
      skipWithin bound
      skipMembers bound false
    else if octet = Octet.comma then
      advance
      skipKey
      colon
      skipWithin bound
      skipMembers bound false
    else failNext .expectedObjectEnd

end

def skipValue : Reader Unit := fun input =>
  skipWithin (2 * input.length + 2) input

end PermissionSchema.Json.Reader
