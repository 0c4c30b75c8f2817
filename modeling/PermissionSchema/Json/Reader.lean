import PermissionSchema.Json.Fault
/-!
Reading from the front of an octet sequence. A reader returns a value and the octets after it, or a
failure. A place in the text is counted from its end, so that readers need not know what stands
before their octets.
-/
namespace PermissionSchema.Json

/-- A place in a text: how many octets follow it, and by how many columns it is shown further to
the left. -/
structure Place where
  left : Nat
  back : Nat
  deriving DecidableEq, Repr

/-- A failed reading: what was wrong, where, and the octets at which reading stopped. Some faults
concern a value as a whole and have no place until a bracket around it is closed. -/
structure Failure where
  fault : Fault
  place : Option Place
  rest : List UInt8

abbrev Reader (α : Type) : Type :=
  StateT (List UInt8) (Except Failure) α

def Failure.settle (failure : Failure) (rest : List UInt8) : Failure :=
  { failure with place := some (failure.place.getD ⟨rest.length, 0⟩), rest := rest }

/-- The line and the column of a place, both counted in octets: lines from one, columns from the
last line break. -/
def Place.lineColumn (place : Place) (text : List UInt8) : Nat × Nat :=
  let before := text.take (text.length - place.left)
  (before.count 0x0a + 1, (before.reverse.takeWhile (· ≠ 0x0a)).length - place.back)

def Failure.message (failure : Failure) (text : List UInt8) : String :=
  match failure.place with
  | none => failure.fault.message
  | some place =>
    let (line, column) := place.lineColumn text
    failure.fault.message ++ " at line " ++ toString line ++ " column " ++
      toString column

namespace Octet

abbrev quote : UInt8 := 0x22
abbrev plus : UInt8 := 0x2b
abbrev comma : UInt8 := 0x2c
abbrev minus : UInt8 := 0x2d
abbrev point : UInt8 := 0x2e
abbrev zero : UInt8 := 0x30
abbrev colon : UInt8 := 0x3a
abbrev openList : UInt8 := 0x5b
abbrev backslash : UInt8 := 0x5c
abbrev closeList : UInt8 := 0x5d
abbrev letterF : UInt8 := 0x66
abbrev letterN : UInt8 := 0x6e
abbrev letterT : UInt8 := 0x74
abbrev letterU : UInt8 := 0x75
abbrev openObject : UInt8 := 0x7b
abbrev closeObject : UInt8 := 0x7d

def isBlank (octet : UInt8) : Bool :=
  octet = 0x20 || octet = 0x0a || octet = 0x09 || octet = 0x0d

def isDigit (octet : UInt8) : Bool :=
  0x30 ≤ octet && octet ≤ 0x39

def digitValue (octet : UInt8) : Nat :=
  octet.toNat - 0x30

def hexValue? (octet : UInt8) : Option Nat :=
  if isDigit octet then some (digitValue octet)
  else if 0x61 ≤ octet && octet ≤ 0x66 then some (octet.toNat - 0x61 + 10)
  else if 0x41 ≤ octet && octet ≤ 0x46 then some (octet.toNat - 0x41 + 10)
  else none

end Octet

namespace Reader

def failHere {α : Type} (fault : Fault) : Reader α := fun input =>
  .error ⟨fault, some ⟨input.length, 0⟩, input⟩

/-- Fails at the octet that comes next, which is shown as if it were read. -/
def failNext {α : Type} (fault : Fault) : Reader α := fun input =>
  .error ⟨fault, some ⟨input.tail.length, 0⟩, input⟩

def failUnplaced {α : Type} (fault : Fault) : Reader α := fun input =>
  .error ⟨fault, none, input⟩

/-- Reads what a pair of brackets holds and then the closing bracket. The closing bracket is looked
for also after a failure, and a failure that has no place gets the one where that search ends. -/
def thenClose {α : Type} (inside : Reader α) (close : Reader Unit) : Reader α := fun input =>
  match inside input with
  | .ok (value, rest) =>
    match close rest with
    | .ok ((), after) => .ok (value, after)
    | .error failure => .error failure
  | .error failure =>
    match close failure.rest with
    | .ok ((), after) => .error (failure.settle after)
    | .error second => .error (failure.settle second.rest)

def advance : Reader Unit := fun input => .ok ((), input.tail)

def skipBlanks : Reader Unit := fun input => .ok ((), input.dropWhile Octet.isBlank)

def peekToken (atEnd : Fault) : Reader UInt8 := fun input =>
  match input.dropWhile Octet.isBlank with
  | [] => failNext atEnd []
  | octet :: rest => .ok (octet, octet :: rest)

def letters : List UInt8 → Reader Unit
  | [], input => .ok ((), input)
  | _ :: _, [] => failHere .endInValue []
  | letter :: more, octet :: rest =>
    if octet = letter then letters more rest else failHere .expectedWord rest

def nullWord : Reader Unit :=
  letters [0x6e, 0x75, 0x6c, 0x6c]

def trueWord : Reader Unit :=
  letters [0x74, 0x72, 0x75, 0x65]

def falseWord : Reader Unit :=
  letters [0x66, 0x61, 0x6c, 0x73, 0x65]

def readAll {α : Type} (reader : Reader α) (text : List UInt8) : Except Failure α :=
  match reader text with
  | .error failure => .error failure
  | .ok (value, rest) =>
    match rest.dropWhile Octet.isBlank with
    | [] => .ok value
    | octet :: after =>
      .error ⟨.trailingCharacters, some ⟨after.length, 0⟩, octet :: after⟩

end Reader

end PermissionSchema.Json
