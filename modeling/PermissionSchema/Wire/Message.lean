import PermissionSchema.Wire.Field
/-!
Messages with one known field, number 1. All other fields are passed over, and of several
occurrences of the known one the last counts.
-/
namespace PermissionSchema.Wire

structure Known (α : Type) where
  label : String
  wireType : WireType
  value : Reader α

/-- A payload that could not be read: the known field's label if the fault lies in that field. -/
structure Failure where
  label : Option String
  fault : Fault
  deriving DecidableEq, Repr

def fieldsUpTo {α : Type} (known : Known α) : Nat → α → List UInt8 → Except Failure α
  | _, held, [] => .ok held
  | 0, _, _ :: _ => .error ⟨none, .tooShort⟩
  | bound + 1, held, octet :: rest =>
    match readKey (octet :: rest) with
    | .error fault => .error ⟨none, fault⟩
    | .ok (key, after) =>
      if key.field = 1 then
        if key.wireType = known.wireType then
          match known.value after with
          | .error fault => .error ⟨some known.label, fault⟩
          | .ok (value, next) => fieldsUpTo known bound value next
        else .error ⟨some known.label, .wrongWireType key.wireType known.wireType⟩
      else
        match skipField maxDepth key after with
        | .error fault => .error ⟨none, fault⟩
        | .ok ((), next) => fieldsUpTo known bound held next

/-- The value of the known field; `blank` if it does not occur. Every field takes an octet at
least. -/
def decode {α : Type} (known : Known α) (blank : α) (payload : List UInt8) : Except Failure α :=
  fieldsUpTo known payload.length blank payload

def WireType.name : WireType → String
  | .varint => "Varint"
  | .fixed64 => "SixtyFourBit"
  | .lengthDelimited => "LengthDelimited"
  | .groupStart => "StartGroup"
  | .groupEnd => "EndGroup"
  | .fixed32 => "ThirtyTwoBit"

def Fault.message : Fault → String
  | .badVarint => "invalid varint"
  | .badKey value => "invalid key value: " ++ toString value
  | .badWireType value => "invalid wire type value: " ++ toString value
  | .fieldZero => "invalid tag value: 0"
  | .wrongWireType found expected =>
    "invalid wire type: " ++ found.name ++ " (expected " ++ expected.name ++ ")"
  | .tooShort => "buffer underflow"
  | .notUtf8 => "invalid string value: data is not UTF-8 encoded"
  | .strayGroupEnd => "unexpected end group tag"
  | .tooDeep => "recursion limit reached"

def Failure.message (failure : Failure) : String :=
  "failed to decode Protobuf message: " ++
    (match failure.label with
      | none => ""
      | some label => label ++ ": ") ++ failure.fault.message

end PermissionSchema.Wire
