import PermissionSchema.Wire.Varint
/-!
Fields of the protobuf wire format: their keys, and passing over a field that is not known.
-/
namespace PermissionSchema.Wire

def WireType.ofNumber? : Nat → Option WireType
  | 0 => some .varint
  | 1 => some .fixed64
  | 2 => some .lengthDelimited
  | 3 => some .groupStart
  | 4 => some .groupEnd
  | 5 => some .fixed32
  | _ => none

structure Key where
  field : Nat
  wireType : WireType
  deriving DecidableEq, Repr

def Key.ofNumber (value : Nat) : Except Fault Key :=
  if 0x100000000 ≤ value then .error (.badKey value)
  else
    match WireType.ofNumber? (value % 8) with
    | none => .error (.badWireType (value % 8))
    | some wireType =>
      if value / 8 = 0 then .error .fieldZero else .ok ⟨value / 8, wireType⟩

def readKey : Reader Key := do
  let value ← readVarint
  fun rest => (Key.ofNumber value).map (·, rest)

def take (count : Nat) : Reader (List UInt8) := fun input =>
  if count ≤ input.length then .ok (input.take count, input.drop count) else .error .tooShort

def takeDelimited : Reader (List UInt8) := do
  take (← readVarint)

def skipGroup (skip : Key → Reader Unit) (field : Nat) : Nat → Reader Unit
  | 0 => fun _ => .error .badVarint
  | bound + 1 => do
    let key ← readKey
    if key.wireType = .groupEnd then
      if key.field = field then pure () else fun _ => .error .strayGroupEnd
    else
      skip key
      skipGroup skip field bound

/-- Passes over the value of a field, inside which groups may nest so many levels deep. -/
def skipField : Nat → Key → Reader Unit
  | 0, _ => fun _ => .error .tooDeep
  | depth + 1, key =>
    match key.wireType with
    | .varint => do let _ ← readVarint
    | .fixed64 => do let _ ← take 8
    | .fixed32 => do let _ ← take 4
    | .lengthDelimited => do let _ ← takeDelimited
    | .groupStart => fun input => skipGroup (skipField depth) key.field (input.length + 1) input
    | .groupEnd => fun _ => .error .strayGroupEnd

def maxDepth : Nat := 100

end PermissionSchema.Wire
