/-!
Varints of the protobuf wire format: seven bits to an octet, the low ones first, and the high bit of
every octet but the last set.
-/
namespace PermissionSchema.Wire

inductive WireType where
  | varint
  | fixed64
  | lengthDelimited
  | groupStart
  | groupEnd
  | fixed32
  deriving DecidableEq, Repr

inductive Fault where
  | badVarint
  | badKey (value : Nat)
  | badWireType (value : Nat)
  | fieldZero
  | wrongWireType (found expected : WireType)
  | tooShort
  | notUtf8
  | strayGroupEnd
  | tooDeep
  deriving DecidableEq, Repr

abbrev Reader (α : Type) : Type :=
  StateT (List UInt8) (Except Fault) α

def varint (value : Nat) : List UInt8 :=
  if value < 128 then [value.toUInt8]
  else (value % 128 + 128).toUInt8 :: varint (value / 128)
termination_by value
decreasing_by omega

/-- Reads a varint of at most `groups + 1` octets; the last of so many may only hold one bit. -/
def varintUpTo : Nat → Reader Nat
  | _, [] => .error .badVarint
  | 0, octet :: rest => if octet < 2 then .ok (octet.toNat, rest) else .error .badVarint
  | groups + 1, octet :: rest =>
    if octet < 0x80 then .ok (octet.toNat, rest)
    else
      match varintUpTo groups rest with
      | .ok (high, after) => .ok (high * 128 + (octet.toNat - 128), after)
      | .error fault => .error fault

/-- Reads a varint of at most 64 bits. It need not be the shortest. -/
def readVarint : Reader Nat :=
  varintUpTo 9

end PermissionSchema.Wire
