import PermissionSchema.Json.Choice
import PermissionSchema.Json.Record
import PermissionSchema.Json.Print
/-!
The JSON forms of types. A codec writes a value and reads it back; a record's codec comes from one
list of fields, so that its writer and its reader cannot disagree on names or their order.
-/
namespace PermissionSchema.Json

namespace Reader

def inside {β : Type} (read : Nat → β) : Nat → Option β
  | 0 => none
  | depth + 1 => some (read depth)

end Reader

/-- How a type is written as JSON and read from it. The reader is told how many levels of brackets
it may open. -/
structure Codec (α : Type) where
  write : α → Json
  read : Nat → Reader α

def maxDepth : Nat := 127

namespace Codec

variable {α : Type}

def text (codec : Codec α) (value : α) : String :=
  (codec.write value).text

def ofOctets (codec : Codec α) (octets : List UInt8) : Except Failure α :=
  (codec.read maxDepth).readAll octets

def ofText (codec : Codec α) (text : String) : Except String α :=
  let octets := Text.Utf8.encode text.toList
  (codec.ofOctets octets).mapError fun failure => failure.message octets

def string : Codec String := ⟨Json.string, fun _ => Reader.string⟩

def boolean : Codec Bool := ⟨Json.boolean, fun _ => Reader.boolean⟩

def octet : Codec UInt8 := ⟨fun value => .natural value.toNat, fun _ => Reader.octet⟩

def list (element : Codec α) : Codec (List α) where
  write values := .array (values.map element.write)
  read depth := Reader.sequence (Reader.inside element.read depth)

def optional (value : Codec α) : Codec (Option α) where
  write
    | none => .null
    | some held => value.write held
  read depth := Reader.optional (value.read depth)

end Codec

/-- A field of a record type: its name and the form of its value, whether it may be left out of an
object or off a list, and which values are not written. -/
structure Field (ρ : Type) where
  Value : Type
  name : String
  codec : Codec Value
  get : ρ → Value
  set : Value → ρ → ρ
  keyOptional : Bool
  placeOptional : Bool
  omits : Value → Bool

namespace Field

variable {ρ α : Type}

def required (name : String) (codec : Codec α) (get : ρ → α) (set : α → ρ → ρ) : Field ρ :=
  ⟨α, name, codec, get, set, false, false, fun _ => false⟩

def defaulted (name : String) (codec : Codec α) (get : ρ → α) (set : α → ρ → ρ) : Field ρ :=
  ⟨α, name, codec, get, set, true, true, fun _ => false⟩

/-- A field that may be left out of an object, but not off a list, and is always written. -/
def nullable (name : String) (codec : Codec (Option α)) (get : ρ → Option α)
    (set : Option α → ρ → ρ) : Field ρ :=
  ⟨Option α, name, codec, get, set, true, false, fun _ => false⟩

def textUnlessEmpty (name : String) (get : ρ → String) (set : String → ρ → ρ) : Field ρ :=
  ⟨String, name, .string, get, set, true, true, (· = "")⟩

def listUnlessEmpty (name : String) (codec : Codec α) (get : ρ → List α) (set : List α → ρ → ρ) :
    Field ρ :=
  ⟨List α, name, codec.list, get, set, true, true, (·.isEmpty)⟩

def member? (field : Field ρ) (record : ρ) : Option (String × Json) :=
  let value := field.get record
  if field.omits value then none else some (field.name, field.codec.write value)

def slot (depth : Nat) (field : Field ρ) : Reader.Slot ρ where
  name := field.name
  keyOptional := field.keyOptional
  placeOptional := field.placeOptional
  value := field.set <$> field.codec.read depth

end Field

/-- A record type: what messages call it, the record whose fields may all be left out, and the
fields in the order in which they are written. -/
structure Record (ρ : Type) where
  label : String
  blank : ρ
  fields : List (Field ρ)

/-- Records are written as objects, and read from objects or from lists of their fields. -/
def Codec.record {ρ : Type} (shape : Record ρ) : Codec ρ where
  write value := .object (shape.fields.filterMap fun field => field.member? value)
  read depth := Reader.record shape.label shape.blank
    (Reader.inside (fun depth => shape.fields.map (Field.slot depth)) depth)

end PermissionSchema.Json
