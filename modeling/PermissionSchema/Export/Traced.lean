import PermissionSchema.Json.Value
import PermissionSchema.SchemaError
/-!
Results that come with the events on the way to them.
-/
namespace PermissionSchema.Export

inductive Level where
  | debug
  | info
  | warn
  deriving DecidableEq, Repr

def Level.name : Level → String
  | .debug => "DEBUG"
  | .info => "INFO"
  | .warn => "WARN"

inductive Event where
  | sourceRead (octets : Nat) (defaultNameSpace : Option String)
  | dropped (definition relation kind : String)
  | withoutRewrite (definition permission : String)
  | definitionMapped (nameSpace name : String) (relations permissions : Nat)
  | schemaMapped (definitions : Nat) (caveats : List String)
  deriving DecidableEq, Repr

namespace Event

def level : Event → Level
  | .withoutRewrite .. => .warn
  | .schemaMapped .. => .info
  | _ => .debug

def heading (work phase : String) : List (String × Json) :=
  [("event", .string work), ("phase", .string phase)]

def fields : Event → List (String × Json)
  | .sourceRead octets defaultNameSpace =>
    heading "Compile" "Source" ++
      [("bytes", .natural octets), ("default_namespace", .string (defaultNameSpace.getD ""))]
  | .dropped definition relation kind =>
    heading "Export" "Userset" ++
      [("definition", .string definition), ("relation", .string relation),
        ("dropped", .string kind)]
  | .withoutRewrite definition permission =>
    heading "Export" "Permission" ++
      [("definition", .string definition), ("permission", .string permission),
        ("message", .string "permission has no userset rewrite")]
  | .definitionMapped nameSpace name relations permissions =>
    heading "Export" "Definition" ++
      [("namespace", .string nameSpace), ("name", .string name),
        ("relations", .natural relations), ("permissions", .natural permissions)]
  | .schemaMapped definitions caveats =>
    heading "Export" "Mapped" ++
      [("definitions", .natural definitions), ("caveats", .string (",".intercalate caveats))]

end Event

/-- A result and the events before it. A failure keeps the events that came before it. -/
structure Traced (α : Type) where
  events : List Event
  result : Except SchemaError α

namespace Traced

variable {α β : Type}

def ofExcept (result : Except SchemaError α) : Traced α :=
  ⟨[], result⟩

def emit (event : Event) : Traced Unit :=
  ⟨[event], .ok ()⟩

def fail (error : SchemaError) : Traced α :=
  ⟨[], .error error⟩

def bind (first : Traced α) (next : α → Traced β) : Traced β :=
  match first.result with
  | .ok value => ⟨first.events ++ (next value).events, (next value).result⟩
  | .error error => ⟨first.events, .error error⟩

instance : Monad Traced where
  pure value := ⟨[], .ok value⟩
  bind := bind

theorem ext {first second : Traced α} (events : first.events = second.events)
    (result : first.result = second.result) : first = second := by
  cases first
  cases second
  simp_all

theorem pure_eq (value : α) : (pure value : Traced α) = ⟨[], .ok value⟩ := rfl

theorem bind_ok {first : Traced α} {value : α} (ok : first.result = .ok value)
    (next : α → Traced β) :
    first >>= next = ⟨first.events ++ (next value).events, (next value).result⟩ := by
  show bind first next = _
  rw [bind, ok]

theorem bind_error {first : Traced α} {error : SchemaError} (failed : first.result = .error error)
    (next : α → Traced β) : first >>= next = ⟨first.events, .error error⟩ := by
  show bind first next = _
  rw [bind, failed]

end Traced

end PermissionSchema.Export
