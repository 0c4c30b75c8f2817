import PermissionSchema.Compiler
import PermissionSchema.Sink.Basic
/-!
Samples with which the library is run: schemas put together step by step, sinks with bounds, and
compilers of three kinds. The library takes any schema, sink and compiler, so no other module uses
these, and no theorem is about them.

Each step of a schema under construction goes to the node that was added last; where there is no
such node, there is nothing to change.
-/
namespace PermissionSchema.Compiled

def changeLast? {α : Type} (change : α → Option α) : List α → Option (List α)
  | [] => none
  | [item] => (change item).map ([·])
  | item :: next :: rest => (changeLast? change (next :: rest)).map (item :: ·)

namespace Schema

def addDefinition (schema : Schema) (definition : Definition) : Schema :=
  { schema with definitions := schema.definitions ++ [definition] }

def addCaveat (schema : Schema) (caveat : Caveat) : Schema :=
  { schema with caveats := schema.caveats ++ [caveat] }

def dropDefinition (schema : Schema) : Schema :=
  { schema with definitions := schema.definitions.dropLast }

def changeDefinition? (schema : Schema) (change : Definition → Option Definition) :
    Option Schema := do
  let definitions ← changeLast? change schema.definitions
  pure { schema with definitions }

def addDeclaration? (schema : Schema) (declaration : Declaration) : Option Schema :=
  schema.changeDefinition? fun definition =>
    some { definition with declarations := definition.declarations ++ [declaration] }

def changeDeclaration? (schema : Schema) (change : Declaration → Declaration) : Option Schema :=
  schema.changeDefinition? fun definition => do
    let declarations ← changeLast? (some ∘ change) definition.declarations
    pure { definition with declarations }

def changeCaveat? (schema : Schema) (change : Caveat → Caveat) : Option Schema := do
  let caveats ← changeLast? (some ∘ change) schema.caveats
  pure { schema with caveats }

def lastDefinition? (schema : Schema) : Option Definition :=
  schema.definitions.getLast?

def lastDeclaration? (schema : Schema) : Option Declaration := do
  (← schema.lastDefinition?).declarations.getLast?

def lastCaveat? (schema : Schema) : Option Caveat :=
  schema.caveats.getLast?

end Schema

/-- One level of a tower: a computed operand, on every third level an arrow, and then the level
below. The lowest level may end in an operand that stands for nothing. -/
def Rewrite.level (operator : Operator) (index : Nat) (below : Option Rewrite) (withNil : Bool) :
    Rewrite :=
  let computed := [Operand.computed ("r" ++ toString index)]
  let arrow :=
    if index % 3 = 1 then [Operand.arrow ("t" ++ toString index) "view"]
    else []
  let last := if index = 0 ∧ withNil then [Operand.nil] else []
  ⟨operator, computed ++ arrow ++ below.toList.map Operand.ofRewrite ++ last⟩

def Rewrite.tower (operators : List Operator) (withNil : Bool) : Nat → Option Rewrite
  | 0 => none
  | height + 1 =>
    let operator := (operators[height % operators.length]?).getD .union
    some (Rewrite.level operator height (tower operators withNil height) withNil)

end PermissionSchema.Compiled

namespace PermissionSchema

structure Bounds where
  chunk : Option Nat := none
  limit : Option Nat := none
  flushFailure : Option String := none
  deriving DecidableEq, Repr

structure Held where
  octets : List UInt8 := []
  interrupts : Nat := 0
  deriving DecidableEq, Repr

namespace Bounds

def share (bounds : Bounds) (held offered : Nat) : Nat :=
  min (min offered (bounds.chunk.getD offered)) ((bounds.limit.map (· - held)).getD offered)

/-- Takes an offer: first come the interruptions; a full sink is closed. -/
def write (bounds : Bounds) (state : Held) (offer : List UInt8) : Reply × Held :=
  if 0 < state.interrupts then
    (.interrupted, { state with interrupts := state.interrupts - 1 })
  else if bounds.limit.any (· ≤ state.octets.length) then (.failed "sink closed", state)
  else
    let count := bounds.share state.octets.length offer.length
    (.took count, { state with octets := state.octets ++ offer.take count })

def sink (bounds : Bounds) : Sink Held where
  write := bounds.write
  flush state := (bounds.flushFailure, state)
  patience := Held.interrupts
  patience_lt state offer interrupted := by
    unfold write at interrupted ⊢
    split
    · simp only
      omega
    · split at interrupted
      · contradiction
      · split at interrupted <;> contradiction

end Bounds

def Text.words (text : List Char) : List (List Char) :=
  (text.splitOnP isWhiteSpace).filter (!·.isEmpty)

namespace Compiler

/-- Takes a text for the names of object types without any declarations. -/
def names : Compiler := fun source defaultNameSpace =>
  let qualify (word : List Char) : String :=
    match defaultNameSpace with
    | some nameSpace =>
      if '/' ∈ word then String.ofList word else nameSpace ++ "/" ++ String.ofList word
    | none => String.ofList word
  .ok { definitions := (Text.words source.toList).map fun word => { name := qualify word } }

def compiled : Compiler := fun source _ =>
  (Compiled.Schema.ofText source).mapError SchemaError.message

def refusing : Compiler := fun source defaultNameSpace =>
  .error ("cannot compile [" ++ source ++ "] in [" ++ defaultNameSpace.getD "none" ++ "]")

end Compiler

end PermissionSchema
