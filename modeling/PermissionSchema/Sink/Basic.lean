/-!
Sinks for octets. A sink takes as much of an offer as it likes, fails, or is interrupted and has to
be offered the same again; it cannot be interrupted for ever.
-/
namespace PermissionSchema

inductive Reply where
  | took (count : Nat)
  | failed (message : String)
  | interrupted
  deriving DecidableEq, Repr

/-- A sink with states `σ`. Its patience is how often in a row it can still be interrupted. -/
structure Sink (σ : Type) where
  write : σ → List UInt8 → Reply × σ
  flush : σ → Option String × σ
  patience : σ → Nat
  patience_lt : ∀ state offer,
    (write state offer).1 = .interrupted → patience (write state offer).2 < patience state

inductive Call where
  | took (octets : List UInt8)
  | failed (message : String)
  | interrupted
  | flushed (failure : Option String)
  deriving DecidableEq, Repr

def Call.octets : Call → List UInt8
  | .took octets => octets
  | _ => []

structure Delivery (σ : Type) where
  calls : List Call
  result : Except String Unit
  state : σ

namespace Delivery

variable {σ : Type}

def received (delivery : Delivery σ) : List UInt8 :=
  delivery.calls.flatMap Call.octets

def after (call : Call) (delivery : Delivery σ) : Delivery σ :=
  { delivery with calls := call :: delivery.calls }

end Delivery

namespace Sink

variable {σ : Type}

/-- Offers octets until all are taken or a call fails; a sink that takes none of an offer has
failed. -/
def writeAll (sink : Sink σ) (state : σ) (octets : List UInt8) : Delivery σ :=
  match octets with
  | [] => ⟨[], .ok (), state⟩
  | octet :: rest =>
    match reply : sink.write state (octet :: rest) with
    | (.took 0, next) => ⟨[.took []], .error "failed to write whole buffer", next⟩
    | (.took (count + 1), next) =>
      (sink.writeAll next (rest.drop count)).after (.took ((octet :: rest).take (count + 1)))
    | (.failed message, next) => ⟨[.failed message], .error message, next⟩
    | (.interrupted, next) => (sink.writeAll next (octet :: rest)).after .interrupted
termination_by (octets.length, sink.patience state)
decreasing_by
  · apply Prod.Lex.left
    simp only [List.length_drop, List.length_cons]
    omega
  · have shorter := sink.patience_lt state (octet :: rest) (by rw [reply])
    rw [reply] at shorter
    exact Prod.Lex.right _ shorter

/-- Writes all octets and then flushes the sink once. A sink that failed is not flushed. -/
def deliver (sink : Sink σ) (state : σ) (octets : List UInt8) : Delivery σ :=
  let written := sink.writeAll state octets
  match written.result with
  | .error _ => written
  | .ok () =>
    let (failure, next) := sink.flush written.state
    { calls := written.calls ++ [.flushed failure]
      result :=
        match failure with
        | none => .ok ()
        | some message => .error message
      state := next }

end Sink

end PermissionSchema
