import PermissionSchema.Sink.Basic
/-!
What a delivery does to a sink, call by call. Every write offers all octets that are left; a write
that takes some of them, or that is interrupted, is followed by another call, and every other call
is the last one. What was taken and what is left make up the octets at every moment.
-/
namespace PermissionSchema

def Call.failure? : Call → Option String
  | .took [] => some "failed to write whole buffer"
  | .took (_ :: _) => none
  | .failed message => some message
  | .interrupted => none
  | .flushed failure => failure

namespace Sink

variable {σ : Type} (sink : Sink σ)

inductive Write : σ × List UInt8 → Call → σ × List UInt8 → Prop where
  | took {state next : σ} {offer : List UInt8} {count : Nat} (left : offer ≠ [])
      (reply : sink.write state offer = (.took (count + 1), next)) :
      Write (state, offer) (.took (offer.take (count + 1))) (next, offer.drop (count + 1))
  | interrupted {state next : σ} {offer : List UInt8} (left : offer ≠ [])
      (reply : sink.write state offer = (.interrupted, next)) :
      Write (state, offer) .interrupted (next, offer)

inductive Writes : σ × List UInt8 → List Call → σ × List UInt8 → Prop where
  | nothing (place : σ × List UInt8) : Writes place [] place
  | more {first second last : σ × List UInt8} {call : Call} {calls : List Call}
      (write : sink.Write first call second) (later : Writes second calls last) :
      Writes first (call :: calls) last

/-- The call that ends a delivery: a flush once nothing is left, or else a write that failed or took
none of the offer. -/
inductive Last : σ × List UInt8 → Call → σ → Prop where
  | flushed {state next : σ} {failure : Option String}
      (reply : sink.flush state = (failure, next)) : Last (state, []) (.flushed failure) next
  | tookNone {state next : σ} {offer : List UInt8} (left : offer ≠ [])
      (reply : sink.write state offer = (.took 0, next)) : Last (state, offer) (.took []) next
  | failed {state next : σ} {offer : List UInt8} {message : String} (left : offer ≠ [])
      (reply : sink.write state offer = (.failed message, next)) :
      Last (state, offer) (.failed message) next

def resultOf (last : Call) : Except String Unit :=
  match last.failure? with
  | none => .ok ()
  | some message => .error message

variable {sink}

theorem Write.octets {first second : σ × List UInt8} {call : Call}
    (write : sink.Write first call second) : call.octets ++ second.2 = first.2 := by
  cases write with
  | took left reply => exact List.take_append_drop ..
  | interrupted left reply => rfl

theorem Write.failure? {first second : σ × List UInt8} {call : Call}
    (write : sink.Write first call second) : call.failure? = none := by
  cases write with
  | @took state next offer count left reply =>
    cases offer with
    | nil => exact absurd rfl left
    | cons octet rest => rfl
  | interrupted left reply => rfl

theorem Write.not_flushed {first second : σ × List UInt8} {call : Call}
    (write : sink.Write first call second) (failure : Option String) : call ≠ .flushed failure := by
  cases write <;> exact Call.noConfusion

/-- What writes took and what they left make up what there was. -/
theorem Writes.octets {first last : σ × List UInt8} {calls : List Call}
    (writes : sink.Writes first calls last) : calls.flatMap Call.octets ++ last.2 = first.2 := by
  induction writes with
  | nothing place => rfl
  | more write later ih => rw [List.flatMap_cons, List.append_assoc, ih, write.octets]

/-- None of the writes failed, took nothing or was a flush. -/
theorem Writes.continue {first last : σ × List UInt8} {calls : List Call}
    (writes : sink.Writes first calls last) :
    ∀ call ∈ calls, call.failure? = none ∧ ∀ failure, call ≠ .flushed failure := by
  induction writes with
  | nothing place =>
    intro call member
    cases member
  | more write later ih =>
    intro call member
    rcases List.mem_cons.mp member with same | member
    · rw [same]
      exact ⟨write.failure?, write.not_flushed⟩
    · exact ih call member

theorem Last.octets {place : σ × List UInt8} {call : Call} {final : σ}
    (last : sink.Last place call final) : call.octets = [] := by
  cases last <;> rfl

theorem Last.failure?_eq_none_iff {place : σ × List UInt8} {call : Call} {final : σ}
    (last : sink.Last place call final) : call.failure? = none ↔ call = .flushed none := by
  cases last with
  | flushed reply => simp [Call.failure?]
  | tookNone left reply => simp [Call.failure?]
  | failed left reply => simp [Call.failure?]

theorem Last.left_of_flushed {place : σ × List UInt8} {failure : Option String} {final : σ}
    (last : sink.Last place (.flushed failure) final) : place.2 = [] := by
  cases last
  rfl

section

variable (sink)
variable {state next : σ} {octet : UInt8} {rest : List UInt8}

theorem writeAll_tookNone (reply : sink.write state (octet :: rest) = (.took 0, next)) :
    sink.writeAll state (octet :: rest) =
      ⟨[.took []], .error "failed to write whole buffer", next⟩ := by
  rw [writeAll]
  split <;> simp_all

theorem writeAll_took {count : Nat}
    (reply : sink.write state (octet :: rest) = (.took (count + 1), next)) :
    sink.writeAll state (octet :: rest) =
      (sink.writeAll next (rest.drop count)).after (.took ((octet :: rest).take (count + 1))) := by
  rw [writeAll]
  split <;> simp_all

theorem writeAll_failed {message : String}
    (reply : sink.write state (octet :: rest) = (.failed message, next)) :
    sink.writeAll state (octet :: rest) = ⟨[.failed message], .error message, next⟩ := by
  rw [writeAll]
  split <;> simp_all

theorem writeAll_interrupted
    (reply : sink.write state (octet :: rest) = (.interrupted, next)) :
    sink.writeAll state (octet :: rest) =
      (sink.writeAll next (octet :: rest)).after .interrupted := by
  rw [writeAll]
  split <;> simp_all

end

theorem deliver_of_writeAll_after {state next : σ} {octets rest : List UInt8} {call : Call}
    (goesOn : sink.writeAll state octets = (sink.writeAll next rest).after call) :
    sink.deliver state octets = (sink.deliver next rest).after call := by
  simp only [deliver, goesOn, Delivery.after]
  obtain ⟨calls, result, final⟩ := sink.writeAll next rest
  cases result with
  | ok value => rfl
  | error message => rfl

theorem deliver_of_writeAll_error {state : σ} {octets : List UInt8} {message : String}
    (failed : (sink.writeAll state octets).result = .error message) :
    sink.deliver state octets = sink.writeAll state octets := by
  simp only [deliver, failed]

theorem deliver_nothing (state : σ) :
    sink.deliver state [] = ⟨[.flushed (sink.flush state).1],
      resultOf (.flushed (sink.flush state).1), (sink.flush state).2⟩ := by
  rw [deliver, writeAll]
  obtain ⟨failure, next⟩ := sink.flush state
  cases failure with
  | none => rfl
  | some message => rfl

/-- A delivery makes writes and then one last call, which tells the result. -/
theorem deliver_calls (state : σ) (octets : List UInt8) :
    ∃ writes place last, sink.Writes (state, octets) writes place ∧
      sink.Last place last (sink.deliver state octets).state ∧
      (sink.deliver state octets).calls = writes ++ [last] ∧
      (sink.deliver state octets).result = resultOf last := by
  induction state, octets using writeAll.induct sink with
  | case1 state =>
    rw [deliver_nothing]
    exact ⟨[], (state, []), _, .nothing _, .flushed rfl, rfl, rfl⟩
  | case2 state octet rest next reply =>
    have written := writeAll_tookNone sink reply
    rw [deliver_of_writeAll_error (congrArg Delivery.result written), written]
    have ended := Last.tookNone (List.cons_ne_nil octet rest) reply
    exact ⟨[], (state, octet :: rest), _, .nothing _, ended, rfl, rfl⟩
  | case3 state octet rest count next reply ih =>
    rw [deliver_of_writeAll_after (writeAll_took sink reply)]
    obtain ⟨writes, place, last, made, ended, calls, result⟩ := ih
    have first := Write.took (List.cons_ne_nil octet rest) reply
    exact ⟨_ :: writes, place, last, .more first made, ended, congrArg _ calls, result⟩
  | case4 state octet rest message next reply =>
    have written := writeAll_failed sink reply
    rw [deliver_of_writeAll_error (congrArg Delivery.result written), written]
    have ended := Last.failed (List.cons_ne_nil octet rest) reply
    exact ⟨[], (state, octet :: rest), _, .nothing _, ended, rfl, rfl⟩
  | case5 state octet rest next reply ih =>
    rw [deliver_of_writeAll_after (writeAll_interrupted sink reply)]
    obtain ⟨writes, place, last, made, ended, calls, result⟩ := ih
    have again := Write.interrupted (List.cons_ne_nil octet rest) reply
    exact ⟨_ :: writes, place, last, .more again made, ended, congrArg _ calls, result⟩

end Sink
end PermissionSchema
