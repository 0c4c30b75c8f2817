import PermissionSchema.Export.Emit
import PermissionSchema.Proofs.Export.Texts
import PermissionSchema.Proofs.Sink.Delivery
/-!
What a sink gets of a schema that is written to it: nothing if the schema cannot be mapped, else at
every moment a beginning of the compact text. Success means the whole text and one flush after it.
-/
namespace PermissionSchema.Export

open PermissionSchema.Compiled
open PermissionSchema.Json

structure Delivered {σ : Type} (sink : Sink σ) (state : σ) (octets : List UInt8)
    (written : Written σ) : Prop where
  follows_sink : ∃ writes place last, sink.Writes (state, octets) writes place ∧
    sink.Last place last written.state ∧ written.calls = writes ++ [last]
  received_prefix : ∀ calls, calls <+: written.calls → calls.flatMap Call.octets <+: octets
  ok_iff : written.result = .ok () ↔
    written.calls.getLast? = some (.flushed none) ∧ written.calls.flatMap Call.octets = octets
  error_iff : ∀ error, written.result = .error error ↔
    ∃ last message, written.calls.getLast? = some last ∧ last.failure? = some message ∧
      error = .write message
  flush_after_all : ∀ before failure after, written.calls = before ++ .flushed failure :: after →
    after = [] ∧ before.flatMap Call.octets = octets ∧
      ∀ call ∈ before, call.failure? = none ∧ ∀ other, call ≠ .flushed other

section

variable {σ : Type} {sink : Sink σ} {place : σ × List UInt8} {final : σ} {writes : List Call}
  {last : Call} {first : σ × List UInt8}

/-- The last call takes nothing, so what the writes left is never taken. -/
theorem received_append_left (made : sink.Writes first writes place)
    (ended : sink.Last place last final) :
    (writes ++ [last]).flatMap Call.octets ++ place.2 = first.2 := by
  have nothing : [last].flatMap Call.octets = [] := by simp [ended.octets]
  rw [List.flatMap_append, nothing, List.append_nil]
  exact made.octets

theorem resultOf_ok_iff (made : sink.Writes first writes place)
    (ended : sink.Last place last final) :
    (Sink.resultOf last).mapError SchemaError.write = .ok () ↔
      last = .flushed none ∧ (writes ++ [last]).flatMap Call.octets = first.2 := by
  rw [← ended.failure?_eq_none_iff, Sink.resultOf]
  cases failure : last.failure? with
  | some message => simp [Except.mapError]
  | none =>
    have flush : last = .flushed none := ended.failure?_eq_none_iff.mp failure
    have received := received_append_left made ended
    subst flush
    rw [ended.left_of_flushed, List.append_nil] at received
    simp [Except.mapError, received]

theorem resultOf_error_iff (last : Call) (error : SchemaError) :
    (Sink.resultOf last).mapError SchemaError.write = .error error ↔
      ∃ message, last.failure? = some message ∧ error = .write message := by
  rw [Sink.resultOf]
  cases last.failure? with
  | none => simp [Except.mapError]
  | some message =>
    simp only [Except.mapError, Except.error.injEq, Option.some.injEq, exists_eq_left']
    exact eq_comm

/-- A flush is the last call, and comes when all is taken and nothing has failed. -/
theorem flush_is_last (made : sink.Writes first writes place) (ended : sink.Last place last final)
    {before after : List Call} {failure : Option String}
    (split : writes ++ [last] = before ++ .flushed failure :: after) :
    after = [] ∧ before.flatMap Call.octets = first.2 ∧
      ∀ call ∈ before, call.failure? = none ∧ ∀ other, call ≠ .flushed other := by
  rcases after.eq_nil_or_concat with empty | ⟨middle, other, more⟩
  · subst empty
    obtain ⟨same, flush⟩ := List.append_inj' split rfl
    cases flush
    have taken := made.octets
    rw [ended.left_of_flushed, List.append_nil] at taken
    exact ⟨rfl, same ▸ taken, same ▸ made.continue⟩
  · rw [more, List.concat_eq_append, ← List.cons_append, ← List.append_assoc] at split
    obtain ⟨same, _⟩ := List.append_inj' split rfl
    have among : Call.flushed failure ∈ writes := by simp [same]
    exact absurd rfl ((made.continue _ among).2 failure)

end

theorem delivered_of_calls {σ : Type} {sink : Sink σ} {state : σ} {octets : List UInt8}
    {writes : List Call} {place : σ × List UInt8} {last : Call} {written : Written σ}
    (made : sink.Writes (state, octets) writes place) (ended : sink.Last place last written.state)
    (calls : written.calls = writes ++ [last])
    (result : written.result = (Sink.resultOf last).mapError .write) :
    Delivered sink state octets written := by
  have final : written.calls.getLast? = some last := by rw [calls, List.getLast?_concat]
  refine ⟨⟨writes, place, last, made, ended, calls⟩, ?_, ?_, ?_, ?_⟩
  · intro earlier isEarlier
    obtain ⟨later, same⟩ := isEarlier
    have received := received_append_left made ended
    rw [← calls, ← same, List.flatMap_append, List.append_assoc] at received
    exact ⟨_, received⟩
  · rw [result, resultOf_ok_iff made ended, final, calls, Option.some.injEq]
  · intro error
    rw [result, resultOf_error_iff, final]
    simp only [Option.some.injEq, exists_and_left, exists_eq_left']
  · intro before failure after split
    exact flush_is_last made ended (calls ▸ split)

/-- A schema that cannot be mapped leaves the sink alone; any other has a compact text, and that is
delivered. -/
theorem writeTo_delivers {σ : Type} (sink : Sink σ) (state : σ) (options : Options)
    (schema : Schema) :
    (∀ error, (mapSchema options schema).result = .error error →
      writeTo sink state options schema = ⟨[], .error error, state⟩) ∧
    (∀ document, (mapSchema options schema).result = .ok document →
      (compactText options schema).result = .ok (Document.Schema.codec.text document) ∧
        Delivered sink state (Text.Utf8.encode (Document.Schema.codec.text document).toList)
          (writeTo sink state options schema)) := by
  constructor
  · intro error failed
    rw [writeTo, failed]
  · intro document mapped
    have exported : (compactText options schema).result =
        .ok (Document.Schema.codec.text document) := by
      rw [compactText_result, mapped]
      rfl
    obtain ⟨writes, place, last, made, ended, calls, result⟩ :=
      sink.deliver_calls state (Text.Utf8.encode (Document.Schema.codec.text document).toList)
    have written : writeTo sink state options schema =
        let delivery := sink.deliver state
          (Text.Utf8.encode (Document.Schema.codec.text document).toList)
        ⟨delivery.calls, delivery.result.mapError .write, delivery.state⟩ := by
      rw [writeTo, mapped, Codec.toList_text]
    rw [written]
    exact ⟨exported,
      delivered_of_calls made ended calls (congrArg (Except.mapError SchemaError.write) result)⟩

end PermissionSchema.Export
