import PermissionSchema.Json.Record
import PermissionSchema.Proofs.Json.Taking
/-!
Reading the members of a record: what each of them does to the record, and from that what the whole
object is read as. Members may stand in any order, and those with names that are no field's are
passed over.
-/
namespace PermissionSchema.Json

variable {ρ : Type}

/-- How members fill a record, one after the other: which names were seen, what the record holds,
the tokens of the members still to come, when their brackets fit, and the record in the end. -/
inductive Fills (slots : List (Reader.Slot ρ)) :
    List String → ρ → List (List Token) → Prop → ρ → Prop where
  | done {seen : List String} {held : ρ}
      (complete : (slots.find? fun slot => !slot.keyOptional && slot.name ∉ seen) = none) :
      Fills slots seen held [] True held
  | known {seen : List String} {held result : ρ} {label : Token} {name : String}
      {piece : List Token} {pieces : List (List Token)} {slot : Reader.Slot ρ} {put : ρ → ρ}
      {fits later : Prop} (quotes : label.Quotes name)
      (found : slots.find? (·.name = name) = some slot) (fresh : name ∉ seen)
      (reads : ∀ more, Reads fits (Spells (piece ++ more)) slot.value put (Spells more))
      (rest : Fills slots (name :: seen) (put held) pieces later result) :
      Fills slots seen held ((label :: .colon :: piece) :: pieces) (fits ∧ later) result
  | unknown {seen : List String} {held result : ρ} {label : Token} {name : String}
      {piece : List Token} {pieces : List (List Token)} {later : Prop} (quotes : label.Quotes name)
      (missing : slots.find? (·.name = name) = none)
      (passes : ∀ more, Reads True (Spells (piece ++ more)) Reader.skipValue () (Spells more))
      (rest : Fills slots seen held pieces later result) :
      Fills slots seen held ((label :: .colon :: piece) :: pieces) later result

namespace Fills

variable {slots : List (Reader.Slot ρ)} {seen : List String} {held result : ρ}
  {pieces : List (List Token)} {fits other : Prop}

theorem congr (fills : Fills slots seen held pieces fits result) (same : fits ↔ other) :
    Fills slots seen held pieces other result :=
  propext same ▸ fills

theorem ne_nil (fills : Fills slots seen held pieces fits result) :
    ∀ piece ∈ pieces, piece ≠ [] := by
  induction fills with
  | done => exact List.forall_mem_nil _
  | known _ _ _ _ _ ih => exact List.forall_mem_cons.mpr ⟨List.cons_ne_nil _ _, ih⟩
  | unknown _ _ _ _ ih => exact List.forall_mem_cons.mpr ⟨List.cons_ne_nil _ _, ih⟩

theorem reads_membersUpTo (fills : Fills slots seen held pieces fits result)
    (others : List Token) :
    ∀ bound atFirst, pieces.length < bound →
      Reads fits (Spells (joined atFirst pieces ++ .closeObject :: others))
        (Reader.membersUpTo slots bound atFirst seen held) result
        (Spells (.closeObject :: others)) := by
  induction fills with
  | done complete =>
    intro bound atFirst enough
    cases bound with
    | zero => exact absurd enough (Nat.not_lt_zero _)
    | succ bound =>
      apply (Reader.reads_nextMember_end atFirst others).seq
      simp only [Bool.false_eq_true, ↓reduceIte, complete]
      exact .pure _
  | known quotes found fresh reads _ ih =>
    intro bound atFirst enough
    cases bound with
    | zero => exact absurd enough (Nat.not_lt_zero _)
    | succ bound =>
      have later := ih bound false (Nat.lt_of_succ_lt_succ enough)
      simp only [joined, List.append_assoc, List.cons_append, Reader.membersUpTo]
      apply (Reader.reads_nextMember atFirst quotes _).seq
      refine (Reader.reads_quote quotes _).seq ((Reader.reads_stringBody _ _).seq ?_)
      simp only [found, fresh, ↓reduceIte]
      exact (Reader.reads_colon _).seq ((reads _).bind later)
  | unknown quotes missing passes _ ih =>
    intro bound atFirst enough
    cases bound with
    | zero => exact absurd enough (Nat.not_lt_zero _)
    | succ bound =>
      have later := ih bound false (Nat.lt_of_succ_lt_succ enough)
      simp only [joined, List.append_assoc, List.cons_append, Reader.membersUpTo]
      apply (Reader.reads_nextMember atFirst quotes _).seq
      refine (Reader.reads_quote quotes _).seq ((Reader.reads_stringBody _ _).seq ?_)
      simp only [missing]
      exact (Reader.reads_colon _).seq ((passes _).seq later)

theorem reads_members (fills : Fills slots [] held pieces fits result) (others : List Token) :
    Reads fits (Spells (joined true pieces ++ .closeObject :: others))
      (Reader.members slots held) result (Spells (.closeObject :: others)) := by
  apply Reads.bounded fun bound enough => fills.reads_membersUpTo others bound true enough
  intro text spells
  have octets := spells.length_le
  have count := length_le_joined true fills.ne_nil
  rw [List.length_append] at octets
  omega

end Fills

end PermissionSchema.Json
