import PermissionSchema.SchemaError
import PermissionSchema.Proofs.Text.Quoted
/-!
Messages tell all of their cause. Most begin with words of their own, and the message itself is all
that stands behind them; the two about declarations begin alike, and go on with quoted names, which
end by themselves.
-/
namespace PermissionSchema.SchemaError

open PermissionSchema.Text

/-- The words with which the messages of a kind begin. -/
def Kind.lead : Kind → String
  | .unclassified | .unsupportedOperand => "failed to export "
  | .serialization => "unable to serialize schema for export: "
  | .write => "unable to write schema for export: "
  | .parse => "failed to parse compiled schema: "
  | .compile => "failed to compile schema: "
  | .source => "failed to read schema source: "
  | .format => "Invalid format: "

/-- What a message says behind those words. -/
def detail : SchemaError → List Char
  | .unclassified definition relation =>
    quoted definition.toList ++ (": unexpected relation ".toList ++
      (quoted relation.toList ++ ", neither permission nor relation".toList))
  | .unsupportedOperand definition relation kind =>
    quoted definition.toList ++ (": permission ".toList ++
      (quoted relation.toList ++ (" has an unsupported userset child (".toList ++
        (kind.toList ++ ")".toList))))
  | .serialization text | .write text | .parse text | .compile text | .source text
  | .format text => text.toList

theorem toList_shown (name : String) : (shown name).toList = quoted name.toList :=
  String.toList_ofList

theorem toList_message (error : SchemaError) :
    error.message.toList = error.kind.lead.toList ++ error.detail := by
  unfold message detail
  cases error with
  | unclassified definition relation =>
    iterate 4 rw [String.toList_append]
    rw [toList_shown, toList_shown]
    iterate 3 rw [List.append_assoc]
    rfl
  | unsupportedOperand definition relation operand =>
    iterate 6 rw [String.toList_append]
    rw [toList_shown, toList_shown]
    iterate 5 rw [List.append_assoc]
    rfl
  | _ => exact String.toList_append

/-- The words of no kind are the beginning of those of another. -/
theorem lead_eq_of_begins (first second : Kind) (begins : first.lead.toList <+: second.lead.toList) :
    first.lead = second.lead := by
  revert begins
  cases first <;> cases second <;> decide

theorem lead_and_detail {first second : SchemaError} (same : first.message = second.message) :
    first.kind.lead = second.kind.lead ∧ first.detail = second.detail := by
  have lists : first.kind.lead.toList ++ first.detail =
      second.kind.lead.toList ++ second.detail := by
    rw [← toList_message, ← toList_message, same]
  have leads : first.kind.lead = second.kind.lead := by
    rcases List.prefix_or_prefix_of_prefix ⟨first.detail, rfl⟩ ⟨second.detail, lists.symm⟩ with
      begins | begins
    · exact lead_eq_of_begins _ _ begins
    · exact (lead_eq_of_begins _ _ begins).symm
  rw [leads] at lists
  exact ⟨leads, List.append_cancel_left lists⟩

theorem kind_of_lead (first second : Kind) (same : first.lead = second.lead) :
    first = second ∨ (first = .unclassified ∧ second = .unsupportedOperand) ∨
      (first = .unsupportedOperand ∧ second = .unclassified) := by
  revert same
  cases first <;> cases second <;> decide

theorem unexpected_ne_permission (behind beyond : List Char) :
    ": unexpected relation ".toList ++ behind ≠ ": permission ".toList ++ beyond := by
  intro same
  have apart : ¬": unexpected relation ".toList <+: ": permission ".toList ∧
      ¬": permission ".toList <+: ": unexpected relation ".toList := by decide
  rcases List.prefix_or_prefix_of_prefix ⟨behind, rfl⟩ ⟨beyond, same.symm⟩ with begins | begins
  · exact apart.1 begins
  · exact apart.2 begins

theorem detail_ne {first second : SchemaError} (one : first.kind = .unclassified)
    (other : second.kind = .unsupportedOperand) : first.detail ≠ second.detail := by
  intro details
  cases first with
  | unclassified definition relation =>
    cases second with
    | unsupportedOperand definition' relation' operand =>
      exact unexpected_ne_permission _ _ (selfDelimiting_quoted details).2
    | _ => cases other
  | _ => cases one

theorem eq_of_kind_and_detail {first second : SchemaError} (kinds : first.kind = second.kind)
    (details : first.detail = second.detail) : first = second := by
  cases first <;> cases second <;> try cases kinds
  case unclassified.unclassified =>
    obtain ⟨definitions, others⟩ := selfDelimiting_quoted details
    obtain ⟨relations, _⟩ := selfDelimiting_quoted (List.append_cancel_left others)
    rw [String.toList_inj.mp definitions, String.toList_inj.mp relations]
  case unsupportedOperand.unsupportedOperand =>
    obtain ⟨definitions, others⟩ := selfDelimiting_quoted details
    obtain ⟨relations, rest⟩ := selfDelimiting_quoted (List.append_cancel_left others)
    have operands := List.append_cancel_right (List.append_cancel_left rest)
    rw [String.toList_inj.mp definitions, String.toList_inj.mp relations,
      String.toList_inj.mp operands]
  all_goals rw [String.toList_inj.mp details]

/-- Two causes have the same message only if they are the same. -/
theorem message_eq_iff (first second : SchemaError) :
    first.message = second.message ↔ first = second := by
  constructor
  · intro same
    obtain ⟨leads, details⟩ := lead_and_detail same
    rcases kind_of_lead _ _ leads with kinds | ⟨one, other⟩ | ⟨one, other⟩
    · exact eq_of_kind_and_detail kinds details
    · exact absurd details (detail_ne one other)
    · exact absurd details.symm (detail_ne other one)
  · intro same
    rw [same]

end PermissionSchema.SchemaError
