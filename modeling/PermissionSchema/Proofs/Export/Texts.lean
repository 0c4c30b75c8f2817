import PermissionSchema.Export.Emit
import PermissionSchema.Proofs.Document.RoundTrip
import PermissionSchema.Proofs.Export.Traversal
import PermissionSchema.Proofs.Json.Blanks
/-!
What the two exported texts say. The compact text tells the exported schema, at whatever depth, and
the pretty text is the same text with white space between its tokens.
-/
namespace PermissionSchema.Export

open PermissionSchema.Compiled
open PermissionSchema.Json

theorem compactText_result (options : Options) (schema : Schema) :
    (compactText options schema).result =
      (mapSchema options schema).result.map Document.Schema.codec.text :=
  Traced.bind_result ..

theorem prettyText_result (options : Options) (schema : Schema) :
    (prettyText options schema).result =
      (mapSchema options schema).result.map
        fun document => (Document.Schema.codec.write document).prettyText :=
  Traced.bind_result ..

theorem compactText_ok_iff (options : Options) (schema : Schema) (text : String) :
    (compactText options schema).result = .ok text ↔
      ∃ document, (mapSchema options schema).result = .ok document ∧
        Document.Schema.codec.text document = text := by
  rw [compactText_result]
  cases (mapSchema options schema).result with
  | ok document => simp [Except.map]
  | error error => simp [Except.map]

/-- Two documents have one compact text only if they are the same, and two compiled schemas are
exported to one compact text exactly if they are mapped to one document. -/
theorem exported_text_tells_document :
    (∀ first second : Document.Schema,
      Document.Schema.codec.text first = Document.Schema.codec.text second ↔ first = second) ∧
    ∀ (options others : Options) (first second : Schema),
      (∃ text, (compactText options first).result = .ok text ∧
        (compactText others second).result = .ok text) ↔
      ∃ document, (mapSchema options first).result = .ok document ∧
        (mapSchema others second).result = .ok document := by
  have unambiguous := Document.Schema.faithful.text_inj
  refine ⟨unambiguous, fun options others first second => ⟨?_, ?_⟩⟩
  · rintro ⟨text, one, other⟩
    obtain ⟨document, mapped, same⟩ := (compactText_ok_iff options first text).mp one
    obtain ⟨_, mappedOther, sameOther⟩ := (compactText_ok_iff others second text).mp other
    cases (unambiguous ..).mp (same.trans sameOther.symm)
    exact ⟨document, mapped, mappedOther⟩
  · rintro ⟨document, mapped, mappedOther⟩
    exact ⟨Document.Schema.codec.text document,
      (compactText_ok_iff ..).mpr ⟨document, mapped, rfl⟩,
      (compactText_ok_iff ..).mpr ⟨document, mappedOther, rfl⟩⟩

/-- The pretty text fails as the compact text does, and otherwise is the compact text once the
spaces and line breaks outside its strings are taken out. The compact text has no control
character. -/
theorem prettyText_condenses (options : Options) (schema : Schema) :
    (prettyText options schema).result.map condensed = (compactText options schema).result ∧
      ∀ text, (compactText options schema).result = .ok text →
        ∀ c ∈ text.toList, 0x20 ≤ c.toNat := by
  constructor
  · rw [prettyText_result, compactText_result]
    cases (mapSchema options schema).result with
    | error error => rfl
    | ok document =>
      exact congrArg Except.ok (condensed_prettyText (Document.Schema.faithful.exact document))
  · intro text exported
    obtain ⟨document, _, rfl⟩ := (compactText_ok_iff options schema text).mp exported
    rw [Codec.toList_text]
    exact visible_compact (Document.Schema.faithful.exact document)

def quotingSchema : Schema where
  definitions := [{ name := "say \"hi\" \n" }]

theorem prettyText_condenses_quoting :
    let exported := "\x7b\"definitions\":[\x7b\"name\":\"say \\\"hi\\\" \\n\"\x7d]\x7d"
    (compactText {} quotingSchema).result = .ok exported ∧
      (prettyText {} quotingSchema).result.map condensed = .ok exported ∧
      ∀ c ∈ exported.toList, 0x20 ≤ c.toNat := by
  intro exported
  have compact : (compactText {} quotingSchema).result = .ok exported := by rfl
  have condenses := prettyText_condenses {} quotingSchema
  exact ⟨compact, condenses.1.trans compact, condenses.2 _ compact⟩

end PermissionSchema.Export
