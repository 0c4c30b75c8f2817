import PermissionSchema.Proofs.Compiled.RoundTrip
import PermissionSchema.Proofs.Json.Telling
/-!
Which texts tell a compiled schema: objects with their members in any order, those left out that
hold what a missing one is taken for, members of other names added, white space between tokens, and
the characters of strings escaped in any way. A schema is read from all of them.
-/
namespace PermissionSchema.Compiled

open PermissionSchema.Json

def MetadataEntry.tells : Telling MetadataEntry := .record [
  .required "typeUrl" .string (·.typeUrl),
  .defaulted "value" (.list .octet) (·.value) []]

def Metadata.tells : Telling Metadata :=
  .list MetadataEntry.tells

def computedTells : Telling String := .record [
  .required "relation" .string id]

def arrowTells : Telling (String × String) := .record [
  .required "tupleset" .string (·.1),
  .required "computedUserset" .string (·.2)]

mutual

def Operand.tells : Telling Operand
  | .this => Telling.string OperandKind.this.name
  | .computed relation => Telling.single OperandKind.computed.name (computedTells relation)
  | .arrow tupleset computed =>
    Telling.single OperandKind.arrow.name (arrowTells (tupleset, computed))
  | .nested operator operands =>
    Telling.single OperandKind.nested.name
      (Telling.single operator.name fun source =>
        ∃ items, operandsTold operands items ∧ source = .array items)
  | .nil => Telling.string OperandKind.nil.name

def operandsTold : List Operand → List Source → Prop
  | [], items => items = []
  | operand :: rest, items =>
    ∃ first later, items = first :: later ∧ operand.tells first ∧ operandsTold rest later

end

def Rewrite.tells : Telling Rewrite := fun rewrite =>
  Telling.single rewrite.operator.name (Telling.list Operand.tells rewrite.operands)

def SubjectRelation.tells : Telling SubjectRelation
  | .relation name => Telling.single Kind.relation.name (Telling.string name)
  | .wildcard => Telling.string Kind.wildcard.name

def AllowedSubject.tells : Telling AllowedSubject := .record [
  .required "namespace" .string (·.subjectType),
  .required "relationOrWildcard" SubjectRelation.tells (·.relation),
  .defaulted "requiredCaveat" (.optional .string) (·.caveat) none]

def Declaration.tells : Telling Declaration := .record [
  .required "name" .string (·.name),
  .defaulted "usersetRewrite" (.optional Rewrite.tells) (·.rewrite) none,
  .defaulted "allowedDirectRelations" (.list AllowedSubject.tells) (·.allowed) [],
  .defaulted "metadata" Metadata.tells (·.metadata) []]

def Definition.tells : Telling Definition := .record [
  .required "name" .string (·.name),
  .defaulted "relations" (.list Declaration.tells) (·.declarations) [],
  .defaulted "metadata" Metadata.tells (·.metadata) []]

def Caveat.tells : Telling Caveat := .record [
  .required "name" .string (·.name),
  .defaulted "parameterTypes" (.list .string) (·.parameters) [],
  .defaulted "metadata" Metadata.tells (·.metadata) []]

def Schema.tells : Telling Schema := .record [
  .defaulted "objectDefinitions" (.list Definition.tells) (·.definitions) [],
  .defaulted "caveatDefinitions" (.list Caveat.tells) (·.caveats) []]

def Schema.Told (schema : Schema) (text : String) : Prop :=
  ∃ source, schema.tells source ∧ Spells source.tokens text.toList

theorem operandsTold_iff (operands : List Operand) (items : List Source) :
    operandsTold operands items ↔ List.Forall₂ Operand.tells operands items := by
  induction operands generalizing items with
  | nil => rw [operandsTold, List.forall₂_nil_left_iff]
  | cons operand rest ih =>
    rw [operandsTold, List.forall₂_cons_left_iff]
    constructor
    · rintro ⟨first, later, rfl, told, others⟩
      exact ⟨first, later, told, (ih later).mp others, rfl⟩
    · rintro ⟨first, later, told, others, rfl⟩
      exact ⟨first, later, rfl, told, (ih later).mpr others⟩

theorem MetadataEntry.understands : MetadataEntry.codec.Understands MetadataEntry.tells :=
  .record {
    distinct := by decide
    same := by simp [Field.required, Field.defaulted]
    others := by simp [Field.required, Field.defaulted]
    whole := by
      rintro ⟨_, _⟩ ⟨_, _⟩
      simp [Field.required, Field.defaulted] }
    (.cons (.required .string) (.cons (.defaulted (.list .octet)) .nil))

theorem Metadata.understands : Metadata.codec.Understands Metadata.tells :=
  .list MetadataEntry.understands

theorem computed_understands : computedCodec.Understands computedTells :=
  .record {
    distinct := by decide
    same := by simp [Field.required]
    others := by simp
    whole := by simp [Field.required] }
    (.cons (.required .string) .nil)

theorem arrow_understands : arrowCodec.Understands arrowTells :=
  .record {
    distinct := by decide
    same := by simp [Field.required]
    others := by simp [Field.required]
    whole := by
      rintro ⟨_, _⟩ ⟨_, _⟩
      simp [Field.required] }
    (.cons (.required .string) (.cons (.required .string) .nil))

theorem Rewrite.accepts {operators : Source → Prop} {source : Source} {operands : List Operand}
    (operator : Operator) (told : Telling.single operator.name operators source)
    (each : ∀ inner, operators inner →
      ∃ items, List.Forall₂ (Accepts Operand.read) items operands ∧ inner = .array items) :
    Accepts Rewrite.read source ⟨operator, operands⟩ := by
  rw [Rewrite.read_eq]
  refine Reader.accepts_single (rewriteVariants_names operator) told rfl fun inner holds => ?_
  obtain ⟨items, each, rfl⟩ := each inner holds
  have listed : Accepts readOperands (.array items) operands := by
    rw [readOperands_eq]
    exact Reader.accepts_sequence each
  exact listed.map (Rewrite.mk operator)

theorem operands_accept (operands : List Operand) : ∀ items, operandsTold operands items →
    List.Forall₂ (Accepts Operand.read) items operands := by
  induction operands using Operand.inductionOn with
  | empty =>
    rintro _ rfl
    exact .nil
  | this rest ih =>
    rintro _ ⟨first, later, rfl, told, others⟩
    refine .cons ?_ (ih later others)
    rw [Operand.read_eq]
    exact Reader.accepts_bare (operandVariants_names .this) told rfl _
  | computed relation rest ih =>
    rintro _ ⟨first, later, rfl, told, others⟩
    refine .cons ?_ (ih later others)
    rw [Operand.read_eq]
    exact Reader.accepts_single (operandVariants_names .computed) told rfl fun inner told =>
      (computed_understands.takes relation inner told).map Operand.computed
  | arrow tupleset target rest ih =>
    rintro _ ⟨first, later, rfl, told, others⟩
    refine .cons ?_ (ih later others)
    rw [Operand.read_eq]
    exact Reader.accepts_single (operandVariants_names .arrow) told rfl fun inner told =>
      (arrow_understands.takes (tupleset, target) inner told).map fun arrow =>
        Operand.arrow arrow.1 arrow.2
  | nested operator inner rest ihInner ihRest =>
    rintro _ ⟨first, later, rfl, told, others⟩
    refine .cons ?_ (ihRest later others)
    rw [Operand.read_eq]
    refine Reader.accepts_single (operandVariants_names .nested) told rfl fun inner told => ?_
    refine (Rewrite.accepts operator told ?_).map Operand.ofRewrite
    rintro _ ⟨items, told, rfl⟩
    exact ⟨items, ihInner items told, rfl⟩
  | nil rest ih =>
    rintro _ ⟨first, later, rfl, told, others⟩
    refine .cons ?_ (ih later others)
    rw [Operand.read_eq]
    exact Reader.accepts_bare (operandVariants_names .nil) told rfl _

theorem operands_written (operands : List Operand) :
    List.Forall₂ (fun operand json => operand.tells json.source) operands
      (operandsToJson operands) := by
  induction operands using Operand.inductionOn with
  | empty => exact .nil
  | this rest ih | nil rest ih => exact .cons (Telling.string_written _) ih
  | computed relation rest ih =>
    exact .cons (Telling.single_written _ (computed_understands.written relation)) ih
  | arrow tupleset target rest ih =>
    exact .cons (Telling.single_written _ (arrow_understands.written (tupleset, target))) ih
  | nested operator inner rest ihInner ihRest =>
    refine .cons (Telling.single_written _ (Telling.single_written operator.name ?_)) ihRest
    obtain ⟨items, told, array⟩ := Telling.list_written ihInner
    exact ⟨items, (operandsTold_iff inner items).mpr told, array⟩

theorem Rewrite.understands : Rewrite.codec.Understands Rewrite.tells where
  takes rewrite source told := by
    refine Rewrite.accepts rewrite.operator told ?_
    rintro _ ⟨items, told, rfl⟩
    exact ⟨items, operands_accept _ items ((operandsTold_iff _ _).mpr told), rfl⟩
  written rewrite :=
    Telling.single_written _ (Telling.list_written (operands_written rewrite.operands))

theorem SubjectRelation.understands : SubjectRelation.codec.Understands SubjectRelation.tells where
  takes
    | .relation name, _, told =>
      Reader.accepts_single (variants_names .relation) told rfl fun inner told =>
        (Codec.Understands.string.takes name inner told).map SubjectRelation.relation
    | .wildcard, _, told => Reader.accepts_bare (variants_names .wildcard) told rfl _
  written
    | .relation name => Telling.single_written _ (Telling.string_written name)
    | .wildcard => Telling.string_written _

theorem AllowedSubject.understands : AllowedSubject.codec.Understands AllowedSubject.tells := by
  have caveat : (Codec.optional .string).Understands (.optional .string) := by
    refine .optional .string ?_
    rintro _ _ ⟨_, _, rfl⟩
    nofun
  exact .record {
    distinct := by decide
    same := by simp [Field.required, Field.defaulted]
    others := by simp [Field.required, Field.defaulted]
    whole := by
      rintro ⟨_, _, _⟩ ⟨_, _, _⟩
      simp [Field.required, Field.defaulted] }
    (.cons (.required .string) (.cons (.required SubjectRelation.understands)
      (.cons (.defaulted caveat) .nil)))

theorem Declaration.understands : Declaration.codec.Understands Declaration.tells := by
  have rewrite : (Codec.optional Rewrite.codec).Understands (.optional Rewrite.tells) := by
    refine .optional Rewrite.understands ?_
    rintro _ _ ⟨_, _, _, _, rfl⟩
    nofun
  exact .record {
    distinct := by decide
    same := by simp [Field.required, Field.defaulted]
    others := by simp [Field.required, Field.defaulted]
    whole := by
      rintro ⟨_, _, _, _⟩ ⟨_, _, _, _⟩
      simp [Field.required, Field.defaulted] }
    (.cons (.required .string) (.cons (.defaulted rewrite)
      (.cons (.defaulted (.list AllowedSubject.understands))
        (.cons (.defaulted Metadata.understands) .nil))))

theorem Definition.understands : Definition.codec.Understands Definition.tells :=
  .record {
    distinct := by decide
    same := by simp [Field.required, Field.defaulted]
    others := by simp [Field.required, Field.defaulted]
    whole := by
      rintro ⟨_, _, _⟩ ⟨_, _, _⟩
      simp [Field.required, Field.defaulted] }
    (.cons (.required .string) (.cons (.defaulted (.list Declaration.understands))
      (.cons (.defaulted Metadata.understands) .nil)))

theorem Caveat.understands : Caveat.codec.Understands Caveat.tells :=
  .record {
    distinct := by decide
    same := by simp [Field.required, Field.defaulted]
    others := by simp [Field.required, Field.defaulted]
    whole := by
      rintro ⟨_, _, _⟩ ⟨_, _, _⟩
      simp [Field.required, Field.defaulted] }
    (.cons (.required .string) (.cons (.defaulted (.list .string))
      (.cons (.defaulted Metadata.understands) .nil)))

theorem Schema.understands : Schema.codec.Understands Schema.tells :=
  .record {
    distinct := by decide
    same := by simp [Field.defaulted]
    others := by simp [Field.defaulted]
    whole := by
      rintro ⟨_, _⟩ ⟨_, _⟩
      simp [Field.defaulted] }
    (.cons (.defaulted (.list Definition.understands))
      (.cons (.defaulted (.list Caveat.understands)) .nil))

/-- A compiled schema is read from any text that tells it, its own text among them, if the brackets
of the text nest at most 127 deep. -/
theorem Schema.ofText_told (schema : Schema) :
    schema.Told (Schema.codec.text schema) ∧
      ∀ text, schema.Told text → nesting text ≤ 127 → Schema.ofText text = .ok schema := by
  refine ⟨⟨_, Schema.understands.written schema, spells_source (Schema.faithful.exact schema)⟩, ?_⟩
  rintro text ⟨source, told, spells⟩ shallow
  rw [Schema.ofText, Schema.understands.ofText told spells shallow]
  rfl

/-- A text with a single caveat, in front of the definitions. The name of the caveat is escaped, its
parameters and metadata are left out, and a member is added whose value holds a fraction and half of
a character. -/
def respelled : String :=
  "\x7b \"caveatDefinitions\": [\x7b\"x\": [-1.5e9, \"\\ud800\"], \"name\":\"\\u0061\"\x7d], " ++
    "\"objectDefinitions\":[]\x7d\n"

def respelledSource : Source :=
  .object [
    ("caveatDefinitions".toList, .array [.object [
      ("x".toList, .array [.numeral "-1.5e9".toList, .string "\\ud800".toList]),
      ("name".toList, .string "\\u0061".toList)]]),
    ("objectDefinitions".toList, .array [])]

theorem literal_unescaped (text : String)
    (bare : text.toList.flatMap escapedChar = text.toList) : Literal text.toList text.toList := by
  have literal := literal_flatMap_escapedChar text.toList
  rwa [bare] at literal

theorem spells_respelled : Spells respelledSource.tokens respelled.toList := by
  have space : ∀ c ∈ [' '], isBlank c = true := by simp [isBlank]
  have lineBreak : ∀ c ∈ ['\n'], isBlank c = true := by simp [isBlank]
  have plain (text : String) (bare : text.toList.flatMap escapedChar = text.toList) :=
    Token.Spelled.literal (literal_unescaped text bare).literalText
  have surrogate : LiteralText "\\ud800".toList := .code (.digits rfl rfl rfl rfl) .empty
  have letter : LiteralText "\\u0061".toList := .code (.digits rfl rfl rfl rfl) .empty
  have number : NumeralText (['-'] ++ (['1'] ++ ('.' :: ['5'] ++ ('e' :: ([] ++ ['9']))))) :=
    .parts (by simp) (.more rfl (by decide) (List.forall_mem_nil _))
      (.point ⟨by simp, by simp⟩) (.power (by simp) (by simp) ⟨by simp, by simp⟩)
  have definitions := Spells.token .comma trivial <|
    .more space (plain "objectDefinitions" (by decide)) trivial <| .token .colon trivial <|
    .token .openList trivial <| .token .closeList trivial <| .token .closeObject trivial <|
    .none lineBreak
  have name := Spells.token .comma trivial <| .more space (plain "name" (by decide)) trivial <|
    .token .colon trivial <| .token (.literal letter) trivial <| .token .closeObject trivial <|
    .token .closeList trivial definitions
  have added := Spells.token (plain "x" (by decide)) trivial <| .token .colon trivial <|
    .more space .openList trivial <| .token (.numeral number) (by rfl) <| .token .comma trivial <|
    .more space (.literal surrogate) trivial <| .token .closeList trivial name
  have whole := Spells.token .openObject trivial <|
    .more space (plain "caveatDefinitions" (by decide)) trivial <| .token .colon trivial <|
    .more space .openList trivial <| .token .openObject trivial added
  -- The characters of the two literals, without going through their octets.
  have characters (first second : List Char) :
      (String.ofList first ++ String.ofList second).toList = first ++ second := by
    rw [String.toList_append, String.toList_ofList, String.toList_ofList]
  exact characters _ _ ▸ whole

theorem told_respelled : Schema.Told { caveats := [{ name := "a" }] } respelled := by
  have zero : hexDigit? '0' = some 0 := by decide
  have six : hexDigit? '6' = some 6 := by decide
  have one : hexDigit? '1' = some 1 := by decide
  have escaped : Escaped 'a' ['\\', 'u', '0', '0', '6', '1'] :=
    .code (HexCode.digits zero zero six one)
  have letter := Literal.more escaped .empty
  have caveat : Caveat.tells { name := "a" } (.object [
      ("x".toList, .array [.numeral "-1.5e9".toList, .string "\\ud800".toList]),
      ("name".toList, .string "\\u0061".toList)]) := by
    refine ⟨_, .other (literal_unescaped "x" (by decide)) (by decide) ?_, rfl⟩
    change TellsMembers _ _ ([] ++ _ :: [_, _]) _
    exact .part (literal_unescaped "name" (by decide)) ⟨_, letter, rfl⟩
      (.rest (by simp [Part.defaulted]))
  refine ⟨respelledSource, ⟨_, ?_, rfl⟩, spells_respelled⟩
  change TellsMembers _ _ ([_] ++ _ :: []) _
  refine .part (literal_unescaped "caveatDefinitions" (by decide)) ⟨_, .cons caveat .nil, rfl⟩ ?_
  change TellsMembers _ _ ([] ++ _ :: []) _
  exact .part (literal_unescaped "objectDefinitions" (by decide)) ⟨_, .nil, rfl⟩
    (.rest (List.forall_mem_nil _))

theorem Schema.ofText_told_respelled :
    Schema.Told { caveats := [{ name := "a" }] } respelled ∧ nesting respelled ≤ 127 ∧
      Schema.ofText respelled = .ok { caveats := [{ name := "a" }] } := by
  have shallow : nesting respelled ≤ 127 := by
    rw [Source.nesting_of_spells spells_respelled]
    decide
  exact ⟨told_respelled, shallow, (Schema.ofText_told _).2 respelled told_respelled shallow⟩

end PermissionSchema.Compiled
