import PermissionSchema.Proofs.Json.Naturals
import PermissionSchema.Proofs.Json.Taking
/-!
Texts as trees: which values stand in which brackets, with numerals and the insides of strings as
they are written. Unlike a value, a source keeps what nobody may ever read: numerals of any size,
and strings whose codes make no text. White space between tokens is all that it leaves open.
-/
namespace PermissionSchema.Json

/-- A value as it is written. Of strings and of names it has what stands between the quotes. -/
inductive Source where
  | null
  | boolean (value : Bool)
  | numeral (text : List Char)
  | string (body : List Char)
  | array (items : List Source)
  | object (members : List (List Char × Source))

namespace Source

mutual

def tokens : Source → List Token
  | .null => [.null]
  | .boolean value => [.boolean value]
  | .numeral text => [.numeral text]
  | .string body => [.literal body]
  | .array items => .openList :: (joined true (itemPieces items) ++ [.closeList])
  | .object members => .openObject :: (joined true (memberPieces members) ++ [.closeObject])

def itemPieces : List Source → List (List Token)
  | [] => []
  | item :: rest => tokens item :: itemPieces rest

def memberPieces : List (List Char × Source) → List (List Token)
  | [] => []
  | (name, value) :: rest => (.literal name :: .colon :: tokens value) :: memberPieces rest

end

mutual

def depth : Source → Nat
  | .array items => itemsDepth items + 1
  | .object members => membersDepth members + 1
  | _ => 0

def itemsDepth : List Source → Nat
  | [] => 0
  | item :: rest => max (depth item) (itemsDepth rest)

def membersDepth : List (List Char × Source) → Nat
  | [] => 0
  | (_, value) :: rest => max (depth value) (membersDepth rest)

end

theorem itemPieces_eq (items : List Source) : itemPieces items = items.map tokens := by
  induction items with
  | nil => rfl
  | cons item rest ih => rw [itemPieces, ih, List.map_cons]

def memberPiece (member : List Char × Source) : List Token :=
  .literal member.1 :: .colon :: member.2.tokens

theorem memberPieces_eq (members : List (List Char × Source)) :
    memberPieces members = members.map memberPiece := by
  induction members with
  | nil => rfl
  | cons member rest ih => rw [memberPieces, ih, List.map_cons, memberPiece]

theorem tokens_array_append (items : List Source) (more : List Token) :
    (array items).tokens ++ more =
      .openList :: (joined true (items.map tokens) ++ .closeList :: more) := by
  simp [tokens, itemPieces_eq]

theorem tokens_object_append (members : List (List Char × Source)) (more : List Token) :
    (object members).tokens ++ more =
      .openObject :: (joined true (members.map memberPiece) ++ .closeObject :: more) := by
  simp [tokens, memberPieces_eq]

theorem tokens_eq_cons (source : Source) : ∃ first others, source.tokens = first :: others ∧
    first.begins = true ∧ (first = .null → source = .null) := by
  cases source <;> exact ⟨_, _, rfl, rfl, by simp⟩

theorem beginsValue_tokens (source : Source) : BeginsValue source.tokens := by
  obtain ⟨first, others, tokens, begins, _⟩ := tokens_eq_cons source
  exact ⟨first, others, tokens, begins⟩

theorem itemsDepth_le_iff (items : List Source) (bound : Nat) :
    itemsDepth items ≤ bound ↔ ∀ item ∈ items, item.depth ≤ bound := by
  induction items with
  | nil => simp [itemsDepth]
  | cons item rest ih => rw [itemsDepth, Nat.max_le, ih, List.forall_mem_cons]

theorem membersDepth_le_iff (members : List (List Char × Source)) (bound : Nat) :
    membersDepth members ≤ bound ↔ ∀ member ∈ members, member.2.depth ≤ bound := by
  induction members with
  | nil => simp [membersDepth]
  | cons member rest ih => rw [membersDepth, Nat.max_le, ih, List.forall_mem_cons]

mutual

theorem tokensNesting_tokens (depth : Nat) (more : List Token) : (source : Source) →
    tokensNesting depth (source.tokens ++ more) =
      max (depth + source.depth) (tokensNesting depth more)
  | .null | .boolean _ | .numeral _ | .string _ => by
    simp [tokens, tokensNesting, Source.depth, le_tokensNesting]
  | .array items => by
    have inside := tokensNesting_itemPieces (depth + 1) true (.closeList :: more) items
    simp only [tokens, tokensNesting, Source.depth, List.cons_append, List.append_assoc,
      List.nil_append, inside]
    simp
    omega
  | .object members => by
    have inside := tokensNesting_memberPieces (depth + 1) true (.closeObject :: more) members
    simp only [tokens, tokensNesting, Source.depth, List.cons_append, List.append_assoc,
      List.nil_append, inside]
    simp
    omega

theorem tokensNesting_itemPieces (depth : Nat) (atFirst : Bool) (more : List Token) :
    (items : List Source) →
    tokensNesting depth (joined atFirst (itemPieces items) ++ more) =
      max (depth + itemsDepth items) (tokensNesting depth more)
  | [] => by simp [itemPieces, joined, itemsDepth, le_tokensNesting]
  | item :: rest => by
    have first := tokensNesting_tokens depth (joined false (itemPieces rest) ++ more) item
    have others := tokensNesting_itemPieces depth false more rest
    cases atFirst <;>
      simp [itemPieces, joined, separator, tokensNesting, itemsDepth, first, others] <;> omega

theorem tokensNesting_memberPieces (depth : Nat) (atFirst : Bool) (more : List Token) :
    (members : List (List Char × Source)) →
    tokensNesting depth (joined atFirst (memberPieces members) ++ more) =
      max (depth + membersDepth members) (tokensNesting depth more)
  | [] => by simp [memberPieces, joined, membersDepth, le_tokensNesting]
  | (name, value) :: rest => by
    have first := tokensNesting_tokens depth (joined false (memberPieces rest) ++ more) value
    have others := tokensNesting_memberPieces depth false more rest
    cases atFirst <;>
      simp [memberPieces, joined, separator, tokensNesting, membersDepth, first, others] <;> omega

end

theorem nesting_of_spells {source : Source} {text : String}
    (spells : Spells source.tokens text.toList) : nesting text = source.depth := by
  have whole := tokensNesting_tokens 0 [] source
  rw [List.append_nil] at whole
  rw [nesting, nestingFrom_of_spells spells, whole]
  simp [tokensNesting]

end Source

mutual

def source : Json → Source
  | .null => .null
  | .boolean value => .boolean value
  | .number value => .numeral value.text
  | .string value => .string (value.toList.flatMap escapedChar)
  | .array items => .array (itemSources items)
  | .object members => .object (memberSources members)

def itemSources : List Json → List Source
  | [] => []
  | item :: rest => source item :: itemSources rest

def memberSources : List (String × Json) → List (List Char × Source)
  | [] => []
  | (name, value) :: rest =>
    (name.toList.flatMap escapedChar, source value) :: memberSources rest

end

theorem itemSources_eq (items : List Json) : itemSources items = items.map source := by
  induction items with
  | nil => rfl
  | cons item rest ih => rw [itemSources, ih, List.map_cons]

theorem memberSources_eq (members : List (String × Json)) :
    memberSources members =
      members.map fun member => (member.1.toList.flatMap escapedChar, source member.2) := by
  induction members with
  | nil => rfl
  | cons member rest ih => rw [memberSources, ih, List.map_cons]

theorem Literal.literalText {value body : List Char} (literal : Literal value body) :
    LiteralText body := by
  induction literal with
  | empty => exact .empty
  | more escaped _ ih =>
    cases escaped with
    | plain quote backslash visible => exact .plain quote backslash visible ih
    | letter stands => exact .letter stands ih
    | code code => exact .code code ih
    | halves first second _ _ _ =>
      rw [List.append_assoc]
      exact .code first (.code second ih)

theorem numeralText_toDigits (value : Nat) : NumeralText (Nat.toDigits 10 value) := by
  have parts := NumeralText.parts (List.mem_cons_self) (wholeText_toDigits value) .none .none
  rwa [List.nil_append, List.append_nil, List.append_nil] at parts

theorem lays_literal (value : String) :
    Lays [.literal (value.toList.flatMap escapedChar)] (stringText value) :=
  lays_token (.literal (literal_flatMap_escapedChar value.toList).literalText) fun _ _ => trivial

theorem lays_source {value : Json} (exact : value.Exact) :
    Lays value.source.tokens value.compact := by
  induction exact with
  | null => exact lays_token .null fun _ _ => trivial
  | boolean value => exact lays_token (.boolean value) fun _ _ => trivial
  | @natural value _ =>
    have numeral : Token.Spelled (.numeral (Number.integer value).text)
        (Number.integer value).text := .numeral (text_natural value ▸ numeralText_toDigits value)
    exact lays_token numeral fun _ apart => apart
  | string value => exact lays_literal value
  | @array items inside ih =>
    rw [compact, compactItems_eq, source, itemSources_eq, Source.tokens, Source.itemPieces_eq,
      List.map_map]
    exact lays_brackets .openList .closeList (fun _ => ⟨trivial, trivial⟩) isBlank_nil
      (fun _ => rfl) (lays_joined items ih)
  | @object members inside ih =>
    rw [compact, compactMembers_eq, source, memberSources_eq, Source.tokens,
      Source.memberPieces_eq, List.map_map]
    refine lays_brackets .openObject .closeObject (fun _ => ⟨trivial, trivial⟩) isBlank_nil
      (fun _ => rfl) (lays_joined members fun member among => ?_)
    intro more rest spells ends
    have behindColon := Spells.token .colon trivial (ih member among more rest spells ends)
    simpa [Source.memberPiece] using lays_literal member.1 _ _ behindColon rfl

theorem spells_source {value : Json} (exact : value.Exact) :
    Spells value.source.tokens value.text.toList := by
  have whole := lays_source exact [] [] (.none (by simp)) rfl
  rwa [List.append_nil, List.append_nil, ← String.toList_ofList (l := value.compact)] at whole

end PermissionSchema.Json
