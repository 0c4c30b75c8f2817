import PermissionSchema.Proofs.Json.Layout
/-!
How deep brackets nest: in a text, where those within strings do not count, and in a value. Every
text that spells a value nests exactly as deep as the value.
-/
namespace PermissionSchema.Json

/-- How deep the brackets of a text nest where so many are open already; whether the text begins
within a string is told apart. -/
def nestingFrom (depth : Nat) : Bool → List Char → Nat
  | _, [] => depth
  | true, '\\' :: _ :: rest => nestingFrom depth true rest
  | true, c :: rest => nestingFrom depth (c ≠ '"') rest
  | false, c :: rest =>
    if c = '"' then nestingFrom depth true rest
    else if c = '[' ∨ c = '{' then nestingFrom (depth + 1) false rest
    else if c = ']' ∨ c = '}' then max depth (nestingFrom (depth - 1) false rest)
    else nestingFrom depth false rest

def nesting (text : String) : Nat :=
  nestingFrom 0 false text.toList

mutual

def depth : Json → Nat
  | .array items => itemsDepth items + 1
  | .object members => membersDepth members + 1
  | _ => 0

def itemsDepth : List Json → Nat
  | [] => 0
  | item :: rest => max (depth item) (itemsDepth rest)

def membersDepth : List (String × Json) → Nat
  | [] => 0
  | (_, value) :: rest => max (depth value) (membersDepth rest)

end

theorem itemsDepth_cons_le_iff (item : Json) (rest : List Json) (bound : Nat) :
    itemsDepth (item :: rest) ≤ bound ↔ item.depth ≤ bound ∧ itemsDepth rest ≤ bound :=
  Nat.max_le

theorem membersDepth_cons_le_iff (name : String) (value : Json) (rest : List (String × Json))
    (bound : Nat) : membersDepth ((name, value) :: rest) ≤ bound ↔
      value.depth ≤ bound ∧ membersDepth rest ≤ bound :=
  Nat.max_le

theorem itemsDepth_le_iff (items : List Json) (bound : Nat) :
    itemsDepth items ≤ bound ↔ ∀ item ∈ items, item.depth ≤ bound := by
  induction items with
  | nil => simp [itemsDepth]
  | cons item rest ih => rw [itemsDepth_cons_le_iff, ih, List.forall_mem_cons]

theorem membersDepth_le_iff (members : List (String × Json)) (bound : Nat) :
    membersDepth members ≤ bound ↔ ∀ member ∈ members, member.2.depth ≤ bound := by
  induction members with
  | nil => simp [membersDepth]
  | cons member rest ih => rw [membersDepth_cons_le_iff, ih, List.forall_mem_cons]

theorem depth_single (name : String) (json : Json) :
    (object [(name, json)]).depth = json.depth + 1 := by
  simp [depth, membersDepth]

def tokensNesting (depth : Nat) : List Token → Nat
  | [] => depth
  | .openList :: rest | .openObject :: rest => tokensNesting (depth + 1) rest
  | .closeList :: rest | .closeObject :: rest => max depth (tokensNesting (depth - 1) rest)
  | _ :: rest => tokensNesting depth rest

theorem nestingFrom_of_plain {text : List Char} (depth : Nat) (rest : List Char)
    (plain : ∀ c ∈ text, c ∉ ['"', '[', ']', '{', '}']) :
    nestingFrom depth false (text ++ rest) = nestingFrom depth false rest := by
  induction text with
  | nil => rfl
  | cons c text ih =>
    have first := plain c List.mem_cons_self
    simp only [List.mem_cons, List.not_mem_nil, or_false, not_or] at first
    rw [List.cons_append, nestingFrom, if_neg first.1, if_neg (by simp [first]),
      if_neg (by simp [first])]
    exact ih fun other member => plain other (List.mem_cons_of_mem _ member)

theorem isBlank_plain {c : Char} (blank : isBlank c = true) : c ∉ ['"', '[', ']', '{', '}'] := by
  have none : ['"', '[', ']', '{', '}'].all (fun c => !isBlank c) = true := by decide
  intro among
  simpa [blank] using List.all_eq_true.mp none c among

theorem isDigit_plain {c : Char} (digit : c.isDigit = true) : c ∉ ['"', '[', ']', '{', '}'] := by
  have none : ['"', '[', ']', '{', '}'].all (fun c => !c.isDigit) = true := by decide
  intro among
  simpa [digit] using List.all_eq_true.mp none c among

theorem hexDigit?_bare {c : Char} {value : Nat} (digit : hexDigit? c = some value) :
    c ≠ '"' ∧ c ≠ '\\' := by
  have quote : hexDigit? '"' = none := by decide
  have backslash : hexDigit? '\\' = none := by decide
  constructor <;> rintro rfl <;> simp_all

theorem nestingFrom_inside {c : Char} (depth : Nat) (rest : List Char) (quote : c ≠ '"')
    (backslash : c ≠ '\\') :
    nestingFrom depth true (c :: rest) = nestingFrom depth true rest := by
  rw [nestingFrom]
  · simp [quote]
  · intro _ _ same
    exact absurd same backslash

theorem nestingFrom_code {digits : List Char} {value : Nat} (code : HexCode digits value)
    (depth : Nat) (rest : List Char) :
    nestingFrom depth true ('\\' :: 'u' :: digits ++ rest) = nestingFrom depth true rest := by
  obtain ⟨first, second, third, fourth⟩ := code
  have digit {c : Char} {value : Nat} (known : hexDigit? c = some value) (more : List Char) :
      nestingFrom depth true (c :: more) = nestingFrom depth true more :=
    nestingFrom_inside depth more (hexDigit?_bare known).1 (hexDigit?_bare known).2
  simp only [List.cons_append, List.nil_append, nestingFrom]
  rw [digit first, digit second, digit third, digit fourth]

theorem nestingFrom_escaped {c : Char} {text : List Char} (escaped : Escaped c text) (depth : Nat)
    (rest : List Char) : nestingFrom depth true (text ++ rest) = nestingFrom depth true rest := by
  cases escaped with
  | plain quote backslash _ => exact nestingFrom_inside depth rest quote backslash
  | letter _ => rfl
  | code code => exact nestingFrom_code code depth rest
  | halves first second _ _ _ =>
    rw [List.append_assoc, nestingFrom_code first, nestingFrom_code second]

theorem nestingFrom_literal {value text : List Char} (literal : Literal value text) (depth : Nat)
    (rest : List Char) :
    nestingFrom depth true (text ++ '"' :: rest) = nestingFrom depth false rest := by
  induction literal with
  | empty => simp [nestingFrom]
  | more escaped _ ih => rw [List.append_assoc, nestingFrom_escaped escaped, ih]

theorem nestingFrom_literalText {body : List Char} (literal : LiteralText body) (depth : Nat)
    (rest : List Char) :
    nestingFrom depth true (body ++ '"' :: rest) = nestingFrom depth false rest := by
  induction literal with
  | empty => simp [nestingFrom]
  | plain quote backslash _ _ ih =>
    rw [List.cons_append, nestingFrom_inside _ _ quote backslash, ih]
  | letter _ _ ih => exact ih
  | code code _ ih =>
    rw [List.cons_append, List.cons_append, List.append_assoc]
    exact (nestingFrom_code code depth _).trans ih

theorem WholeText.isDigit {text : List Char} (whole : WholeText text) :
    ∀ c ∈ text, c.isDigit = true := by
  cases whole with
  | zero => simp
  | more digit _ digits => exact List.forall_mem_cons.mpr ⟨digit, digits⟩

theorem NumeralText.plain {text : List Char} (numeral : NumeralText text) :
    ∀ c ∈ text, c ∉ ['"', '[', ']', '{', '}'] := by
  have all {digits : List Char} (known : ∀ c ∈ digits, c.isDigit = true) :
      ∀ c ∈ digits, c ∉ ['"', '[', ']', '{', '}'] := fun c member => isDigit_plain (known c member)
  obtain ⟨signs, before, behind, power⟩ := numeral
  simp only [List.forall_mem_append]
  refine ⟨?_, all before.isDigit, ?_, ?_⟩
  · simp only [List.mem_cons, List.not_mem_nil, or_false] at signs
    rcases signs with rfl | rfl <;> simp
  · cases behind with
    | none => simp
    | point digits => exact List.forall_mem_cons.mpr ⟨by decide, all digits.all⟩
  · cases power with
    | none => simp
    | power marks signs digits =>
      simp only [List.mem_cons, List.not_mem_nil, or_false] at marks signs
      rw [List.forall_mem_cons, List.forall_mem_append]
      refine ⟨?_, ?_, all digits.all⟩
      · rcases marks with rfl | rfl <;> simp
      · rcases signs with rfl | rfl | rfl <;> simp

theorem nestingFrom_spelled {token : Token} {text : List Char} (spelled : token.Spelled text)
    (others : List Token) (rest : List Char) (depth : Nat)
    (later : ∀ depth, nestingFrom depth false rest = tokensNesting depth others) :
    nestingFrom depth false (text ++ rest) = tokensNesting depth (token :: others) := by
  cases spelled with
  | openList | closeList | openObject | closeObject => simp [nestingFrom, tokensNesting, later]
  | comma | colon | null => simp [nestingFrom, tokensNesting, later]
  | boolean value => cases value <;> simp [booleanText, nestingFrom, tokensNesting, later]
  | natural small =>
    rw [nestingFrom_of_plain depth rest fun c member =>
      isDigit_plain (isDigit_of_mem_toDigits member), later]
    rfl
  | string literal => simp [nestingFrom, nestingFrom_literal literal, tokensNesting, later]
  | numeral numeral =>
    rw [nestingFrom_of_plain depth rest numeral.plain, later]
    rfl
  | literal literal => simp [nestingFrom, nestingFrom_literalText literal, tokensNesting, later]

/-- A text nests as deep as the tokens that it spells. -/
theorem nestingFrom_of_spells {tokens : List Token} {text : List Char}
    (spells : Spells tokens text) :
    ∀ depth, nestingFrom depth false text = tokensNesting depth tokens := by
  induction spells with
  | none white =>
    intro depth
    have whole := nestingFrom_of_plain depth [] fun c member => isBlank_plain (white c member)
    rwa [List.append_nil] at whole
  | more white spelled ends later ih =>
    intro depth
    rw [nestingFrom_of_plain depth _ fun c member => isBlank_plain (white c member)]
    exact nestingFrom_spelled spelled _ _ depth ih

theorem le_tokensNesting (depth : Nat) (tokens : List Token) :
    depth ≤ tokensNesting depth tokens := by
  induction tokens generalizing depth with
  | nil => exact Nat.le_refl depth
  | cons token rest ih =>
    cases token <;> simp only [tokensNesting]
    case openList | openObject => exact Nat.le_of_succ_le (ih (depth + 1))
    case closeList | closeObject => exact Nat.le_max_left ..
    all_goals exact ih depth

mutual

theorem tokensNesting_tokens (depth : Nat) (more : List Token) : (json : Json) →
    tokensNesting depth (json.tokens ++ more) =
      max (depth + json.depth) (tokensNesting depth more)
  | .null | .boolean _ | .number _ | .string _ => by
    simp [tokens, tokensNesting, Json.depth, le_tokensNesting]
  | .array items => by
    have inside := tokensNesting_itemTokens (depth + 1) true (.closeList :: more) items
    simp only [tokens, tokensNesting, Json.depth, List.cons_append, List.append_assoc,
      List.nil_append, inside]
    have := le_tokensNesting depth more
    simp
    omega
  | .object members => by
    have inside := tokensNesting_memberTokens (depth + 1) true (.closeObject :: more) members
    simp only [tokens, tokensNesting, Json.depth, List.cons_append, List.append_assoc,
      List.nil_append, inside]
    simp
    omega

theorem tokensNesting_itemTokens (depth : Nat) (atFirst : Bool) (more : List Token) :
    (items : List Json) →
    tokensNesting depth (itemTokens atFirst items ++ more) =
      max (depth + itemsDepth items) (tokensNesting depth more)
  | [] => by simp [itemTokens, itemsDepth, le_tokensNesting]
  | item :: rest => by
    have first := tokensNesting_tokens depth (itemTokens false rest ++ more) item
    have others := tokensNesting_itemTokens depth false more rest
    cases atFirst <;>
      simp [itemTokens, separator, tokensNesting, itemsDepth, first, others] <;> omega

theorem tokensNesting_memberTokens (depth : Nat) (atFirst : Bool) (more : List Token) :
    (members : List (String × Json)) →
    tokensNesting depth (memberTokens atFirst members ++ more) =
      max (depth + membersDepth members) (tokensNesting depth more)
  | [] => by simp [memberTokens, membersDepth, le_tokensNesting]
  | (name, value) :: rest => by
    have first := tokensNesting_tokens depth (memberTokens false rest ++ more) value
    have others := tokensNesting_memberTokens depth false more rest
    cases atFirst <;>
      simp [memberTokens, separator, tokensNesting, membersDepth, first, others] <;> omega

end

/-- Every text of a value nests as deep as the value. -/
theorem nesting_of_spells {json : Json} {text : String} (spells : Spells json.tokens text.toList) :
    nesting text = json.depth := by
  have whole := tokensNesting_tokens 0 [] json
  rw [List.append_nil] at whole
  rw [nesting, nestingFrom_of_spells spells, whole]
  simp [tokensNesting]

end PermissionSchema.Json
