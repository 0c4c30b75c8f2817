import PermissionSchema.Proofs.Json.Spelling
import Mathlib.Tactic.SplitIfs
/-!
Both written texts of a value, the compact and the pretty one, spell its tokens.
-/
namespace PermissionSchema.Json

theorem compactItems_eq (items : List Json) :
    compactItems items = [','].intercalate (items.map compact) := by
  induction items with
  | nil => rfl
  | cons item rest ih =>
    cases rest with
    | nil => simp [compactItems]
    | cons next rest => simp [compactItems, ih]

theorem compactMembers_eq (members : List (String × Json)) :
    compactMembers members =
      [','].intercalate (members.map fun member =>
        stringText member.1 ++ ':' :: compact member.2) := by
  induction members with
  | nil => rfl
  | cons member rest ih =>
    cases rest with
    | nil => simp [compactMembers]
    | cons next rest => simp [compactMembers, ih]

theorem prettyItems_eq (depth : Nat) (items : List Json) :
    prettyItems depth items =
      [','].intercalate (items.map fun item => newLine depth ++ pretty depth item) := by
  induction items with
  | nil => rfl
  | cons item rest ih =>
    cases rest with
    | nil => simp [prettyItems]
    | cons next rest => simp [prettyItems, ih]

theorem prettyMembers_eq (depth : Nat) (members : List (String × Json)) :
    prettyMembers depth members =
      [','].intercalate (members.map fun member =>
        newLine depth ++ (stringText member.1 ++ ':' :: ' ' :: pretty depth member.2)) := by
  induction members with
  | nil => rfl
  | cons member rest ih =>
    cases rest with
    | nil => simp [prettyMembers]
    | cons next rest => simp [prettyMembers, ih]

theorem hexDigit?_digitChar {value : Nat} (small : value < 16) :
    hexDigit? (Nat.digitChar value) = some value := by
  have all : ∀ value < 16, hexDigit? (Nat.digitChar value) = some value := by decide
  exact all value small

theorem escaped_control {c : Char} (control : c.toNat < 0x20) : Escaped c
    ['\\', 'u', '0', '0', Nat.digitChar (c.toNat / 16), Nat.digitChar (c.toNat % 16)] := by
  have zero : hexDigit? '0' = some 0 := by decide
  have high : hexDigit? (Nat.digitChar (c.toNat / 16)) = some (c.toNat / 16) :=
    hexDigit?_digitChar (by omega)
  have low : hexDigit? (Nat.digitChar (c.toNat % 16)) = some (c.toNat % 16) :=
    hexDigit?_digitChar (by omega)
  have code := HexCode.digits zero zero high low
  rw [show ((0 * 16 + 0) * 16 + c.toNat / 16) * 16 + c.toNat % 16 = c.toNat by omega] at code
  exact .code code

theorem escaped_escapedChar (c : Char) : Escaped c (escapedChar c) := by
  have letter {letter other : Char} (stands : (letter, other) ∈ letterEscapes) (same : c = other) :
      Escaped c ['\\', letter] := same ▸ .letter stands
  unfold escapedChar
  split_ifs with quote backslash lineFeed carriageReturn tab backspace formFeed control
  · exact letter (by decide) quote
  · exact letter (by decide) backslash
  · exact letter (by decide) lineFeed
  · exact letter (by decide) carriageReturn
  · exact letter (by decide) tab
  · exact letter (by decide) (Char.toNat_inj.mp backspace : c = '\x08')
  · exact letter (by decide) (Char.toNat_inj.mp formFeed : c = '\x0c')
  · exact escaped_control control
  · exact .plain quote backslash (Nat.le_of_not_lt control)

theorem literal_flatMap_escapedChar (value : List Char) :
    Literal value (value.flatMap escapedChar) := by
  induction value with
  | nil => exact .empty
  | cons c rest ih => exact .more (escaped_escapedChar c) ih

theorem spelled_stringText (value : String) : (Token.string value).Spelled (stringText value) :=
  .string (literal_flatMap_escapedChar value.toList)

theorem Spells.blanks {tokens : List Token} {text blanks : List Char}
    (white : ∀ c ∈ blanks, isBlank c = true) (spells : Spells tokens text) :
    Spells tokens (blanks ++ text) := by
  cases spells with
  | none also =>
    refine .none ?_
    intro c member
    exact (List.mem_append.mp member).elim (white c) (also c)
  | more also spelled ends later =>
    rw [← List.append_assoc]
    refine .more ?_ spelled ends later
    intro c member
    exact (List.mem_append.mp member).elim (white c) (also c)

theorem Spells.token {token : Token} {others : List Token} {text rest : List Char}
    (spelled : token.Spelled text) (ends : token.Ends rest) (later : Spells others rest) :
    Spells (token :: others) (text ++ rest) :=
  .more isBlank_nil spelled ends later

/-- A text lays out tokens in front of all that does not go on with a number. -/
def Lays (tokens : List Token) (text : List Char) : Prop :=
  ∀ (more : List Token) (rest : List Char), Spells more rest → extendsNumeral rest = false →
    Spells (tokens ++ more) (text ++ rest)

theorem Lays.blanks {tokens : List Token} {text blanks : List Char}
    (white : ∀ c ∈ blanks, isBlank c = true) (lays : Lays tokens text) :
    Lays tokens (blanks ++ text) := by
  intro more rest spells ends
  rw [List.append_assoc]
  exact (lays _ _ spells ends).blanks white

/-- Items or members with commas between them lay out their tokens if each of them does. -/
theorem lays_joined {ι : Type} {tokens : ι → List Token} {line : ι → List Char} (items : List ι)
    (inside : ∀ item ∈ items, Lays (tokens item) (line item)) :
    Lays (joined true (items.map tokens)) ([','].intercalate (items.map line)) := by
  intro more rest spells ends
  induction items with
  | nil => exact spells
  | cons item items ih =>
    have first := inside item List.mem_cons_self
    cases items with
    | nil => simpa [joined, separator] using first _ _ spells ends
    | cons next items =>
      have others := ih fun item member => inside item (List.mem_cons_of_mem _ member)
      have commaNext := Spells.token (.comma) trivial others
      simpa [joined, separator] using first _ _ commaNext rfl

theorem lays_token {token : Token} {text : List Char} (spelled : token.Spelled text)
    (ends : ∀ rest, extendsNumeral rest = false → token.Ends rest) : Lays [token] text :=
  fun _ rest spells apart => .token spelled (ends rest apart) spells

/-- Brackets lay out the tokens between them if what they hold does; white space may stand in front
of the closing one. -/
theorem lays_brackets {opening closing : Token} {left right inside blanks : List Char}
    {tokens : List Token} (opens : opening.Spelled left) (closes : closing.Spelled right)
    (bare : ∀ rest, opening.Ends rest ∧ closing.Ends rest)
    (white : ∀ c ∈ blanks, isBlank c = true)
    (apart : ∀ rest, extendsNumeral (blanks ++ (right ++ rest)) = false)
    (lays : Lays tokens inside) :
    Lays (opening :: tokens ++ [closing]) (left ++ inside ++ (blanks ++ right)) := by
  intro more rest spells ends
  have closed := lays _ _ (.more white closes (bare rest).2 spells) (apart rest)
  simpa using Spells.token opens (bare _).1 closed

theorem lays_member (name : String) {value : Json} {text blanks : List Char}
    (white : ∀ c ∈ blanks, isBlank c = true) (lays : Lays value.tokens text) :
    Lays (.string name :: .colon :: value.tokens) (stringText name ++ ':' :: (blanks ++ text)) := by
  intro more rest spells ends
  have behindColon := Spells.token .colon trivial ((lays _ _ spells ends).blanks white)
  simpa using Spells.token (spelled_stringText name) trivial behindColon

theorem lays_natural {value : Nat} (small : value < 0x10000000000000000) :
    Lays (Json.natural value).tokens (Number.integer value).text := by
  rw [text_natural]
  exact lays_token (.natural small) fun _ apart => apart

theorem lays_compact {value : Json} (exact : value.Exact) : Lays value.tokens value.compact := by
  induction exact with
  | null => exact lays_token .null fun _ _ => trivial
  | boolean value => exact lays_token (.boolean value) fun _ _ => trivial
  | natural small => exact lays_natural small
  | string value => exact lays_token (spelled_stringText value) fun _ _ => trivial
  | @array items inside ih =>
    rw [compact, compactItems_eq, Json.tokens, itemTokens_eq]
    exact lays_brackets .openList .closeList (fun _ => ⟨trivial, trivial⟩) isBlank_nil
      (fun _ => rfl) (lays_joined items ih)
  | @object members inside ih =>
    rw [compact, compactMembers_eq, Json.tokens, memberTokens_eq]
    refine lays_brackets .openObject .closeObject (fun _ => ⟨trivial, trivial⟩) isBlank_nil
      (fun _ => rfl) (lays_joined members ?_)
    intro member among
    exact lays_member member.1 isBlank_nil (ih member among)

theorem isBlank_newLine (depth : Nat) : ∀ c ∈ newLine depth, isBlank c = true := by
  intro c member
  rcases List.mem_cons.mp member with same | member
  · exact same ▸ rfl
  · exact List.eq_of_mem_replicate member ▸ rfl

/-- The pretty text of an exact value spells its tokens, at whatever depth it stands. -/
theorem lays_pretty {value : Json} (exact : value.Exact) :
    ∀ depth, Lays value.tokens (value.pretty depth) := by
  induction exact with
  | null => exact fun _ => lays_token .null fun _ _ => trivial
  | boolean value => exact fun _ => lays_token (.boolean value) fun _ _ => trivial
  | natural small => exact fun _ => lays_natural small
  | string value => exact fun _ => lays_token (spelled_stringText value) fun _ _ => trivial
  | @array items inside ih =>
    intro depth
    cases items with
    | nil => exact lays_compact (.array inside)
    | cons item items =>
      rw [pretty, prettyItems_eq, List.append_assoc, Json.tokens, itemTokens_eq]
      refine lays_brackets .openList .closeList (fun _ => ⟨trivial, trivial⟩)
        (isBlank_newLine depth) (fun _ => rfl) (lays_joined (item :: items) ?_)
      intro item among
      exact (ih item among (depth + 1)).blanks (isBlank_newLine (depth + 1))
  | @object members inside ih =>
    intro depth
    cases members with
    | nil => exact lays_compact (.object inside)
    | cons member members =>
      rw [pretty, prettyMembers_eq, List.append_assoc, Json.tokens, memberTokens_eq]
      refine lays_brackets .openObject .closeObject (fun _ => ⟨trivial, trivial⟩)
        (isBlank_newLine depth) (fun _ => rfl) (lays_joined (member :: members) ?_)
      intro member among
      have space : ∀ c ∈ [' '], isBlank c = true := by simp [isBlank]
      exact (lays_member member.1 space (ih member among (depth + 1))).blanks
        (isBlank_newLine (depth + 1))

theorem spells_compact {value : Json} (exact : value.Exact) :
    Spells value.tokens value.compact := by
  have whole := lays_compact exact [] [] (.none (by simp)) rfl
  rwa [List.append_nil, List.append_nil] at whole

theorem spells_pretty {value : Json} (exact : value.Exact) :
    Spells value.tokens (value.pretty 0) := by
  have whole := lays_pretty exact 0 [] [] (.none (by simp)) rfl
  rwa [List.append_nil, List.append_nil] at whole

end PermissionSchema.Json
