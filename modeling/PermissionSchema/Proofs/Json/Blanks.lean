import PermissionSchema.Proofs.Json.Nesting
/-!
White space in written texts. The pretty text of a value is its compact text with spaces and line
breaks between tokens, and the compact text has no character below the space at all.
-/
namespace PermissionSchema.Json

/-- A text without the spaces and line breaks that stand outside its strings; whether the text
begins within a string is told apart. -/
def condensedFrom : Bool → List Char → List Char
  | _, [] => []
  | true, '\\' :: c :: rest => '\\' :: c :: condensedFrom true rest
  | true, c :: rest => c :: condensedFrom (c ≠ '"') rest
  | false, c :: rest =>
    if c = ' ' ∨ c = '\n' then condensedFrom false rest else c :: condensedFrom (c = '"') rest

def condensed (text : String) : String :=
  String.ofList (condensedFrom false text.toList)

theorem condensedFrom_inside {c : Char} (rest : List Char) (quote : c ≠ '"')
    (backslash : c ≠ '\\') : condensedFrom true (c :: rest) = c :: condensedFrom true rest := by
  rw [condensedFrom]
  · simp [quote]
  · intro _ _ same
    exact absurd same backslash

theorem condensedFrom_code {digits : List Char} {value : Nat} (code : HexCode digits value)
    (rest : List Char) :
    condensedFrom true ('\\' :: 'u' :: digits ++ rest) =
      '\\' :: 'u' :: digits ++ condensedFrom true rest := by
  obtain ⟨first, second, third, fourth⟩ := code
  have digit {c : Char} {value : Nat} (known : hexDigit? c = some value) (more : List Char) :
      condensedFrom true (c :: more) = c :: condensedFrom true more :=
    condensedFrom_inside more (hexDigit?_bare known).1 (hexDigit?_bare known).2
  simp only [List.cons_append, List.nil_append, condensedFrom]
  rw [digit first, digit second, digit third, digit fourth]

theorem condensedFrom_escaped {c : Char} {text : List Char} (escaped : Escaped c text)
    (rest : List Char) : condensedFrom true (text ++ rest) = text ++ condensedFrom true rest := by
  cases escaped with
  | plain quote backslash _ => exact condensedFrom_inside rest quote backslash
  | letter _ => rfl
  | code code => exact condensedFrom_code code rest
  | halves first second _ _ _ =>
    rw [List.append_assoc, condensedFrom_code first, condensedFrom_code second, List.append_assoc]

theorem condensedFrom_literal {value text : List Char} (literal : Literal value text)
    (rest : List Char) :
    condensedFrom true (text ++ '"' :: rest) = text ++ '"' :: condensedFrom false rest := by
  induction literal with
  | empty => simp [condensedFrom]
  | more escaped _ ih =>
    rw [List.append_assoc, condensedFrom_escaped escaped, ih, List.append_assoc]

/-- What remains of a loose text without its white space is a tight one, whatever stands behind
it. -/
def Condenses (loose tight : List Char) : Prop :=
  ∀ rest, condensedFrom false (loose ++ rest) = tight ++ condensedFrom false rest

namespace Condenses

theorem append {first second tightFirst tightSecond : List Char}
    (leading : Condenses first tightFirst) (trailing : Condenses second tightSecond) :
    Condenses (first ++ second) (tightFirst ++ tightSecond) := by
  intro rest
  rw [List.append_assoc, leading, trailing, List.append_assoc]

theorem plain {text : List Char} (bare : ∀ c ∈ text, c ∉ [' ', '\n', '"']) :
    Condenses text text := by
  intro rest
  induction text with
  | nil => rfl
  | cons c text ih =>
    have first := bare c List.mem_cons_self
    simp only [List.mem_cons, List.not_mem_nil, or_false, not_or] at first
    have later := ih fun other member => bare other (List.mem_cons_of_mem _ member)
    rw [List.cons_append, condensedFrom, if_neg (by simp [first]), decide_eq_false first.2.2, later,
      List.cons_append]

theorem newLine (depth : Nat) : Condenses (newLine depth) [] := by
  intro rest
  have spaces (count : Nat) : condensedFrom false (List.replicate count ' ' ++ rest) =
      condensedFrom false rest := by
    induction count with
    | zero => rfl
    | succ count ih =>
      rw [List.replicate_succ, List.cons_append, condensedFrom, if_pos (.inl rfl), ih]
  rw [Json.newLine, List.cons_append, condensedFrom, if_pos (.inr rfl), spaces, List.nil_append]

theorem string (value : String) : Condenses (stringText value) (stringText value) := by
  intro rest
  have body := condensedFrom_literal (literal_flatMap_escapedChar value.toList) rest
  simp only [stringText, List.cons_append, List.append_assoc, List.nil_append]
  rw [condensedFrom, if_neg (by decide), decide_eq_true rfl, body]

theorem natural (value : Nat) :
    Condenses (Number.integer value).text (Number.integer value).text := by
  refine plain fun c member blank => ?_
  rw [text_natural] at member
  have digit := isDigit_of_mem_toDigits member
  simp only [List.mem_cons, List.not_mem_nil, or_false] at blank
  rcases blank with rfl | rfl | rfl <;> exact absurd digit (by decide)

theorem intercalate {α : Type} {loose tight : α → List Char} (items : List α)
    (each : ∀ item ∈ items, Condenses (loose item) (tight item)) :
    Condenses ([','].intercalate (items.map loose)) ([','].intercalate (items.map tight)) := by
  induction items with
  | nil => exact fun _ => rfl
  | cons item items ih =>
    have first := each item List.mem_cons_self
    cases items with
    | nil => simpa using first
    | cons next items =>
      have comma : Condenses [','] [','] := plain (by simp)
      have others := ih fun item member => each item (List.mem_cons_of_mem _ member)
      simpa using first.append (comma.append others)

end Condenses

/-- The pretty text of an exact value condenses to its compact text, at whatever depth it stands. -/
theorem condenses_pretty {value : Json} (exact : value.Exact) :
    ∀ depth, Condenses (value.pretty depth) value.compact := by
  have bracket (c : Char) (bare : c ∉ [' ', '\n', '"']) : Condenses [c] [c] :=
    .plain (List.forall_mem_singleton.mpr bare)
  induction exact with
  | null =>
    have word : Condenses ['n', 'u', 'l', 'l'] ['n', 'u', 'l', 'l'] := .plain (by simp)
    exact fun _ => word
  | boolean value =>
    have word : Condenses (booleanText value) (booleanText value) :=
      .plain (by cases value <;> simp [booleanText])
    exact fun _ => word
  | @natural value small => exact fun _ => .natural value
  | string value => exact fun _ => .string value
  | @array items inside ih =>
    intro depth
    cases items with
    | nil => exact (bracket '[' (by decide)).append (bracket ']' (by decide))
    | cons item items =>
      rw [pretty, prettyItems_eq, compact, compactItems_eq]
      have held : Condenses ([','].intercalate ((item :: items).map fun item =>
          newLine (depth + 1) ++ pretty (depth + 1) item))
          ([','].intercalate ((item :: items).map compact)) :=
        .intercalate _ fun item among => (Condenses.newLine _).append (ih item among (depth + 1))
      simpa using (bracket '[' (by decide)).append
        ((held.append (.newLine depth)).append (bracket ']' (by decide)))
  | @object members inside ih =>
    intro depth
    cases members with
    | nil => exact (bracket '{' (by decide)).append (bracket '}' (by decide))
    | cons member members =>
      rw [pretty, prettyMembers_eq, compact, compactMembers_eq]
      have colon : Condenses [':', ' '] [':'] := fun _ => rfl
      have held : Condenses ([','].intercalate ((member :: members).map fun member =>
          newLine (depth + 1) ++
            (stringText member.1 ++ ([':', ' '] ++ pretty (depth + 1) member.2))))
          ([','].intercalate ((member :: members).map fun member =>
            stringText member.1 ++ ([':'] ++ compact member.2))) :=
        .intercalate _ fun member among => (Condenses.newLine _).append
          ((Condenses.string member.1).append (colon.append (ih member among (depth + 1))))
      simpa using (bracket '{' (by decide)).append
        ((held.append (.newLine depth)).append (bracket '}' (by decide)))

theorem condensed_prettyText {value : Json} (exact : value.Exact) :
    condensed value.prettyText = value.text := by
  have whole := condenses_pretty exact 0 []
  rw [List.append_nil, show condensedFrom false [] = [] from rfl, List.append_nil] at whole
  rw [condensed, prettyText, String.toList_ofList, whole, text]

def Visible (text : List Char) : Prop :=
  ∀ c ∈ text, 0x20 ≤ c.toNat

instance (text : List Char) : Decidable (Visible text) :=
  List.decidableBAll _ text

theorem Visible.append {first second : List Char} (leading : Visible first)
    (trailing : Visible second) : Visible (first ++ second) := by
  intro c member
  exact (List.mem_append.mp member).elim (leading c) (trailing c)

theorem Visible.intercalate {α : Type} {line : α → List Char} (items : List α)
    (each : ∀ item ∈ items, Visible (line item)) :
    Visible ([','].intercalate (items.map line)) := by
  induction items with
  | nil => exact nofun
  | cons item items ih =>
    have first := each item List.mem_cons_self
    cases items with
    | nil => simpa using first
    | cons next items =>
      have comma : Visible [','] := by decide
      have others := ih fun item member => each item (List.mem_cons_of_mem _ member)
      simpa using first.append (comma.append others)

theorem visible_digitChar {value : Nat} (small : value < 16) :
    0x20 ≤ (Nat.digitChar value).toNat := by
  have all : ∀ value < 16, 0x20 ≤ (Nat.digitChar value).toNat := by decide
  exact all value small

theorem visible_escapedChar (c : Char) : Visible (escapedChar c) := by
  unfold escapedChar
  -- Seven escapes by a letter, then those by a code, then the characters that stand for themselves.
  split_ifs with quote backslash lineFeed carriageReturn tab backspace formFeed control
  iterate 7 · decide
  · have high := visible_digitChar (show c.toNat / 16 < 16 by omega)
    have low := visible_digitChar (show c.toNat % 16 < 16 by omega)
    have front : Visible ['\\', 'u', '0', '0'] := by decide
    have digits : Visible [Nat.digitChar (c.toNat / 16), Nat.digitChar (c.toNat % 16)] := by
      simp [Visible, high, low]
    exact front.append digits
  · exact List.forall_mem_singleton.mpr (Nat.le_of_not_lt control)

theorem visible_stringText (value : String) : Visible (stringText value) := by
  have quote : Visible ['"'] := by decide
  have body : Visible (value.toList.flatMap escapedChar) := by
    intro c member
    obtain ⟨letter, _, inside⟩ := List.mem_flatMap.mp member
    exact visible_escapedChar letter c inside
  exact quote.append (body.append quote)

/-- The compact text of an exact value is one line without control characters, whatever its strings
hold. -/
theorem visible_compact {value : Json} (exact : value.Exact) : Visible value.compact := by
  induction exact with
  | null => exact (show Visible ['n', 'u', 'l', 'l'] by decide)
  | boolean value => exact (show Visible (booleanText value) by cases value <;> decide)
  | @natural value small =>
    intro c member
    rw [Json.natural, compact, text_natural] at member
    have digit : 0x30 ≤ c.toNat ∧ c.toNat ≤ 0x39 :=
      Char.isDigit_iff_toNat.mp (isDigit_of_mem_toDigits member)
    omega
  | string value => exact visible_stringText value
  | @array items inside ih =>
    have held := Visible.intercalate items ih
    rw [compact, compactItems_eq]
    exact (show Visible ['['] by decide).append (held.append (by decide))
  | @object members inside ih =>
    have colon : Visible [':'] := by decide
    have held : Visible ([','].intercalate (members.map fun member =>
        stringText member.1 ++ ([':'] ++ compact member.2))) :=
      .intercalate _ fun member among =>
        (visible_stringText member.1).append (colon.append (ih member among))
    rw [compact, compactMembers_eq]
    exact (show Visible ['{'] by decide).append (held.append (by decide))

end PermissionSchema.Json
