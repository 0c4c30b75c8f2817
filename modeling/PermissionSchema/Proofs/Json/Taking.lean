import PermissionSchema.Json.Any
import PermissionSchema.Json.Choice
import PermissionSchema.Json.Codec
import PermissionSchema.Proofs.Json.Naturals
import PermissionSchema.Proofs.Json.Nesting
import PermissionSchema.Proofs.Json.Strings
import Mathlib.Data.List.Forall2
/-!
Which readers take which JSON values: single values, lists, brackets, choices by name, and any value
at all. A reader takes a value wherever it stands and however it is spelled, and counts its brackets
exactly.
-/
namespace PermissionSchema.Json

open PermissionSchema.Text.Utf8

variable {α β : Type}

/-- A reader that is told how deep brackets may nest takes a JSON value as a value of its own. -/
def Takes (read : Nat → Reader α) (json : Json) (value : α) : Prop :=
  ∀ (depth : Nat) (more : List Token),
    Reads (json.depth ≤ depth) (Spells (json.tokens ++ more)) (read depth) value (Spells more)

theorem Takes.flat {read : Nat → Reader α} {json : Json} {value : α} (bare : json.depth = 0)
    (reads : ∀ depth more,
      Reads True (Spells (json.tokens ++ more)) (read depth) value (Spells more)) :
    Takes read json value :=
  fun depth more => (reads depth more).congr (by simp [bare])

theorem Takes.map {read : Nat → Reader α} {json : Json} {value : α} (takes : Takes read json value)
    (change : α → β) : Takes (fun depth => change <$> read depth) json (change value) :=
  fun depth more => (takes depth more).map change

def Token.begins : Token → Bool
  | .closeList | .closeObject | .comma | .colon => false
  | _ => true

/-- A token with which a value begins is not taken for the end of a list, nor for `null` unless it
is. -/
theorem Token.Spelled.mark_of_begins {token : Token} {text : List Char}
    (spelled : token.Spelled text) (begins : token.begins = true) :
    token.mark ≠ Octet.closeList ∧ (token ≠ .null → token.mark ≠ Octet.letterN) := by
  have digits {octet : UInt8} (digit : Octet.isDigit octet = true) :
      octet ≠ Octet.closeList ∧ octet ≠ Octet.letterN := by
    have other := not_mem_punctuation digit
    simp only [punctuation, List.mem_cons, not_or] at other
    simp only [other, ne_eq, not_false_eq_true, and_self]
  cases spelled with
  | closeList | closeObject | comma | colon => cases begins
  | null => exact ⟨by decide, fun other => absurd rfl other⟩
  | boolean value => cases value <;> exact ⟨by decide, fun _ => by decide⟩
  | @natural value small =>
    have other := digits (isDigit_mark_natural value)
    exact ⟨other.1, fun _ => other.2⟩
  | numeral numeral =>
    rcases numeral.mark with minus | digit
    · rw [minus]
      exact ⟨by decide, fun _ => by decide⟩
    · exact ⟨(digits digit).1, fun _ => (digits digit).2⟩
  | openList | openObject | string | literal =>
    simp only [mark]
    exact ⟨by decide, fun _ => by decide⟩

def BeginsValue (tokens : List Token) : Prop :=
  ∃ first others, tokens = first :: others ∧ first.begins = true

theorem BeginsValue.ne_nil {tokens : List Token} (begins : BeginsValue tokens) : tokens ≠ [] := by
  obtain ⟨first, others, rfl, _⟩ := begins
  exact List.cons_ne_nil first others

theorem tokens_eq_cons (json : Json) : ∃ first others, json.tokens = first :: others ∧
    first.begins = true ∧ (first = .null → json = .null) := by
  cases json <;> exact ⟨_, _, rfl, rfl, by simp⟩

theorem beginsValue_tokens (json : Json) : BeginsValue json.tokens := by
  obtain ⟨first, others, tokens, begins, _⟩ := tokens_eq_cons json
  exact ⟨first, others, tokens, begins⟩

theorem Stands.spelled {token : Token} {others : List Token} {text : List Char}
    (stands : Stands token others text) : ∃ spelling, token.Spelled spelling := by
  obtain ⟨spelling, _, _, spelled, _⟩ := stands
  exact ⟨spelling, spelled⟩

namespace Reader

theorem reads_string {token : Token} {value : String} (quotes : token.Quotes value)
    (more : List Token) : Reads True (Spells (token :: more)) string value (Spells more) := by
  apply (reads_peekValue token more).seq
  rw [if_pos quotes.mark]
  exact (reads_quote quotes more).seq (reads_stringBody value more)

theorem takes_string (value : String) : Takes (fun _ => string) (.string value) value :=
  .flat rfl fun _ more => reads_string (.string value) more

theorem takes_octet (value : UInt8) : Takes (fun _ => octet) (.natural value.toNat) value := by
  refine .flat rfl fun _ more => (reads_peekValue (.number (.integer value.toNat)) more).seq ?_
  rw [isDigit_mark_natural, Bool.or_true, if_pos rfl]
  apply (reads_number (.integer value.toNat) more).seq
  have bounds : (0 : Int) ≤ value.toNat ∧ (value.toNat : Int) < 256 := by
    have := value.toNat_lt
    omega
  simp only [if_pos bounds]
  simpa using Reads.pure value

/-- What may be missing is looked at behind the white space in front of it. -/
theorem optional_eq {value : Reader α} {input rest : List UInt8} {octet : UInt8}
    (begins : input.dropWhile Octet.isBlank = octet :: rest) :
    optional value input =
      if octet = Octet.letterN then (do nullWord; pure none : Reader _) (octet :: rest)
      else (some <$> value) (octet :: rest) := by
  simp only [optional, begins]

theorem reads_none (reader : Reader α) (more : List Token) :
    Reads True (Spells (.null :: more)) (optional reader) none (Spells more) := by
  have word : Reads True (Stands .null more) (do nullWord; pure none) (none : Option α)
      (Spells more) := (reads_nullWord more).seq (.pure none)
  refine Reads.instead (fun text spells => ?_) word
  obtain ⟨stripped, white, stands⟩ := spells.dropWhile
  obtain ⟨octets, begins⟩ := stands.encode
  refine ⟨stripped, ?_, stands⟩
  rw [begins] at white ⊢
  exact (optional_eq white).trans (if_pos rfl)

theorem reads_some {fits : Prop} {reader : Reader α} {first : Token} {others : List Token}
    {value : α} {after : List Char → Prop} (begins : first.begins = true) (present : first ≠ .null)
    (reads : Reads fits (Spells (first :: others)) reader value after) :
    Reads fits (Spells (first :: others)) (optional reader) (some value) after := by
  refine Reads.instead (fun text spells => ?_) (reads.map some)
  obtain ⟨stripped, white, stands⟩ := spells.dropWhile
  obtain ⟨spelling, spelled⟩ := stands.spelled
  obtain ⟨octets, marked⟩ := stands.encode
  refine ⟨stripped, ?_, stands.spells⟩
  rw [marked] at white ⊢
  exact (optional_eq white).trans (if_neg ((spelled.mark_of_begins begins).2 present))

theorem takes_none (read : Nat → Reader α) :
    Takes (fun depth => optional (read depth)) .null none :=
  .flat rfl fun depth more => reads_none (read depth) more

theorem takes_some {read : Nat → Reader α} {json : Json} {value : α} (takes : Takes read json value)
    (present : json ≠ .null) : Takes (fun depth => optional (read depth)) json (some value) := by
  intro depth more
  have reads := takes depth more
  obtain ⟨first, others, tokens, begins, null⟩ := tokens_eq_cons json
  rw [tokens, List.cons_append] at reads ⊢
  exact reads_some begins (fun same => present (null same)) reads

theorem map_inside {β : Type} (read : Nat → α) (change : α → β) (depth : Nat) :
    (inside read depth).map change = inside (fun depth => change (read depth)) depth := by
  cases depth <;> rfl

theorem reads_thenClose {fits : Prop} {before between after : List Char → Prop} {value : α}
    {reader : Reader α} {close : Reader Unit} (reads : Reads fits before reader value between)
    (closes : Reads True between close () after) :
    Reads fits before (thenClose reader close) value after where
  ok shallow text has := by
    obtain ⟨middle, read, left⟩ := reads.ok shallow text has
    obtain ⟨rest, closed, behind⟩ := closes.ok trivial middle left
    refine ⟨rest, ?_, behind⟩
    simp only [thenClose, read, closed]
  tooDeep deep text has := by
    obtain ⟨failure, read, named⟩ := reads.tooDeep deep text has
    simp only [thenClose, read]
    split <;> exact ⟨_, rfl, named⟩

theorem reads_tooDeep {before after : List Char → Prop} (value : α) :
    Reads False before (failNext .tooDeep) value after :=
  ⟨False.elim, fun _ _ _ => ⟨_, rfl, rfl⟩⟩

theorem reads_between {fits : Prop} {opening closing : Token} {within others : List Token}
    {value : α} {reader : Reader α} {close : Reader Unit}
    (single : ∀ {text}, opening.Spelled text → text.length = 1)
    (closes : Reads True (Spells (closing :: others)) close () (Spells others))
    (reads : Reads fits (Spells within) reader value (Spells (closing :: others))) :
    Reads fits (Stands opening within) (bracketed close (some reader)) value (Spells others) :=
  (reads_advance within single).seq (reads_thenClose reads closes)

/-- A pair of brackets costs one level more than what stands between them. -/
theorem reads_bracketed {opening closing : Token} {within others : List Token} {value : α}
    {read : Nat → Reader α} {close : Reader Unit} {levels : Nat}
    (single : ∀ {text}, opening.Spelled text → text.length = 1)
    (closes : Reads True (Spells (closing :: others)) close () (Spells others))
    (reads : ∀ depth, Reads (levels ≤ depth) (Spells within) (read depth) value
      (Spells (closing :: others))) (depth : Nat) :
    Reads (levels + 1 ≤ depth) (Stands opening within) (bracketed close (inside read depth)) value
      (Spells others) := by
  cases depth with
  | zero => exact (reads_tooDeep value).congr (by simp)
  | succ depth => exact (reads_between single closes (reads depth)).congr (by simp)

theorem reads_closeList (others : List Token) :
    Reads True (Spells (.closeList :: others)) closeList () (Spells others) := by
  apply (reads_peekToken .endInList .closeList others).seq
  simp only [Token.mark, ↓reduceIte]
  exact reads_advance others (by rintro _ ⟨⟩; rfl)

theorem reads_closeObject (others : List Token) :
    Reads True (Spells (.closeObject :: others)) closeObject () (Spells others) := by
  apply (reads_peekToken .endInObject .closeObject others).seq
  simp only [Token.mark, ↓reduceIte]
  exact reads_advance others (by rintro _ ⟨⟩; rfl)

theorem reads_nextElement_end (atFirst : Bool) (others : List Token) :
    Reads True (Spells (.closeList :: others)) (nextElement atFirst) false
      (Spells (.closeList :: others)) := by
  apply (reads_peekToken .endInList .closeList others).seq
  simp only [Token.mark, ↓reduceIte]
  exact (Reads.pure false).leaves fun _ stands => stands.spells

theorem reads_nextElement (atFirst : Bool) {piece : List Token} (begins : BeginsValue piece)
    (more : List Token) :
    Reads True (Spells (separator atFirst ++ (piece ++ more))) (nextElement atFirst) true
      (Spells (piece ++ more)) := by
  obtain ⟨first, others, rfl, begins⟩ := begins
  have known (text : List Char) (stands : Stands first (others ++ more) text) :
      first.mark ≠ Octet.closeList := by
    obtain ⟨spelling, spelled⟩ := stands.spelled
    exact (spelled.mark_of_begins begins).1
  rw [List.cons_append]
  cases atFirst with
  | true =>
    refine (reads_peekToken .endInList first (others ++ more)).seq (.assume known fun other => ?_)
    rw [if_neg other]
    exact (Reads.pure true).leaves fun _ stands => stands.spells
  | false =>
    apply (reads_peekToken .endInList .comma _).seq
    simp only [Token.mark, ↓reduceIte]
    apply (reads_advance _ (by rintro _ ⟨⟩; rfl)).seq
    refine (reads_peekValue first (others ++ more)).seq (.assume known fun other => ?_)
    rw [if_neg other]
    exact (Reads.pure true).leaves fun _ stands => stands.spells

section Elements

variable {ι : Type} {tokens : ι → List Token} {fits : ι → Prop} {element : Reader α}
  {items : List ι} {values : List α}

structure ReadsItem (tokens : ι → List Token) (fits : ι → Prop) (element : Reader α) (item : ι)
    (value : α) : Prop where
  begins : BeginsValue (tokens item)
  reads (more : List Token) :
    Reads (fits item) (Spells (tokens item ++ more)) element value (Spells more)

theorem reads_elementsUpTo (each : List.Forall₂ (ReadsItem tokens fits element) items values)
    (others : List Token) :
    ∀ bound atFirst, items.length < bound →
      Reads (∀ item ∈ items, fits item)
        (Spells (joined atFirst (items.map tokens) ++ .closeList :: others))
        (elementsUpTo element bound atFirst) values (Spells (.closeList :: others)) := by
  induction each with
  | nil =>
    intro bound atFirst enough
    cases bound with
    | zero => exact absurd enough (Nat.not_lt_zero _)
    | succ bound =>
      refine Reads.congr ?_ (iff_of_true trivial (List.forall_mem_nil _))
      exact (reads_nextElement_end atFirst others).seq (.pure [])
  | @cons item value items values first _ ih =>
    intro bound atFirst enough
    cases bound with
    | zero => exact absurd enough (Nat.not_lt_zero _)
    | succ bound =>
      have later := ih bound false (Nat.lt_of_succ_lt_succ enough)
      simp only [List.map_cons, joined, List.append_assoc, elementsUpTo]
      apply (reads_nextElement atFirst first.begins _).seq
      exact ((first.reads _).bind (later.seqFlat (.pure (value :: values)))).congr
        List.forall_mem_cons.symm

theorem reads_elements (each : List.Forall₂ (ReadsItem tokens fits element) items values)
    (others : List Token) :
    Reads (∀ item ∈ items, fits item)
      (Spells (joined true (items.map tokens) ++ .closeList :: others)) (elements element) values
      (Spells (.closeList :: others)) := by
  apply Reads.bounded fun bound enough => reads_elementsUpTo each others bound true enough
  intro text spells
  have octets := spells.length_le
  have some : ∀ item ∈ items, tokens item ≠ [] :=
    (List.forall₂_and_left _ _ |>.mp (each.imp fun _ _ item => ⟨item.begins.ne_nil, item⟩)).1
  have pieces := length_le_joined true (List.forall_mem_map.mpr some)
  rw [List.length_append] at octets
  rw [List.length_map] at pieces
  omega

end Elements

theorem reads_listed {element : Nat → Reader α} {items : List Json} {values : List α}
    (each : List.Forall₂ (Takes element) items values) (depth : Nat) (others : List Token) :
    Reads ((array items).depth ≤ depth)
      (Stands .openList (itemTokens true items ++ .closeList :: others))
      (bracketed closeList ((inside element depth).map elements)) values (Spells others) := by
  have inner (depth : Nat) : Reads (itemsDepth items ≤ depth)
      (Spells (itemTokens true items ++ .closeList :: others)) (elements (element depth)) values
      (Spells (.closeList :: others)) := by
    rw [itemTokens_eq]
    refine (reads_elements (each.imp fun item value takes => ?_) others).congr
      (itemsDepth_le_iff items depth).symm
    exact ⟨beginsValue_tokens item, takes depth⟩
  rw [map_inside]
  exact reads_bracketed (by rintro _ ⟨⟩; rfl) (reads_closeList others) inner depth

theorem takes_sequence {element : Nat → Reader α} {items : List Json} {values : List α}
    (each : List.Forall₂ (Takes element) items values) :
    Takes (fun depth => sequence (inside element depth)) (.array items) values := by
  intro depth more
  rw [tokens_array_append]
  exact (reads_peekValue .openList _).seq (reads_listed each depth more)

theorem reads_nextMember_end (atFirst : Bool) (others : List Token) :
    Reads True (Spells (.closeObject :: others)) (nextMember atFirst) false
      (Spells (.closeObject :: others)) := by
  apply (reads_peekToken .endInObject .closeObject others).seq
  simp only [Token.mark, ↓reduceIte]
  exact (Reads.pure false).leaves fun _ stands => stands.spells

theorem reads_nextMember (atFirst : Bool) {label : Token} {name : String}
    (quotes : label.Quotes name) (more : List Token) :
    Reads True (Spells (separator atFirst ++ label :: more)) (nextMember atFirst) true
      (Stands label more) := by
  cases atFirst with
  | true =>
    apply (reads_peekToken .endInObject label more).seq
    rw [quotes.mark]
    exact .pure true
  | false =>
    apply (reads_peekToken .endInObject .comma _).seq
    simp only [Token.mark, ↓reduceIte]
    apply (reads_advance _ (by rintro _ ⟨⟩; rfl)).seq
    apply (reads_peekValue label more).seq
    rw [if_pos quotes.mark]
    exact .pure true

theorem reads_keptMembersUpTo {read : Nat → Reader Json} {members : List (String × Json)}
    (each : ∀ member ∈ members, Takes read member.2 member.2) (depth : Nat) (others : List Token) :
    ∀ bound atFirst, members.length < bound →
      Reads (membersDepth members ≤ depth)
        (Spells (memberTokens atFirst members ++ .closeObject :: others))
        (keptMembersUpTo (read depth) bound atFirst) members (Spells (.closeObject :: others)) := by
  induction members with
  | nil =>
    intro bound atFirst enough
    cases bound with
    | zero => exact absurd enough (Nat.not_lt_zero _)
    | succ bound =>
      refine Reads.congr ?_ (iff_of_true trivial (Nat.zero_le depth))
      exact (reads_nextMember_end atFirst others).seq (.pure [])
  | cons member members ih =>
    intro bound atFirst enough
    obtain ⟨name, value⟩ := member
    cases bound with
    | zero => exact absurd enough (Nat.not_lt_zero _)
    | succ bound =>
      have later := ih (fun member among => each member (List.mem_cons_of_mem _ among)) bound false
        (Nat.lt_of_succ_lt_succ enough)
      have held := each (name, value) List.mem_cons_self depth
        (memberTokens false members ++ .closeObject :: others)
      simp only [memberTokens, List.append_assoc, List.cons_append, keptMembersUpTo]
      apply (reads_nextMember atFirst (.string name) _).seq
      refine (reads_quote (.string name) _).seq
        ((reads_stringBody name _).seq ((reads_colon _).seq ?_))
      exact (held.bind (later.seqFlat (.pure ((name, value) :: members)))).congr
        (membersDepth_cons_le_iff name value members depth).symm

theorem reads_keptMembers {read : Nat → Reader Json} {members : List (String × Json)}
    (each : ∀ member ∈ members, Takes read member.2 member.2) (depth : Nat) (others : List Token) :
    Reads (membersDepth members ≤ depth)
      (Spells (memberTokens true members ++ .closeObject :: others)) (keptMembers (read depth))
      members (Spells (.closeObject :: others)) := by
  apply Reads.bounded fun bound enough =>
    reads_keptMembersUpTo each depth others bound true enough
  intro text spells
  have octets := spells.length_le
  have some : ∀ member ∈ members, memberPiece member ≠ [] := fun _ _ => List.cons_ne_nil _ _
  have pieces := length_le_joined true (List.forall_mem_map.mpr some)
  rw [memberTokens_eq, List.length_append] at octets
  rw [List.length_map] at pieces
  omega

theorem any_eq (depth : Nat) : any depth = anyWith (inside any depth) := by
  cases depth <;> rfl

theorem takes_any {json : Json} (exact : json.Exact) : Takes any json json := by
  induction exact with
  | null =>
    apply Takes.flat rfl
    intro depth more
    rw [any_eq]
    exact (reads_peekValue .null more).seq ((reads_nullWord more).seq (.pure _))
  | boolean value =>
    apply Takes.flat rfl
    intro depth more
    rw [any_eq]
    cases value with
    | true => exact (reads_peekValue (.boolean true) more).seq ((reads_trueWord more).seq (.pure _))
    | false =>
      exact (reads_peekValue (.boolean false) more).seq ((reads_falseWord more).seq (.pure _))
  | @natural value small =>
    apply Takes.flat rfl
    intro depth more
    rw [any_eq]
    apply (reads_peekValue (.number (.integer value)) more).seq
    have digit := isDigit_mark_natural value
    have other := not_mem_punctuation digit
    simp only [punctuation, List.mem_cons, not_or] at other
    simp only [other, digit, Bool.or_true, ↓reduceIte]
    exact (reads_number (.integer value) more).map Json.number
  | string value =>
    apply Takes.flat rfl
    intro depth more
    rw [any_eq]
    apply (reads_peekValue (.string value) more).seq
    exact (reads_quote (.string value) more).seq ((reads_stringBody value more).map Json.string)
  | @array items inside ih =>
    intro depth more
    rw [tokens_array_append, any_eq]
    apply (reads_peekValue .openList _).seq
    exact (reads_listed (List.forall₂_same.mpr ih) depth more).map Json.array
  | @object members inside ih =>
    intro depth more
    rw [tokens_object_append, any_eq]
    refine (reads_peekValue .openObject _).seq (Reads.map Json.object ?_)
    rw [map_inside]
    exact reads_bracketed (by rintro _ ⟨⟩; rfl) (reads_closeObject more)
      (fun depth => reads_keptMembers ih depth more) depth

def Variants.Names {τ : Type} (variants : Variants τ α) (tag : τ) : Prop :=
  variants.tags.find? (variants.name · = variants.name tag) = some tag

theorem Variants.Names.reads {τ : Type} {variants : Variants τ α} {tag : τ}
    (names : variants.Names tag) (state : List Char → Prop) :
    Reads True state (variants.tag (variants.name tag)) tag state := by
  rw [Variants.tag, names]
  exact .pure tag

theorem reads_closeVariant (others : List Token) :
    Reads True (Spells (.closeObject :: others)) closeVariant () (Spells others) := by
  apply Reads.flat
  intro text spells
  obtain ⟨stripped, white, spelling, rest, rfl, spelled, _, later⟩ := spells.dropWhile
  refine ⟨rest, ?_, later⟩
  cases spelled
  have skipped : skipBlanks (encode text) = .ok ((), encode ('}' :: rest)) := by
    rw [skipBlanks, white]
    rfl
  exact bind_ok skipped

theorem reads_bare {τ : Type} {variants : Variants τ α} {tag : τ} {value : α} {label : Token}
    (names : variants.Names tag) (quotes : label.Quotes (variants.name tag))
    (bare : variants.bare tag = .ok value) (payload : Option (τ → Reader α)) (more : List Token) :
    Reads True (Spells (label :: more)) (choice variants payload) value (Spells more) := by
  apply (reads_peekValue label more).seq
  rw [if_pos quotes.mark]
  refine (reads_quote quotes more).seq ((reads_stringBody _ more).seq ((names.reads _).seq ?_))
  rw [bare]
  exact .pure value

theorem takes_choice_bare {τ : Type} {variants : Variants τ α} {tag : τ} {value : α}
    (names : variants.Names tag) (bare : variants.bare tag = .ok value)
    (payload : Nat → τ → Reader α) :
    Takes (fun depth => choice variants (inside payload depth)) (.string (variants.name tag))
      value :=
  .flat rfl fun _ more => reads_bare names (.string _) bare _ more

theorem reads_variant {τ : Type} {variants : Variants τ α} {tag : τ} {label : Token}
    {piece : List Token} {value : α} {expected : String} {payload : τ → Reader α} {fits : Prop}
    (names : variants.Names tag) (quotes : label.Quotes (variants.name tag))
    (holds : variants.bare tag = .error expected)
    (reads : ∀ more, Reads fits (Spells (piece ++ more)) (payload tag) value (Spells more))
    (more : List Token) :
    Reads fits (Spells (.openObject :: label :: .colon :: (piece ++ .closeObject :: more)))
      (choice variants (some payload)) value (Spells more) := by
  have inner : Reads fits (Spells (label :: .colon :: (piece ++ .closeObject :: more)))
      (variant variants payload) value (Spells (.closeObject :: more)) := by
    apply (reads_peekToken .endInObject label _).seq
    rw [if_pos quotes.mark]
    refine (reads_quote quotes _).seq ((reads_stringBody _ _).seq ((names.reads _).seq ?_))
    apply (reads_colon _).seq
    rw [holds]
    exact reads (.closeObject :: more)
  have other : Token.openObject.mark ≠ Octet.quote := by decide
  apply (reads_peekValue .openObject _).seq
  rw [if_neg other, if_pos (by rfl)]
  apply (reads_advance _ (by rintro _ ⟨⟩; rfl)).seq
  exact inner.seqFlat ((reads_closeVariant more).seq (.pure value))

theorem takes_choice_payload {τ : Type} {variants : Variants τ α} {tag : τ} {json : Json}
    {value : α} {expected : String} {payload : Nat → τ → Reader α} (names : variants.Names tag)
    (holds : variants.bare tag = .error expected)
    (takes : Takes (fun depth => payload depth tag) json value) :
    Takes (fun depth => choice variants (inside payload depth))
      (.object [(variants.name tag, json)]) value := by
  intro depth more
  rw [tokens_object_append]
  simp only [memberTokens, separator, ↓reduceIte, List.nil_append, List.append_nil,
    List.cons_append, depth_single]
  cases depth with
  | zero =>
    have other : Token.openObject.mark ≠ Octet.quote := by decide
    apply (reads_peekValue .openObject _).seq
    rw [if_neg other, if_pos (by rfl)]
    exact (reads_tooDeep value).congr (by simp)
  | succ depth =>
    exact (reads_variant names (.string _) holds (takes depth) more).congr Nat.succ_le_succ_iff.symm

end Reader

end PermissionSchema.Json
