import PermissionSchema.Proofs.Json.Source
/-!
Passing over values: whatever a source holds, and however deep it nests, a reader that nobody told
what to make of it goes to its end.
-/
namespace PermissionSchema.Json

open PermissionSchema.Text.Utf8

variable {α : Type}

theorem WholeText.digitsText {text : List Char} (whole : WholeText text) : DigitsText text := by
  refine ⟨?_, whole.isDigit⟩
  cases whole <;> exact List.cons_ne_nil _ _

theorem DigitsText.head {text : List Char} (digits : DigitsText text) (rest : List UInt8) :
    ∀ octet ∈ (encode text ++ rest).head?, Octet.isDigit octet = true := by
  obtain ⟨c, more, rfl⟩ := List.exists_cons_of_ne_nil digits.some
  have single := digits.all c List.mem_cons_self
  rw [encode_cons_small (toNat_of_isDigit single)]
  rintro octet ⟨⟩
  exact isDigit_ofNat single

namespace Reader

def StopsBehind (reader : Reader α) (text : List Char) (rest : List UInt8) : Prop :=
  ∃ value, reader (encode text ++ rest) = .ok (value, rest)

theorem minusSign_stops {sign : List Char} (signs : sign ∈ [[], ['-']]) {rest : List UInt8}
    (digit : ∀ octet ∈ rest.head?, Octet.isDigit octet = true) :
    StopsBehind minusSign sign rest := by
  simp only [List.mem_cons, List.not_mem_nil, or_false] at signs
  rcases signs with rfl | rfl
  · cases rest with
    | nil => exact ⟨false, rfl⟩
    | cons octet rest =>
      have other := not_mem_punctuation (digit octet rfl)
      simp only [punctuation, List.mem_cons, not_or] at other
      exact ⟨false, by simp [encode, minusSign, other]⟩
  · exact ⟨true, rfl⟩

theorem fractionPart_stops {text : List Char} (fraction : FractionText text) {rest : List UInt8}
    (ends : NoDigit rest) (apart : ∀ octet ∈ rest.head?, octet ≠ Octet.point) (atEnd : Fault) :
    StopsBehind (fractionPart atEnd) text rest := by
  cases fraction with
  | none =>
    refine ⟨.none, ?_⟩
    cases rest with
    | nil => rfl
    | cons octet rest => simp [encode, fractionPart, apart octet rfl]
  | @point text digits =>
    obtain ⟨some, all⟩ := digits
    have read := digits_append all ends
    obtain ⟨c, more, rfl⟩ := List.exists_cons_of_ne_nil some
    have single := all c List.mem_cons_self
    refine ⟨.some ((c :: more).map fun c => c.toNat - 0x30), ?_⟩
    rw [encode_cons_small (toNat_of_isDigit single)] at read
    rw [encode_cons_small (by decide), encode_cons_small (toNat_of_isDigit single)]
    simp only [List.cons_append, fractionPart, isDigit_ofNat single, ↓reduceIte] at read ⊢
    rw [if_pos (by decide), map_eq_pure_bind, bind_ok read]
    rfl

theorem exponentSign_stops {sign : List Char} (signs : sign ∈ [[], ['+'], ['-']])
    {rest : List UInt8} (digit : ∀ octet ∈ rest.head?, Octet.isDigit octet = true) :
    StopsBehind exponentSign sign rest := by
  simp only [List.mem_cons, List.not_mem_nil, or_false] at signs
  rcases signs with rfl | rfl | rfl
  · cases rest with
    | nil => exact ⟨false, rfl⟩
    | cons octet rest =>
      have plus : octet ≠ Octet.plus := by
        rintro rfl
        exact absurd (digit _ rfl) (by decide)
      have minus : octet ≠ Octet.minus := by
        rintro rfl
        exact absurd (digit _ rfl) (by decide)
      exact ⟨false, by simp [encode, exponentSign, plus, minus]⟩
  · exact ⟨false, rfl⟩
  · exact ⟨true, rfl⟩

theorem exponentPart_stops {text : List Char} (exponent : ExponentText text) {rest : List UInt8}
    (stops : Stops rest) (atEnd : Fault) : StopsBehind (exponentPart atEnd) text rest := by
  cases exponent with
  | none => exact ⟨.none, exponentPart_of_stops stops atEnd⟩
  | @power mark sign text marks signs digits =>
    obtain ⟨negative, signed⟩ := exponentSign_stops signs (digits.head rest)
    have marked : exponentPart atEnd (encode (mark :: (sign ++ text)) ++ rest) =
        (do
          let negative ← exponentSign
          let first ← digit atEnd
          let more ← Reader.digits
          pure (.some (negative, first :: more)) : Reader _)
        (encode sign ++ (encode text ++ rest)) := by
      simp only [List.mem_cons, List.not_mem_nil, or_false] at marks
      rw [← List.append_assoc, ← encode_append]
      rcases marks with rfl | rfl <;> rfl
    rw [StopsBehind, marked, bind_ok signed]
    obtain ⟨some, all⟩ := digits
    obtain ⟨c, more, rfl⟩ := List.exists_cons_of_ne_nil some
    have single := all c List.mem_cons_self
    have later := digits_append (fun other among => all other (List.mem_cons_of_mem _ among))
      stops.noDigit
    refine ⟨.some (negative, (c.toNat - 0x30) :: more.map fun c => c.toNat - 0x30), ?_⟩
    rw [encode_cons_small (toNat_of_isDigit single), List.cons_append,
      bind_ok (digit_cons single _ atEnd), bind_ok later]
    rfl

theorem numeral_stops {text : List Char} (numeral : NumeralText text) {rest : List UInt8}
    (stops : Stops rest) (atEnd : Fault) : StopsBehind (Reader.numeral atEnd) text rest := by
  obtain ⟨signs, before, behind, power⟩ := numeral
  rename_i sign whole fraction exponent
  obtain ⟨last, raised⟩ := exponentPart_stops power stops atEnd
  have noPoint : ∀ octet ∈ (encode exponent ++ rest).head?,
      Octet.isDigit octet = false ∧ octet ≠ Octet.point := by
    cases power with
    | none => exact fun octet first => ⟨(stops octet first).1, (stops octet first).2.1⟩
    | power marks _ _ =>
      simp only [List.mem_cons, List.not_mem_nil, or_false] at marks
      rcases marks with rfl | rfl <;> rintro octet ⟨⟩ <;> decide
  obtain ⟨decimals, pointed⟩ := fractionPart_stops behind
    (fun octet first => (noPoint octet first).1) (fun octet first => (noPoint octet first).2) atEnd
  have noDigit : NoDigit (encode fraction ++ (encode exponent ++ rest)) := by
    cases behind with
    | none => exact fun octet first => (noPoint octet first).1
    | point _ => rintro octet ⟨⟩; decide
  have led := wholePart_wholeText before noDigit atEnd
  obtain ⟨negative, signed⟩ := minusSign_stops signs
    (before.digitsText.head (encode fraction ++ (encode exponent ++ rest)))
  refine ⟨⟨negative, whole.map fun c => c.toNat - 0x30, decimals, last⟩, ?_⟩
  simp only [encode_append, List.append_assoc]
  rw [Reader.numeral, bind_ok signed, bind_ok led, bind_ok pointed, bind_ok raised]
  rfl

def Passes (input after : List UInt8) : Prop :=
  ∀ bound, input.length < bound → skipOctets bound input = .ok ((), after)

theorem passes_quote (rest : List UInt8) : Passes (Octet.quote :: rest) rest := by
  intro bound enough
  cases bound with
  | zero => exact absurd enough (Nat.not_lt_zero _)
  | succ bound => rw [skipOctets, if_pos rfl]

theorem Passes.plain {input after : List UInt8} (passes : Passes input after) (first : List UInt8)
    (bare : ∀ octet ∈ first, octet ≠ Octet.quote ∧ octet ≠ Octet.backslash ∧ ¬octet < 0x20) :
    Passes (first ++ input) after := by
  induction first with
  | nil => exact passes
  | cons octet first ih =>
    intro bound enough
    obtain ⟨quote, backslash, visible⟩ := bare octet List.mem_cons_self
    have later := ih fun other among => bare other (List.mem_cons_of_mem _ among)
    cases bound with
    | zero => exact absurd enough (Nat.not_lt_zero _)
    | succ bound =>
      rw [List.cons_append, skipOctets, if_neg quote, if_neg backslash, if_neg visible]
      exact later bound (Nat.lt_of_succ_lt_succ enough)

theorem Passes.escape {text rest : List Char} {after : List UInt8}
    (passes : Passes (encode rest) after)
    (escaped : skipEscape (encode (text ++ rest)) = .ok ((), encode rest)) :
    Passes (encode ('\\' :: text ++ rest)) after := by
  intro bound enough
  change (Octet.backslash :: encode (text ++ rest)).length < bound at enough
  change skipOctets bound (Octet.backslash :: encode (text ++ rest)) = _
  cases bound with
  | zero => exact absurd enough (Nat.not_lt_zero _)
  | succ bound =>
    rw [skipOctets, if_neg (by decide), if_pos rfl, bind_ok escaped]
    apply passes bound
    simp only [List.length_cons, encode_append, List.length_append] at enough
    omega

theorem skipEscape_letter {letter c : Char} (stands : (letter, c) ∈ letterEscapes)
    (rest : List Char) : skipEscape (encode (letter :: rest)) = .ok ((), encode rest) := by
  simp only [letterEscapes, List.mem_cons, Prod.mk.injEq, List.not_mem_nil, or_false] at stands
  rcases stands with same | same | same | same | same | same | same | same <;>
    obtain ⟨rfl, rfl⟩ := same <;> rfl

theorem skipEscape_code {digits : List Char} {value : Nat} (code : HexCode digits value)
    (rest : List Char) : skipEscape (encode ('u' :: digits ++ rest)) = .ok ((), encode rest) := by
  have unlettered : escapedOctet? Octet.letterU = none := by decide
  rw [List.cons_append, encode_cons_small (by decide)]
  change skipEscape (Octet.letterU :: encode (digits ++ rest)) = _
  simp only [skipEscape, unlettered, ↓reduceIte]
  rw [bind_ok (fourHex_hexCode code rest)]
  rfl

/-- Codes need not make characters to be passed over. -/
theorem passes_literalText {body : List Char} (literal : LiteralText body) (rest : List Char) :
    Passes (encode (body ++ '"' :: rest)) (encode rest) := by
  induction literal with
  | empty => exact passes_quote (encode rest)
  | plain quote backslash visible _ ih =>
    rw [List.cons_append, encode_cons]
    exact ih.plain _ (bare_of_plain quote backslash visible)
  | @letter letter _ rest' stands _ ih =>
    have read : skipEscape (encode ([letter] ++ (rest' ++ '"' :: rest))) =
        .ok ((), encode (rest' ++ '"' :: rest)) := skipEscape_letter stands _
    exact ih.escape read
  | code code _ ih =>
    rw [List.cons_append, List.cons_append, List.append_assoc]
    exact ih.escape (skipEscape_code code _)

theorem reads_skipStringBody (body : List Char) (others : List Token) :
    Reads True (Stands (.literal body) others) (do advance; skipStringBody) () (Spells others) := by
  apply Reads.flat
  intro text stands
  obtain ⟨spelling, rest, rfl, spelled, _, later⟩ := stands
  cases spelled with
  | literal literal =>
    have opened : advance (encode ('"' :: body ++ ['"'] ++ rest)) =
        .ok ((), encode (body ++ '"' :: rest)) := by
      rw [List.append_assoc]
      rfl
    refine ⟨rest, ?_, later⟩
    rw [bind_ok opened]
    exact passes_literalText literal rest _ (Nat.lt_succ_self _)

theorem reads_skipKey (name : List Char) (others : List Token) :
    Reads True (Spells (.literal name :: others)) skipKey () (Spells others) := by
  apply (reads_peekToken .endInObject (.literal name) others).seq
  rw [if_pos (by rfl)]
  exact reads_skipStringBody name others

theorem reads_skipNumeral (text : List Char) (others : List Token) :
    Reads True (Stands (.numeral text) others) (do let _ ← numeral .badNumber) ()
      (Spells others) := by
  apply Reads.flat
  intro input stands
  obtain ⟨spelling, rest, rfl, spelled, ends, later⟩ := stands
  cases spelled with
  | numeral numeral =>
    obtain ⟨value, read⟩ := numeral_stops numeral (stops_encode ends) .badNumber
    rw [← encode_append] at read
    exact ⟨rest, bind_ok read, later⟩

theorem mark_of_stands_numeral {text input : List Char} {others : List Token}
    (stands : Stands (.numeral text) others input) :
    (Token.numeral text).mark ∉ [Octet.letterN, Octet.letterT, Octet.letterF] ∧
      ((Token.numeral text).mark = Octet.minus || Octet.isDigit (Token.numeral text).mark) =
        true := by
  obtain ⟨spelling, spelled⟩ := stands.spelled
  cases spelled with
  | numeral numeral =>
    rcases numeral.mark with minus | digit
    · rw [minus]
      decide
    · have other := not_mem_punctuation digit
      simp only [punctuation, List.mem_cons, not_or] at other
      simp [other, digit]

-- The recursion is on the source. The bound falls with every value, item and member, and each of
-- them has a token at least.
mutual

/-- A bound of as many tokens as a source has is enough to pass over it. -/
theorem reads_skipWithin (more : List Token) : (source : Source) → ∀ bound,
    source.tokens.length ≤ bound →
      Reads True (Spells (source.tokens ++ more)) (skipWithin bound) () (Spells more)
  | source, 0, enough => by
    have some := List.length_pos_iff.mpr source.beginsValue_tokens.ne_nil
    exact absurd enough (Nat.not_le_of_lt some)
  | .null, bound + 1, _ => (reads_peekToken .endInValue .null more).seq (reads_nullWord more)
  | .boolean true, bound + 1, _ =>
    (reads_peekToken .endInValue (.boolean true) more).seq (reads_trueWord more)
  | .boolean false, bound + 1, _ =>
    (reads_peekToken .endInValue (.boolean false) more).seq (reads_falseWord more)
  | .numeral text, bound + 1, _ => by
    apply (reads_peekToken .endInValue (.numeral text) more).seq
    refine Reads.assume (fun _ stands => mark_of_stands_numeral stands) fun ⟨other, numeral⟩ => ?_
    simp only [List.mem_cons, List.not_mem_nil, or_false, not_or] at other
    rw [if_neg other.1, if_neg other.2.1, if_neg other.2.2, if_pos numeral]
    exact reads_skipNumeral text more
  | .string body, bound + 1, _ =>
    (reads_peekToken .endInValue (.literal body) more).seq (reads_skipStringBody body more)
  | .array items, bound + 1, enough => by
    rw [Source.tokens, List.cons_append, List.append_assoc, List.singleton_append]
    apply (reads_peekToken .endInValue .openList _).seq
    refine (reads_advance _ (by rintro _ ⟨⟩; rfl)).seq ?_
    apply reads_skipItems more items
    simp only [Source.tokens, List.length_cons, List.length_append, List.length_nil] at enough
    omega
  | .object members, bound + 1, enough => by
    rw [Source.tokens, List.cons_append, List.append_assoc, List.singleton_append]
    apply (reads_peekToken .endInValue .openObject _).seq
    refine (reads_advance _ (by rintro _ ⟨⟩; rfl)).seq ?_
    apply reads_skipMembers more members
    simp only [Source.tokens, List.length_cons, List.length_append, List.length_nil] at enough
    omega

theorem reads_skipItems (more : List Token) : (items : List Source) → ∀ bound atFirst,
    (joined atFirst (Source.itemPieces items)).length < bound →
      Reads True (Spells (joined atFirst (Source.itemPieces items) ++ .closeList :: more))
        (skipItems bound atFirst) () (Spells more)
  | _, 0, _, enough => absurd enough (Nat.not_lt_zero _)
  | [], bound + 1, atFirst, _ => by
    apply (reads_peekToken .endInList .closeList more).seq
    rw [if_pos (by rfl)]
    exact reads_advance more (by rintro _ ⟨⟩; rfl)
  | item :: rest, bound + 1, atFirst, enough => by
    obtain ⟨first, others, tokens, begins, _⟩ := item.tokens_eq_cons
    have within := reads_skipWithin (joined false (Source.itemPieces rest) ++ .closeList :: more)
      item bound
    have behind := reads_skipItems more rest bound false
    simp only [Source.itemPieces, joined, List.length_append, List.append_assoc] at enough ⊢
    rw [tokens] at within enough ⊢
    rw [List.length_cons] at within enough
    have inner : Reads True
        (Spells (first :: others ++ (joined false (Source.itemPieces rest) ++ .closeList :: more)))
        (do skipWithin bound; skipItems bound false) () (Spells more) :=
      (within (by omega)).seq (behind (by omega))
    cases atFirst with
    | true =>
      apply (reads_peekToken .endInList first _).seq
      refine .assume (fun _ stands => stands.spelled) fun ⟨_, spelled⟩ => ?_
      rw [if_neg (spelled.mark_of_begins begins).1, if_pos rfl]
      exact inner.given fun _ stands => stands.spells
    | false =>
      apply (reads_peekToken .endInList .comma _).seq
      rw [if_neg (by decide), if_neg (by decide), if_pos (by rfl)]
      exact (reads_advance _ (by rintro _ ⟨⟩; rfl)).seq inner

theorem reads_skipMembers (more : List Token) : (members : List (List Char × Source)) →
    ∀ bound atFirst, (joined atFirst (Source.memberPieces members)).length < bound →
      Reads True (Spells (joined atFirst (Source.memberPieces members) ++ .closeObject :: more))
        (skipMembers bound atFirst) () (Spells more)
  | _, 0, _, enough => absurd enough (Nat.not_lt_zero _)
  | [], bound + 1, atFirst, _ => by
    apply (reads_peekToken .endInObject .closeObject more).seq
    rw [if_pos (by rfl)]
    exact reads_advance more (by rintro _ ⟨⟩; rfl)
  | (name, value) :: rest, bound + 1, atFirst, enough => by
    have within := reads_skipWithin
      (joined false (Source.memberPieces rest) ++ .closeObject :: more) value bound
    have behind := reads_skipMembers more rest bound false
    simp only [Source.memberPieces, joined, List.length_append, List.length_cons,
      List.append_assoc, List.cons_append] at enough ⊢
    have inner : Reads True
        (Spells (.literal name :: .colon :: (value.tokens ++
          (joined false (Source.memberPieces rest) ++ .closeObject :: more))))
        (do skipKey; colon; skipWithin bound; skipMembers bound false) () (Spells more) :=
      (reads_skipKey name _).seq
        ((reads_colon _).seq ((within (by omega)).seq (behind (by omega))))
    cases atFirst with
    | true =>
      apply (reads_peekToken .endInObject (.literal name) _).seq
      exact inner.given fun _ stands => stands.spells
    | false =>
      apply (reads_peekToken .endInObject .comma _).seq
      exact (reads_advance _ (by rintro _ ⟨⟩; rfl)).seq inner

end

theorem reads_skipValue (source : Source) (more : List Token) :
    Reads True (Spells (source.tokens ++ more)) skipValue () (Spells more) := by
  refine .flat fun text spells => ?_
  have octets := spells.length_le
  rw [List.length_append] at octets
  exact (reads_skipWithin more source _ (by omega)).ok trivial text spells

end Reader

end PermissionSchema.Json
