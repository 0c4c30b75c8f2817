import PermissionSchema.Json.Brackets
import PermissionSchema.Proofs.Json.Spelling
import PermissionSchema.Proofs.Text.Utf8
/-!
What a reader does with all texts of a kind, as triples: which texts it is given, what it reads in
them, and which texts it leaves. A triple also tells when the brackets of the texts fit the depth
that the reader was given; the reader refuses them for their depth if they do not.
-/
namespace PermissionSchema.Json

open PermissionSchema.Text.Utf8

variable {α β : Type}

/-- A reader in front of any text `before` reads `value` and leaves a text `after` it, if the
brackets fit. If they do not, the reader says that they nest too deep. -/
structure Reads (fits : Prop) (before : List Char → Prop) (reader : Reader α) (value : α)
    (after : List Char → Prop) : Prop where
  ok (shallow : fits) (text : List Char) (given : before text) :
    ∃ rest, reader (encode text) = .ok (value, encode rest) ∧ after rest
  tooDeep (deep : ¬fits) (text : List Char) (given : before text) :
    ∃ failure, reader (encode text) = .error failure ∧ failure.fault = .tooDeep

namespace Reader

theorem bind_ok {reader : Reader α} {next : α → Reader β} {input rest : List UInt8} {value : α}
    (first : reader input = .ok (value, rest)) : (reader >>= next) input = next value rest := by
  simp only [bind, StateT.bind, first, Except.bind]

theorem bind_error {reader : Reader α} {next : α → Reader β} {input : List UInt8}
    {failure : Failure} (first : reader input = .error failure) :
    (reader >>= next) input = .error failure := by
  simp only [bind, StateT.bind, first, Except.bind]

theorem letters_append (word rest : List UInt8) : letters word (word ++ rest) = .ok ((), rest) := by
  induction word with
  | nil => cases rest <;> rfl
  | cons letter more ih => rw [List.cons_append, letters, if_pos rfl, ih]

end Reader

namespace Reads

variable {fits first second : Prop} {before between after : List Char → Prop}

theorem flat {reader : Reader α} {value : α}
    (ok : ∀ text, before text →
      ∃ rest, reader (encode text) = .ok (value, encode rest) ∧ after rest) :
    Reads True before reader value after :=
  ⟨fun _ => ok, fun deep => absurd trivial deep⟩

theorem congr {reader : Reader α} {value : α} (reads : Reads first before reader value after)
    (same : first ↔ second) : Reads second before reader value after :=
  propext same ▸ reads

theorem given {reader : Reader α} {value : α} {stronger : List Char → Prop}
    (reads : Reads fits before reader value after) (stands : ∀ text, stronger text → before text) :
    Reads fits stronger reader value after :=
  ⟨fun shallow text has => reads.ok shallow text (stands text has),
    fun deep text has => reads.tooDeep deep text (stands text has)⟩

theorem leaves {reader : Reader α} {value : α} {weaker : List Char → Prop}
    (reads : Reads fits before reader value after) (stands : ∀ text, after text → weaker text) :
    Reads fits before reader value weaker where
  ok shallow text has := by
    obtain ⟨rest, read, left⟩ := reads.ok shallow text has
    exact ⟨rest, read, stands rest left⟩
  tooDeep := reads.tooDeep

/-- What is known of all the texts may be used of the reader. -/
theorem assume {reader : Reader α} {value : α} {known : Prop}
    (holds : ∀ text, before text → known)
    (reads : known → Reads fits before reader value after) : Reads fits before reader value after :=
  ⟨fun shallow text has => (reads (holds text has)).ok shallow text has,
    fun deep text has => (reads (holds text has)).tooDeep deep text has⟩

/-- A reader may do what another does in front of other texts. -/
theorem instead {reader other : Reader α} {value : α}
    (same : ∀ text, before text →
      ∃ middle, reader (encode text) = other (encode middle) ∧ between middle)
    (reads : Reads fits between other value after) : Reads fits before reader value after where
  ok shallow text has := by
    obtain ⟨middle, equal, stands⟩ := same text has
    exact equal ▸ reads.ok shallow middle stands
  tooDeep deep text has := by
    obtain ⟨middle, equal, stands⟩ := same text has
    exact equal ▸ reads.tooDeep deep middle stands

/-- A bound taken from the number of octets is large enough if the texts have as many. -/
theorem bounded {reader : Nat → Reader α} {value : α} {least : Nat}
    (reads : ∀ bound, least < bound → Reads fits before (reader bound) value after)
    (enough : ∀ text, before text → least ≤ (encode text).length) :
    Reads fits before (fun input => reader (input.length + 1) input) value after where
  ok shallow text has :=
    (reads _ (Nat.lt_succ_of_le (enough text has))).ok shallow text has
  tooDeep deep text has :=
    (reads _ (Nat.lt_succ_of_le (enough text has))).tooDeep deep text has

theorem pure (value : α) : Reads True before (pure value) value before :=
  .flat fun text has => ⟨text, rfl, has⟩

theorem bind {reader : Reader α} {next : α → Reader β} {value : α} {result : β}
    (leading : Reads first before reader value between)
    (trailing : Reads second between (next value) result after) :
    Reads (first ∧ second) before (reader >>= next) result after where
  ok shallow text has := by
    obtain ⟨middle, read, left⟩ := leading.ok shallow.1 text has
    rw [Reader.bind_ok read]
    exact trailing.ok shallow.2 middle left
  tooDeep deep text has := by
    by_cases shallow : first
    · obtain ⟨middle, read, left⟩ := leading.ok shallow text has
      rw [Reader.bind_ok read]
      exact trailing.tooDeep (fun other => deep ⟨shallow, other⟩) middle left
    · obtain ⟨failure, read, named⟩ := leading.tooDeep shallow text has
      exact ⟨failure, Reader.bind_error read, named⟩

/-- Brackets count from the second reader on if the first opens none. -/
theorem seq {reader : Reader α} {next : α → Reader β} {value : α} {result : β}
    (leading : Reads True before reader value between)
    (trailing : Reads fits between (next value) result after) :
    Reads fits before (reader >>= next) result after :=
  (leading.bind trailing).congr (iff_of_eq (true_and fits))

/-- Brackets count up to the second reader if that opens none. -/
theorem seqFlat {reader : Reader α} {next : α → Reader β} {value : α} {result : β}
    (leading : Reads fits before reader value between)
    (trailing : Reads True between (next value) result after) :
    Reads fits before (reader >>= next) result after :=
  (leading.bind trailing).congr (iff_of_eq (and_true fits))

theorem map {reader : Reader α} {value : α} (change : α → β)
    (reads : Reads fits before reader value after) :
    Reads fits before (change <$> reader) (change value) after := by
  rw [map_eq_pure_bind]
  exact reads.seqFlat (.pure (change value))

end Reads

def Token.mark : Token → UInt8
  | .openList => Octet.openList
  | .closeList => Octet.closeList
  | .openObject => Octet.openObject
  | .closeObject => Octet.closeObject
  | .comma => Octet.comma
  | .colon => Octet.colon
  | .null => Octet.letterN
  | .boolean true => Octet.letterT
  | .boolean false => Octet.letterF
  | .number value => UInt8.ofNat (value.text.headD '0').toNat
  | .numeral text => UInt8.ofNat (text.headD '0').toNat
  | .string _ | .literal _ => Octet.quote

def punctuation : List UInt8 :=
  [0x20, 0x0a, 0x09, 0x0d, Octet.openList, Octet.closeList, Octet.openObject, Octet.closeObject,
    Octet.comma, Octet.colon, Octet.quote, Octet.minus, Octet.letterN, Octet.letterT, Octet.letterF]

theorem isDigit_ofNat {c : Char} (digit : c.isDigit = true) :
    Octet.isDigit (UInt8.ofNat c.toNat) = true := by
  have bounds : 0x30 ≤ c.toNat ∧ c.toNat ≤ 0x39 := Char.isDigit_iff_toNat.mp digit
  simp [Octet.isDigit, UInt8.le_iff_toNat_le]
  omega

theorem toNat_of_isDigit {c : Char} (digit : c.isDigit = true) : c.toNat < 0x80 := by
  have bounds : 0x30 ≤ c.toNat ∧ c.toNat ≤ 0x39 := Char.isDigit_iff_toNat.mp digit
  omega

theorem not_mem_punctuation {octet : UInt8} (digit : Octet.isDigit octet = true) :
    octet ∉ punctuation := by
  have none : punctuation.all (fun octet => !Octet.isDigit octet) = true := by decide
  intro among
  simpa [digit] using List.all_eq_true.mp none octet among

theorem toDigits_eq_cons (value : Nat) :
    ∃ c rest, Nat.toDigits 10 value = c :: rest ∧ c.isDigit = true := by
  cases digits : Nat.toDigits 10 value with
  | nil => simp at digits
  | cons c rest => exact ⟨c, rest, rfl, isDigit_of_mem_toDigits (digits ▸ List.mem_cons_self)⟩

theorem isDigit_mark_natural (value : Nat) :
    Octet.isDigit (Token.number (.integer value)).mark = true := by
  obtain ⟨c, rest, digits, digit⟩ := toDigits_eq_cons value
  rw [Token.mark, text_natural, digits]
  exact isDigit_ofNat digit

theorem NumeralText.eq_cons {text : List Char} (numeral : NumeralText text) :
    ∃ c rest, text = c :: rest ∧ (c = '-' ∨ c.isDigit = true) := by
  obtain ⟨signs, before, behind, power⟩ := numeral
  simp only [List.mem_cons, List.not_mem_nil, or_false] at signs
  rcases signs with rfl | rfl
  · cases before with
    | zero => exact ⟨_, _, rfl, .inr rfl⟩
    | more digit _ _ => exact ⟨_, _, rfl, .inr digit⟩
  · exact ⟨_, _, rfl, .inl rfl⟩

theorem NumeralText.mark {text : List Char} (numeral : NumeralText text) :
    (Token.numeral text).mark = Octet.minus ∨ Octet.isDigit (Token.numeral text).mark = true := by
  obtain ⟨c, rest, rfl, minus | digit⟩ := numeral.eq_cons
  · exact .inl (minus ▸ rfl)
  · exact .inr (isDigit_ofNat digit)

/-- Every token begins with its mark, which is no white space. -/
theorem Token.Spelled.encode {token : Token} {text : List Char} (spelled : token.Spelled text)
    (rest : List Char) :
    encode (text ++ rest) = token.mark :: encode (text.tail ++ rest) ∧
      Octet.isBlank token.mark = false := by
  cases spelled with
  | boolean value => cases value <;> exact ⟨rfl, rfl⟩
  | natural small =>
    rename_i value
    have digit := isDigit_mark_natural value
    obtain ⟨c, more, digits, single⟩ := toDigits_eq_cons value
    refine ⟨?_, ?_⟩
    · rw [Token.mark, text_natural, digits]
      exact encode_cons_small (toNat_of_isDigit single) (more ++ rest)
    · have none := not_mem_punctuation digit
      simp only [punctuation, List.mem_cons, not_or] at none
      simp [Octet.isBlank, none]
  | numeral numeral =>
    refine ⟨?_, ?_⟩
    · obtain ⟨c, more, rfl, minus | digit⟩ := numeral.eq_cons
      · exact minus ▸ rfl
      · exact encode_cons_small (toNat_of_isDigit digit) (more ++ rest)
    · rcases numeral.mark with minus | digit
      · exact minus ▸ rfl
      · have none := not_mem_punctuation digit
        simp only [punctuation, List.mem_cons, not_or] at none
        simp [Octet.isBlank, none]
  | _ => exact ⟨rfl, rfl⟩

theorem dropWhile_blanks {blanks : List Char} (white : ∀ c ∈ blanks, isBlank c = true)
    (octets : List UInt8) :
    (encode blanks ++ octets).dropWhile Octet.isBlank = octets.dropWhile Octet.isBlank := by
  induction blanks with
  | nil => rfl
  | cons c blanks ih =>
    have blank := white c List.mem_cons_self
    simp only [isBlank, Bool.or_eq_true, decide_eq_true_eq] at blank
    have later := ih fun other among => white other (List.mem_cons_of_mem _ among)
    rcases blank with ((same | same) | same) | same <;> subst same <;> exact later

theorem Spells.dropWhile {token : Token} {others : List Token} {text : List Char}
    (spells : Spells (token :: others) text) :
    ∃ stripped, (encode text).dropWhile Octet.isBlank = encode stripped ∧
      Stands token others stripped := by
  cases spells with
  | @more _ _ blanks spelling rest white spelled ends later =>
    refine ⟨spelling ++ rest, ?_, spelling, rest, rfl, spelled, ends, later⟩
    obtain ⟨begins, visible⟩ := spelled.encode rest
    rw [encode_append, dropWhile_blanks white, begins]
    exact List.dropWhile_cons_of_neg (by simp [visible])

theorem Spells.dropWhile_nil {text : List Char} (spells : Spells [] text) :
    (encode text).dropWhile Octet.isBlank = [] := by
  cases spells with
  | none white => simpa using dropWhile_blanks white []

theorem Spells.length_le {tokens : List Token} {text : List Char} (spells : Spells tokens text) :
    tokens.length ≤ (encode text).length := by
  induction spells with
  | none => exact Nat.zero_le _
  | more white spelled _ _ ih =>
    have begins := congrArg List.length (spelled.encode []).1
    simp only [encode_append, List.length_append, List.length_cons] at begins ⊢
    omega

theorem Stands.spells {token : Token} {others : List Token} {text : List Char}
    (stands : Stands token others text) : Spells (token :: others) text := by
  obtain ⟨spelling, rest, rfl, spelled, ends, later⟩ := stands
  exact .more isBlank_nil spelled ends later

theorem Stands.encode {token : Token} {others : List Token} {text : List Char}
    (stands : Stands token others text) : ∃ octets, encode text = token.mark :: octets := by
  obtain ⟨spelling, rest, rfl, spelled, _⟩ := stands
  exact ⟨_, (spelled.encode rest).1⟩

namespace Reader

theorem reads_peekToken (atEnd : Fault) (token : Token) (others : List Token) :
    Reads True (Spells (token :: others)) (peekToken atEnd) token.mark (Stands token others) := by
  apply Reads.flat
  intro text spells
  obtain ⟨stripped, white, stands⟩ := spells.dropWhile
  obtain ⟨octets, begins⟩ := stands.encode
  refine ⟨stripped, ?_, stands⟩
  rw [peekToken, white, begins]

theorem reads_peekValue (token : Token) (others : List Token) :
    Reads True (Spells (token :: others)) peekValue token.mark (Stands token others) :=
  reads_peekToken .endInValue token others

theorem reads_advance {token : Token} (others : List Token)
    (single : ∀ {text}, token.Spelled text → text.length = 1) :
    Reads True (Stands token others) advance () (Spells others) := by
  apply Reads.flat
  intro text stands
  obtain ⟨spelling, rest, rfl, spelled, _, later⟩ := stands
  have none : spelling.tail = [] := by
    rw [List.eq_nil_iff_length_eq_zero, List.length_tail, single spelled]
  refine ⟨rest, ?_, later⟩
  rw [advance, (spelled.encode rest).1, none]
  rfl

theorem reads_colon (others : List Token) :
    Reads True (Spells (.colon :: others)) colon () (Spells others) := by
  apply (reads_peekToken .endInObject .colon others).seq
  simp only [Token.mark, ↓reduceIte]
  exact reads_advance others (by rintro _ ⟨⟩; rfl)

theorem reads_letters {token : Token} {word : List UInt8} (others : List Token)
    (spelling : ∀ {text}, token.Spelled text → Text.Utf8.encode text = word) :
    Reads True (Stands token others) (letters word) () (Spells others) := by
  apply Reads.flat
  intro text stands
  obtain ⟨text, rest, rfl, spelled, _, later⟩ := stands
  refine ⟨rest, ?_, later⟩
  rw [encode_append, spelling spelled, letters_append]

theorem reads_nullWord (others : List Token) :
    Reads True (Stands .null others) nullWord () (Spells others) :=
  reads_letters others (by rintro _ ⟨⟩; rfl)

theorem reads_trueWord (others : List Token) :
    Reads True (Stands (.boolean true) others) trueWord () (Spells others) :=
  reads_letters others (by rintro _ ⟨⟩; rfl)

theorem reads_falseWord (others : List Token) :
    Reads True (Stands (.boolean false) others) falseWord () (Spells others) :=
  reads_letters others (by rintro _ ⟨⟩; rfl)

end Reader

end PermissionSchema.Json
