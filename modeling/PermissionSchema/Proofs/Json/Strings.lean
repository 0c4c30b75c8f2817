import PermissionSchema.Proofs.Json.Reading
/-!
Reading strings: whatever way its characters are escaped, a string is read as what it stands for.
-/
namespace PermissionSchema.Json

open PermissionSchema.Text.Utf8

/-- What is left of a text within a string that stands for a value: the rest of the string, its
closing quote, and what follows it. -/
def Within (value : String) (others : List Token) (text : List Char) : Prop :=
  ∃ body rest, text = body ++ '"' :: rest ∧ Literal value.toList body ∧ Spells others rest

/-- Which string a token is read as: the one it is, or the one whose characters may stand between
the quotes as they do. -/
inductive Token.Quotes : Token → String → Prop where
  | string (value : String) : Quotes (.string value) value
  | literal {value : String} {body : List Char} (literal : Literal value.toList body) :
      Quotes (.literal body) value

theorem Token.Quotes.mark {token : Token} {value : String} (quotes : token.Quotes value) :
    token.mark = Octet.quote := by
  cases quotes <;> rfl

theorem Token.Quotes.stands {token : Token} {value : String} {others : List Token}
    {text : List Char} (quotes : token.Quotes value) (stands : Stands token others text) :
    Stands (.string value) others text := by
  cases quotes with
  | string => exact stands
  | literal literal =>
    obtain ⟨spelling, rest, split, spelled, _, later⟩ := stands
    cases spelled
    exact ⟨_, rest, split, .string literal, trivial, later⟩

namespace Reader

theorem hexValue?_of_hexDigit? {c : Char} {value : Nat} (digit : hexDigit? c = some value) :
    c.toNat < 0x80 ∧ Octet.hexValue? (UInt8.ofNat c.toNat) = some value := by
  unfold hexDigit? at digit
  split at digit
  · exact ⟨‹_›, digit⟩
  · cases digit

theorem fourHex_hexCode {digits : List Char} {code : Nat} (known : HexCode digits code)
    (rest : List Char) : fourHex (encode (digits ++ rest)) = .ok (code, encode rest) := by
  obtain ⟨first, second, third, fourth⟩ := known
  obtain ⟨smallFirst, first⟩ := hexValue?_of_hexDigit? first
  obtain ⟨smallSecond, second⟩ := hexValue?_of_hexDigit? second
  obtain ⟨smallThird, third⟩ := hexValue?_of_hexDigit? third
  obtain ⟨smallFourth, fourth⟩ := hexValue?_of_hexDigit? fourth
  simp only [List.cons_append, List.nil_append]
  rw [encode_cons_small smallFirst, encode_cons_small smallSecond, encode_cons_small smallThird,
    encode_cons_small smallFourth]
  simp only [fourHex, first, second, third, fourth]

theorem unicodeEscape_code {c : Char} {digits : List Char} (code : HexCode digits c.toNat)
    (rest : List Char) : unicodeEscape (encode (digits ++ rest)) = .ok (c, encode rest) := by
  have valid : c.toNat < 0xd800 ∨ 0xdfff < c.toNat ∧ c.toNat < 0x110000 := c.valid
  rw [unicodeEscape, bind_ok (fourHex_hexCode code rest), if_neg (by omega), if_neg (by omega),
    Char.ofNat_toNat]
  rfl

theorem unicodeEscape_halves {c : Char} {high low : List Char} {leading trailing : Nat}
    (first : HexCode high (0xd800 + leading)) (second : HexCode low (0xdc00 + trailing))
    (leads : leading < 0x400) (trails : trailing < 0x400)
    (code : c.toNat = 0x10000 + leading * 0x400 + trailing) (rest : List Char) :
    unicodeEscape (encode (high ++ '\\' :: 'u' :: low ++ rest)) = .ok (c, encode rest) := by
  have marks {next : Unit → Reader Char} (more : List Char) :
      (surrogateMark Octet.backslash >>= fun _ => surrogateMark Octet.letterU >>= next)
        (encode ('\\' :: 'u' :: more)) = next () (encode more) := rfl
  rw [List.append_assoc, unicodeEscape, bind_ok (fourHex_hexCode first _), if_neg (by omega),
    if_pos (by omega), List.cons_append, List.cons_append, marks,
    bind_ok (fourHex_hexCode second rest), if_pos (by omega), Nat.add_sub_cancel_left,
    Nat.add_sub_cancel_left, ← code, Char.ofNat_toNat]
  rfl

theorem escape_letter {letter c : Char} (stands : (letter, c) ∈ letterEscapes) (rest : List Char) :
    escape (encode (letter :: rest)) = .ok (String.utf8EncodeChar c, encode rest) := by
  simp only [letterEscapes, List.mem_cons, Prod.mk.injEq, List.not_mem_nil, or_false] at stands
  rcases stands with same | same | same | same | same | same | same | same <;>
    obtain ⟨rfl, rfl⟩ := same <;> rfl

theorem escape_unicode {c : Char} {text rest : List Char}
    (code : unicodeEscape (encode (text ++ rest)) = .ok (c, encode rest)) :
    escape (encode ('u' :: text ++ rest)) = .ok (String.utf8EncodeChar c, encode rest) := by
  have unlettered : escapedOctet? Octet.letterU = none := by decide
  rw [List.cons_append, encode_cons_small (by decide)]
  change escape (Octet.letterU :: encode (text ++ rest)) = _
  simp only [escape, unlettered, ↓reduceIte]
  rw [map_eq_pure_bind, bind_ok code]
  rfl

def Closes (input octets after : List UInt8) : Prop :=
  ∀ bound, input.length < bound → stringOctets bound input = .ok (octets, after)

theorem closes_quote (rest : List UInt8) : Closes (Octet.quote :: rest) [] rest := by
  intro bound enough
  cases bound with
  | zero => exact absurd enough (Nat.not_lt_zero _)
  | succ bound => rw [stringOctets, if_pos rfl]

theorem Closes.plain {input octets after : List UInt8} (closes : Closes input octets after)
    (first : List UInt8)
    (bare : ∀ octet ∈ first, octet ≠ Octet.quote ∧ octet ≠ Octet.backslash ∧ ¬octet < 0x20) :
    Closes (first ++ input) (first ++ octets) after := by
  induction first with
  | nil => exact closes
  | cons octet first ih =>
    intro bound enough
    obtain ⟨quote, backslash, visible⟩ := bare octet List.mem_cons_self
    have later := ih fun other among => bare other (List.mem_cons_of_mem _ among)
    cases bound with
    | zero => exact absurd enough (Nat.not_lt_zero _)
    | succ bound =>
      have read := later bound (Nat.lt_of_succ_lt_succ enough)
      rw [List.cons_append, stringOctets, if_neg quote, if_neg backslash, if_neg visible,
        bind_ok read]
      rfl

theorem Closes.escape {text rest : List Char} {first octets after : List UInt8}
    (closes : Closes (encode rest) octets after)
    (escaped : escape (encode (text ++ rest)) = .ok (first, encode rest)) :
    Closes (encode ('\\' :: text ++ rest)) (first ++ octets) after := by
  intro bound enough
  change (Octet.backslash :: encode (text ++ rest)).length < bound at enough
  change stringOctets bound (Octet.backslash :: encode (text ++ rest)) = _
  cases bound with
  | zero => exact absurd enough (Nat.not_lt_zero _)
  | succ bound =>
    have read := closes bound (by
      simp only [List.length_cons, encode_append, List.length_append] at enough
      omega)
    rw [stringOctets, if_neg (by decide), if_pos rfl, bind_ok escaped, bind_ok read]
    rfl

theorem bare_of_plain {c : Char} (quote : c ≠ '"') (backslash : c ≠ '\\')
    (visible : 0x20 ≤ c.toNat) : ∀ octet ∈ String.utf8EncodeChar c,
      octet ≠ Octet.quote ∧ octet ≠ Octet.backslash ∧ ¬octet < 0x20 := by
  intro octet member
  have codes : octet.toNat ≠ 0x22 ∧ octet.toNat ≠ 0x5c ∧ 0x20 ≤ octet.toNat := by
    by_cases small : c.toNat < 0x80
    · rw [utf8EncodeChar_small small, List.mem_singleton] at member
      rw [member, toNat_ofNat_small small]
      exact ⟨fun same => quote (Char.toNat_inj.mp same),
        fun same => backslash (Char.toNat_inj.mp same), visible⟩
    · have large := utf8EncodeChar_large (Nat.le_of_not_lt small) octet member
      omega
  exact ⟨fun same => codes.1 (congrArg UInt8.toNat same),
    fun same => codes.2.1 (congrArg UInt8.toNat same), Nat.not_lt_of_le codes.2.2⟩

theorem Closes.escaped {rest : List Char} {octets after : List UInt8}
    (closes : Closes (encode rest) octets after) {c : Char} {text : List Char}
    (escaped : Escaped c text) :
    Closes (encode (text ++ rest)) (String.utf8EncodeChar c ++ octets) after := by
  cases escaped with
  | plain quote backslash visible =>
    exact closes.plain (String.utf8EncodeChar c) (bare_of_plain quote backslash visible)
  | @letter letter stands =>
    have read : Reader.escape (encode ([letter] ++ rest)) =
        .ok (String.utf8EncodeChar c, encode rest) := escape_letter stands rest
    exact closes.escape read
  | code code => exact closes.escape (escape_unicode (unicodeEscape_code code rest))
  | halves first second leads trails code =>
    exact closes.escape (escape_unicode (unicodeEscape_halves first second leads trails code rest))

theorem closes_literal {value body : List Char} (literal : Literal value body) (rest : List Char) :
    Closes (encode (body ++ '"' :: rest)) (encode value) (encode rest) := by
  induction literal with
  | empty => exact closes_quote (encode rest)
  | more escaped _ ih =>
    rw [List.append_assoc, encode_cons]
    exact ih.escaped escaped

theorem reads_quote {token : Token} {value : String} (quotes : token.Quotes value)
    (others : List Token) : Reads True (Stands token others) advance () (Within value others) := by
  apply Reads.flat
  intro text stands
  obtain ⟨spelling, rest, rfl, spelled, _, later⟩ := quotes.stands stands
  cases spelled with
  | @string _ body literal =>
    refine ⟨body ++ '"' :: rest, ?_, body, rest, rfl, literal, later⟩
    rw [List.append_assoc]
    rfl

theorem reads_stringBody (value : String) (others : List Token) :
    Reads True (Within value others) stringBody value (Spells others) := by
  apply Reads.flat
  intro text within
  obtain ⟨body, rest, rfl, literal, later⟩ := within
  refine ⟨rest, ?_, later⟩
  have read := closes_literal literal rest _ (Nat.lt_succ_self _)
  rw [stringBody, read]
  simp only [decode?_encode, String.ofList_toList]

end Reader

end PermissionSchema.Json
