import PermissionSchema.Proofs.Json.Reading
/-!
Reading whole numbers: the digits of a number that fits 64 bits are read as that number, if nothing
behind them goes on with it.
-/
namespace PermissionSchema.Json

open PermissionSchema.Text.Utf8

def joinDigits (head : Nat) (digits : List Nat) : Nat :=
  digits.foldl (fun value digit => value * 10 + digit) head

theorem le_joinDigits (head : Nat) (digits : List Nat) : head ≤ joinDigits head digits := by
  induction digits generalizing head with
  | nil => exact Nat.le_refl head
  | cons digit rest ih =>
    have later := ih (head * 10 + digit)
    simp only [joinDigits, List.foldl_cons] at later ⊢
    omega

theorem appendDigits_of_small {head : Nat} {digits : List Nat}
    (small : joinDigits head digits < 0x10000000000000000) :
    appendDigits head digits = (joinDigits head digits, 0) := by
  induction digits generalizing head with
  | nil => rfl
  | cons digit rest ih =>
    have below := le_joinDigits (head * 10 + digit) rest
    simp only [joinDigits, List.foldl_cons] at small below
    rw [appendDigits, if_pos (Nat.lt_of_le_of_lt below small)]
    exact ih small

theorem joinDigits_toDigits (value : Nat) :
    joinDigits 0 ((Nat.toDigits 10 value).map fun c => c.toNat - 0x30) = value := by
  have whole := Nat.ofDigitChars_toDigits (b := 10) (n := value) (by decide) (by decide)
  rw [joinDigits, List.foldl_map]
  rw [Nat.ofDigitChars] at whole
  simp only [Nat.mul_comm 10] at whole
  exact whole

theorem toDigits_eq_zero_cons {value : Nat} {rest : List Char}
    (digits : Nat.toDigits 10 value = '0' :: rest) : value = 0 := by
  induction value using Nat.strongRecOn generalizing rest with
  | ind value ih =>
    rw [Nat.toDigits_eq_if (by decide)] at digits
    split at digits
    · have all : ∀ value < 10, Nat.digitChar value = '0' → value = 0 := by decide
      exact all value ‹_› (List.cons.inj digits).1
    · obtain ⟨c, more, higher, _⟩ := toDigits_eq_cons (value / 10)
      rw [higher, List.cons_append] at digits
      have zero := ih (value / 10) (by omega) ((List.cons.inj digits).1 ▸ higher)
      omega

theorem wholeText_toDigits (value : Nat) : WholeText (Nat.toDigits 10 value) := by
  obtain ⟨c, more, digits, single⟩ := toDigits_eq_cons value
  have all : ∀ other ∈ more, other.isDigit = true := fun other among =>
    isDigit_of_mem_toDigits (digits ▸ List.mem_cons_of_mem c among)
  by_cases zero : c = '0'
  · have none := toDigits_eq_zero_cons (zero ▸ digits)
    rw [none]
    exact .zero
  · exact digits ▸ .more single zero all

namespace Reader

def NoDigit (octets : List UInt8) : Prop :=
  ∀ octet ∈ octets.head?, Octet.isDigit octet = false

def Stops (octets : List UInt8) : Prop :=
  ∀ octet ∈ octets.head?,
    Octet.isDigit octet = false ∧ octet ≠ Octet.point ∧ octet ≠ 0x65 ∧ octet ≠ 0x45

theorem Stops.noDigit {octets : List UInt8} (stops : Stops octets) : NoDigit octets :=
  fun octet first => (stops octet first).1

theorem stops_encode {rest : List Char} (ends : extendsNumeral rest = false) :
    Stops (encode rest) := by
  cases rest with
  | nil => simp [Stops, encode]
  | cons c rest =>
    simp only [extendsNumeral, Bool.or_eq_false_iff, decide_eq_false_iff_not] at ends
    obtain ⟨⟨⟨digit, point⟩, small⟩, capital⟩ := ends
    have codes : ∀ octet ∈ (encode (c :: rest)).head?,
        ¬(0x30 ≤ octet.toNat ∧ octet.toNat ≤ 0x39) ∧ octet.toNat ≠ 0x2e ∧ octet.toNat ≠ 0x65 ∧
          octet.toNat ≠ 0x45 := by
      intro octet first
      by_cases ascii : c.toNat < 0x80
      · rw [encode_cons_small ascii, List.head?_cons, Option.mem_some_iff] at first
        rw [← first, toNat_ofNat_small ascii]
        refine ⟨fun within => ?_, fun same => point (Char.toNat_inj.mp same),
          fun same => small (Char.toNat_inj.mp same), fun same => capital (Char.toNat_inj.mp same)⟩
        exact Bool.false_ne_true (digit.symm.trans (Char.isDigit_iff_toNat.mpr within))
      · have large := utf8EncodeChar_large (Nat.le_of_not_lt ascii) octet
          (mem_of_mem_head?_encode first)
        omega
    intro octet first
    obtain ⟨digit, point, small, capital⟩ := codes octet first
    refine ⟨?_, fun same => point (congrArg UInt8.toNat same),
      fun same => small (congrArg UInt8.toNat same),
      fun same => capital (congrArg UInt8.toNat same)⟩
    simpa [Octet.isDigit, UInt8.le_iff_toNat_le] using digit

theorem noDigitNext_of_noDigit {octets : List UInt8} (ends : NoDigit octets) :
    noDigitNext octets = .ok ((), octets) := by
  cases octets with
  | nil => rfl
  | cons octet rest => simp [noDigitNext, ends octet rfl]

theorem fractionPart_of_stops {octets : List UInt8} (stops : Stops octets) (atEnd : Fault) :
    fractionPart atEnd octets = .ok (none, octets) := by
  cases octets with
  | nil => rfl
  | cons octet rest => simp [fractionPart, stops octet rfl]

theorem exponentPart_of_stops {octets : List UInt8} (stops : Stops octets) (atEnd : Fault) :
    exponentPart atEnd octets = .ok (none, octets) := by
  cases octets with
  | nil => rfl
  | cons octet rest => simp [exponentPart, stops octet rfl]

theorem encode_digits {digits : List Char} (all : ∀ c ∈ digits, c.isDigit = true) :
    encode digits = digits.map fun c => UInt8.ofNat c.toNat := by
  induction digits with
  | nil => rfl
  | cons c rest ih =>
    rw [encode_cons_small (toNat_of_isDigit (all c List.mem_cons_self)),
      ih fun other among => all other (List.mem_cons_of_mem _ among), List.map_cons]

theorem digitValue_ofNat {c : Char} (digit : c.isDigit = true) :
    Octet.digitValue (UInt8.ofNat c.toNat) = c.toNat - 0x30 := by
  rw [Octet.digitValue, toNat_ofNat_small (toNat_of_isDigit digit)]

theorem digits_append {digits : List Char} {rest : List UInt8}
    (all : ∀ c ∈ digits, c.isDigit = true) (ends : NoDigit rest) :
    Reader.digits (encode digits ++ rest) = .ok (digits.map fun c => c.toNat - 0x30, rest) := by
  have each : ∀ octet ∈ encode digits, Octet.isDigit octet = true := by
    intro octet member
    rw [encode_digits all, List.mem_map] at member
    obtain ⟨c, among, rfl⟩ := member
    exact isDigit_ofNat (all c among)
  have taken : rest.takeWhile Octet.isDigit = [] := by
    cases rest with
    | nil => rfl
    | cons octet rest => simp [ends octet rfl]
  have dropped : rest.dropWhile Octet.isDigit = rest := by
    cases rest with
    | nil => rfl
    | cons octet rest => simp [ends octet rfl]
  rw [Reader.digits, List.takeWhile_append_of_pos each, List.dropWhile_append_of_pos each, taken,
    dropped, List.append_nil, encode_digits all, List.map_map]
  have same : ∀ c ∈ digits, (Octet.digitValue ∘ fun c => UInt8.ofNat c.toNat) c = c.toNat - 0x30 :=
    fun c among => digitValue_ofNat (all c among)
  rw [List.map_congr_left same]

theorem digit_cons {c : Char} (single : c.isDigit = true) (rest : List UInt8) (atEnd : Fault) :
    Reader.digit atEnd (UInt8.ofNat c.toNat :: rest) = .ok (c.toNat - 0x30, rest) := by
  simp only [Reader.digit, isDigit_ofNat single, digitValue_ofNat single, ↓reduceIte]

theorem wholePart_wholeText {text : List Char} (whole : WholeText text) {rest : List UInt8}
    (ends : NoDigit rest) (atEnd : Fault) :
    wholePart atEnd (encode text ++ rest) = .ok (text.map fun c => c.toNat - 0x30, rest) := by
  cases whole with
  | zero =>
    have zero := digit_cons (show '0'.isDigit = true by decide) rest atEnd
    exact (bind_ok zero).trans (bind_ok (noDigitNext_of_noDigit ends))
  | @more c more single nonzero all =>
    have bounds : 0x30 ≤ c.toNat ∧ c.toNat ≤ 0x39 := Char.isDigit_iff_toNat.mp single
    have other : c.toNat ≠ 0x30 := fun same => nonzero (Char.toNat_inj.mp same)
    rw [encode_cons_small (toNat_of_isDigit single), List.cons_append, wholePart,
      bind_ok (digit_cons single _ atEnd), if_neg (by omega), bind_ok (digits_append all ends)]
    rfl

theorem numeral_toDigits (value : Nat) {rest : List UInt8} (stops : Stops rest) (atEnd : Fault) :
    numeral atEnd (encode (Nat.toDigits 10 value) ++ rest) =
      .ok (⟨false, (Nat.toDigits 10 value).map fun c => c.toNat - 0x30, none, none⟩, rest) := by
  have unsigned : minusSign (encode (Nat.toDigits 10 value) ++ rest) =
      .ok (false, encode (Nat.toDigits 10 value) ++ rest) := by
    obtain ⟨c, more, digits, single⟩ := toDigits_eq_cons value
    have other := not_mem_punctuation (isDigit_ofNat single)
    simp only [punctuation, List.mem_cons, not_or] at other
    rw [digits, encode_cons_small (toNat_of_isDigit single)]
    simp only [List.cons_append, minusSign, other, ↓reduceIte]
  have whole := wholePart_wholeText (wholeText_toDigits value) stops.noDigit atEnd
  rw [numeral, bind_ok unsigned, bind_ok whole, bind_ok (fractionPart_of_stops stops atEnd),
    bind_ok (exponentPart_of_stops stops atEnd)]
  rfl

theorem reads_number (value : Number) (others : List Token) :
    Reads True (Stands (.number value) others) number value (Spells others) := by
  apply Reads.flat
  intro text stands
  obtain ⟨spelling, rest, rfl, spelled, ends, later⟩ := stands
  refine ⟨rest, ?_, later⟩
  cases spelled with
  | @natural value small =>
    have digits := joinDigits_toDigits value
    rw [number, encode_append, numeral_toDigits value (stops_encode ends)]
    simp only [Numeral.number]
    rw [appendDigits_of_small (digits.symm ▸ small), digits]
    rfl

end Reader

end PermissionSchema.Json
