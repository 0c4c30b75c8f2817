import PermissionSchema.Text.Utf8
import Mathlib.Tactic.SplitIfs
/-!
What becomes of texts as octets, and of octets as texts. The octets of a text are cut into its
characters, so both the strict and the lossy reading give the text back. Octets of any kind keep in
the lossy reading all that is below 0x80: such an octet always reads as its own character, no other
octets read as characters below 0x80, and what comes behind such an octet reads as if nothing stood
in front of it.
-/
namespace PermissionSchema.Text.Utf8

section Encoding

theorem encode_cons (c : Char) (rest : List Char) :
    encode (c :: rest) = String.utf8EncodeChar c ++ encode rest := rfl

theorem encode_append (first second : List Char) :
    encode (first ++ second) = encode first ++ encode second :=
  List.flatMap_append

theorem utf8Size_small {c : Char} (small : c.toNat < 0x80) : c.utf8Size = 1 :=
  Char.utf8Size_eq_one_iff.mpr (UInt32.le_iff_toNat_le.mpr (Nat.le_of_lt_succ small))

theorem utf8EncodeChar_small {c : Char} (small : c.toNat < 0x80) :
    String.utf8EncodeChar c = [UInt8.ofNat c.toNat] := by
  rw [String.utf8EncodeChar_eq_singleton (utf8Size_small small)]
  rfl

theorem encode_cons_small {c : Char} (small : c.toNat < 0x80) (rest : List Char) :
    encode (c :: rest) = UInt8.ofNat c.toNat :: encode rest := by
  rw [encode_cons, utf8EncodeChar_small small]
  rfl

theorem mem_of_mem_head?_encode {c : Char} {rest : List Char} {octet : UInt8}
    (first : octet ∈ (encode (c :: rest)).head?) : octet ∈ String.utf8EncodeChar c := by
  obtain ⟨leading, more, same⟩ :=
    List.exists_cons_of_ne_nil (String.utf8EncodeChar_ne_nil (c := c))
  rw [encode_cons, same, List.cons_append, List.head?_cons, Option.mem_some_iff] at first
  rw [same, ← first]
  exact List.mem_cons_self

theorem toNat_ofNat_small {c : Char} (small : c.toNat < 0x80) :
    (UInt8.ofNat c.toNat).toNat = c.toNat :=
  UInt8.toNat_ofNat_of_lt' (Nat.lt_trans small (by decide))

theorem utf8EncodeChar_large {c : Char} (large : 0x80 ≤ c.toNat) :
    ∀ octet ∈ String.utf8EncodeChar c, 0x80 ≤ octet.toNat := by
  have above : ¬c.val.toNat ≤ 127 := Nat.not_le_of_lt large
  have valid := c.valid
  simp only [UInt32.isValidChar, Nat.isValidChar] at valid
  intro octet member
  simp only [String.utf8EncodeChar, if_neg above] at member
  split_ifs at member with two three
  · simp only [List.mem_cons, List.not_mem_nil, or_false] at member
    rcases member with same | same <;> rw [same, UInt8.toNat_ofNat'] <;> omega
  · simp only [List.mem_cons, List.not_mem_nil, or_false] at member
    rcases member with same | same | same <;> rw [same, UInt8.toNat_ofNat'] <;> omega
  · simp only [List.mem_cons, List.not_mem_nil, or_false] at member
    rcases member with same | same | same | same <;> rw [same, UInt8.toNat_ofNat'] <;> omega

theorem length_encode_small {text : List Char} (small : ∀ c ∈ text, c.toNat < 0x80) :
    (encode text).length = text.length := by
  induction text with
  | nil => rfl
  | cons c rest ih =>
    have one := utf8Size_small (small c List.mem_cons_self)
    have others := ih fun other member => small other (List.mem_cons_of_mem _ member)
    rw [encode_cons, List.length_append, String.length_utf8EncodeChar, one, others,
      List.length_cons, Nat.add_comm]

end Encoding

section RoundTrip

theorem piecesFrom_cons (state : Option Begun) (octet : UInt8) (rest : List UInt8) :
    piecesFrom state (octet :: rest) =
      (step state octet.toNat).1 ++ piecesFrom (step state octet.toNat).2 rest := by
  cases state <;> rfl

theorem piecesFrom_more {bits held owed low high code : Nat} {rest : List UInt8}
    (short : code < 256) (above : low ≤ code) (below : code ≤ high) :
    piecesFrom (some ⟨bits, held, owed + 2, low, high⟩) (UInt8.ofNat code :: rest) =
      piecesFrom (some ⟨bits * 64 + (code - 0x80), held + 1, owed + 1, 0x80, 0xbf⟩) rest := by
  rw [piecesFrom_cons, UInt8.toNat_ofNat_of_lt' short, step, Begun.take, if_pos ⟨above, below⟩,
    if_neg (by simp)]
  rfl

theorem piecesFrom_last {bits held low high code : Nat} {rest : List UInt8}
    (short : code < 256) (above : low ≤ code) (below : code ≤ high) :
    piecesFrom (some ⟨bits, held, 1, low, high⟩) (UInt8.ofNat code :: rest) =
      .char (Char.ofNat (bits * 64 + (code - 0x80))) :: piecesFrom none rest := by
  rw [piecesFrom_cons, UInt8.toNat_ofNat_of_lt' short, step, Begun.take, if_pos ⟨above, below⟩,
    if_pos rfl]
  rfl

theorem piecesFrom_begin {code : Nat} {state : Begun} {rest : List UInt8} (short : code < 256)
    (begins : start code = ([], some state)) :
    piecesFrom none (UInt8.ofNat code :: rest) = piecesFrom (some state) rest := by
  rw [piecesFrom_cons, UInt8.toNat_ofNat_of_lt' short, step, begins]
  rfl

/-- The octets of a character are cut off as that character, whatever follows them. -/
theorem piecesFrom_utf8EncodeChar (c : Char) (rest : List UInt8) :
    piecesFrom none (String.utf8EncodeChar c ++ rest) = .char c :: piecesFrom none rest := by
  have valid := c.valid
  have same : Char.ofNat c.val.toNat = c := Char.ofNat_toNat c
  simp only [UInt32.isValidChar, Nat.isValidChar] at valid
  generalize hv : c.val.toNat = code at *
  unfold String.utf8EncodeChar
  simp only [hv]
  split
  · have short : code < 256 := by omega
    rw [List.cons_append, List.nil_append, piecesFrom_cons, UInt8.toNat_ofNat_of_lt' short, step,
      start, if_pos (by omega), same]
    rfl
  split
  · have begins : start (code / 64 % 32 + 192) = ([], some ⟨code / 64, 1, 1, 0x80, 0xbf⟩) := by
      grind [start]
    rw [List.cons_append, List.cons_append, List.nil_append,
      piecesFrom_begin (by omega) begins,
      piecesFrom_last (by omega) (by omega) (by omega)]
    rw [show code / 64 * 64 + (code % 64 + 128 - 0x80) = code by omega, same]
  split
  · have begins : start (code / 4096 % 16 + 224) = ([], some ⟨code / 4096, 1, 2,
        if code / 4096 = 0 then 0xa0 else 0x80, if code / 4096 = 0xd then 0x9f else 0xbf⟩) := by
      grind [start]
    rw [List.cons_append, List.cons_append, List.cons_append, List.nil_append,
      piecesFrom_begin (by omega) begins,
      piecesFrom_more (by omega) (by grind) (by grind),
      piecesFrom_last (by omega) (by omega) (by omega)]
    rw [show (code / 4096 * 64 + (code / 64 % 64 + 128 - 0x80)) * 64 + (code % 64 + 128 - 0x80) =
      code by omega, same]
  · have begins : start (code / 262144 % 8 + 240) = ([], some ⟨code / 262144, 1, 3,
        if code / 262144 = 0 then 0x90 else 0x80, if code / 262144 = 4 then 0x8f else 0xbf⟩) := by
      grind [start]
    rw [List.cons_append, List.cons_append, List.cons_append, List.cons_append, List.nil_append,
      piecesFrom_begin (by omega) begins,
      piecesFrom_more (by omega) (by grind) (by grind),
      piecesFrom_more (by omega) (by omega) (by omega),
      piecesFrom_last (by omega) (by omega) (by omega)]
    rw [show ((code / 262144 * 64 + (code / 4096 % 64 + 128 - 0x80)) * 64 +
      (code / 64 % 64 + 128 - 0x80)) * 64 + (code % 64 + 128 - 0x80) = code by omega, same]

theorem pieces_encode (text : List Char) : pieces (encode text) = text.map .char := by
  induction text with
  | nil => rfl
  | cons c rest ih =>
    rw [encode_cons, pieces, piecesFrom_utf8EncodeChar, List.map_cons]
    exact congrArg _ ih

theorem decode?_encode (text : List Char) : decode? (encode text) = some text := by
  rw [decode?, pieces_encode]
  induction text with
  | nil => rfl
  | cons c rest ih => simp only [List.map_cons, characters?, ih, Option.map_some]

theorem decodeLossy_encode (text : List Char) : decodeLossy (encode text) = text := by
  rw [decodeLossy, pieces_encode, List.map_map]
  exact List.map_id text

end RoundTrip

section Lossy

/-- Whatever octets within the bounds still come, so many of them complete a character above
0x7f. -/
def Completes : Nat → Nat → Nat → Nat → Prop
  | 0, _, _, _ => False
  | 1, bits, low, high => ∀ octet, low ≤ octet → octet ≤ high →
      0x80 ≤ bits * 64 + (octet - 0x80) ∧ (bits * 64 + (octet - 0x80)).isValidChar
  | owed + 2, bits, low, high => ∀ octet, low ≤ octet → octet ≤ high →
      Completes (owed + 1) (bits * 64 + (octet - 0x80)) 0x80 0xbf

structure Begun.Sound (state : Begun) : Prop where
  low_ge : 0x80 ≤ state.low
  completes : Completes state.owed state.bits state.low state.high

/-- An octet between characters is a character below 0x80, is malformed, or begins a character. -/
theorem start_cases (octet : Nat) :
    octet < 0x80 ∧ start octet = ([.char (Char.ofNat octet)], none) ∨
      0x80 ≤ octet ∧ (start octet = ([.malformed 1], none) ∨
        ∃ state : Begun, start octet = ([], some state) ∧ state.Sound) := by
  unfold start
  by_cases plain : octet < 0x80
  · rw [if_pos plain]
    exact Or.inl ⟨plain, rfl⟩
  rw [if_neg plain]
  refine Or.inr ⟨Nat.le_of_not_lt plain, ?_⟩
  by_cases stray : octet < 0xc2
  · rw [if_pos stray]
    exact Or.inl rfl
  rw [if_neg stray]
  have begins {state : Begun} (low : 0x80 ≤ state.low)
      (completes : Completes state.owed state.bits state.low state.high) :
      ([], some state) = ([Piece.malformed 1], (none : Option Begun)) ∨
        ∃ other : Begun, ([], some state) = (([] : List Piece), some other) ∧ other.Sound :=
    Or.inr ⟨state, rfl, low, completes⟩
  -- The bounds of the first octet keep every code in range, row by row.
  by_cases two : octet < 0xe0
  · rw [if_pos two]
    apply begins (Nat.le_refl 0x80)
    simp only [Completes, Nat.isValidChar]
    intros
    omega
  rw [if_neg two]
  by_cases first : octet = 0xe0
  · rw [if_pos first]
    apply begins (Nat.le_of_ble_eq_true rfl)
    simp only [Completes, Nat.isValidChar]
    intros
    omega
  rw [if_neg first]
  by_cases surrogate : octet = 0xed
  · rw [if_pos surrogate]
    apply begins (Nat.le_of_ble_eq_true rfl)
    simp only [Completes, Nat.isValidChar]
    intros
    omega
  rw [if_neg surrogate]
  by_cases three : octet < 0xf0
  · rw [if_pos three]
    apply begins (Nat.le_of_ble_eq_true rfl)
    simp only [Completes, Nat.isValidChar]
    intros
    omega
  rw [if_neg three]
  by_cases four : octet = 0xf0
  · rw [if_pos four]
    apply begins (Nat.le_of_ble_eq_true rfl)
    simp only [Completes, Nat.isValidChar]
    intros
    omega
  rw [if_neg four]
  by_cases wide : octet < 0xf4
  · rw [if_pos wide]
    apply begins (Nat.le_of_ble_eq_true rfl)
    simp only [Completes, Nat.isValidChar]
    intros
    omega
  rw [if_neg wide]
  by_cases last : octet = 0xf4
  · rw [if_pos last]
    apply begins (Nat.le_of_ble_eq_true rfl)
    simp only [Completes, Nat.isValidChar]
    intros
    omega
  rw [if_neg last]
  exact Or.inl rfl

theorem sound_of_start {octet : Nat} {state : Begun} (begins : (start octet).2 = some state) :
    state.Sound := by
  rcases start_cases octet with ⟨_, plain⟩ | ⟨_, stray | ⟨other, first, sound⟩⟩
  · rw [plain] at begins
    cases begins
  · rw [stray] at begins
    cases begins
  · rw [first] at begins
    exact Option.some.inj begins ▸ sound

theorem Begun.Sound.push {state : Begun} {octet : Nat} (sound : state.Sound)
    (above : state.low ≤ octet) (below : octet ≤ state.high) (more : state.owed ≠ 1) :
    (state.push octet).Sound := by
  obtain ⟨bits, held, owed, low, high⟩ := state
  obtain ⟨_, completes⟩ := sound
  match owed with
  | 0 => exact completes.elim
  | 1 => exact absurd rfl more
  | owed + 2 => exact ⟨Nat.le_refl 0x80, completes octet above below⟩

theorem toNat_ofNat {code : Nat} (valid : code.isValidChar) : (Char.ofNat code).toNat = code := by
  rw [Char.ofNat, dif_pos valid]
  rfl

theorem Begun.Sound.last {state : Begun} {octet : Nat} (sound : state.Sound)
    (above : state.low ≤ octet) (below : octet ≤ state.high) (last : state.owed = 1) :
    0x80 ≤ (Char.ofNat (state.push octet).bits).toNat := by
  have completes := sound.completes
  rw [last] at completes
  have code := completes octet above below
  have same : (state.push octet).bits = state.bits * 64 + (octet - 0x80) := rfl
  rw [same, toNat_ofNat code.2]
  exact code.1

def ascii (text : List Char) : List Char :=
  text.filter (·.toNat < 0x80)

def asciiOctets (octets : List UInt8) : List Char :=
  (octets.filter (·.toNat < 0x80)).map fun octet => Char.ofNat octet.toNat

theorem ascii_append (first second : List Char) :
    ascii (first ++ second) = ascii first ++ ascii second :=
  List.filter_append ..

theorem asciiOctets_flatten (parts : List (List UInt8)) :
    asciiOctets parts.flatten = parts.flatMap asciiOctets := by
  induction parts with
  | nil => rfl
  | cons part rest ih =>
    rw [List.flatMap_cons, ← ih, List.flatten_cons]
    unfold asciiOctets
    rw [List.filter_append, List.map_append]

theorem ascii_start (octet : Nat) :
    ascii ((start octet).1.map Piece.lossy) =
      if octet < 0x80 then [Char.ofNat octet] else [] := by
  rcases start_cases octet with ⟨small, plain⟩ | ⟨large, stray | ⟨state, first, _⟩⟩
  · have same : (Char.ofNat octet).toNat = octet := toNat_ofNat (Or.inl (by omega))
    simp [plain, ascii, Piece.lossy, same, small]
  · rw [stray, if_neg (by omega)]
    rfl
  · rw [first, if_neg (by omega)]
    rfl

theorem ascii_take {state : Begun} (sound : state.Sound) (octet : Nat) :
    ascii ((state.take octet).1.map Piece.lossy) =
      if octet < 0x80 then [Char.ofNat octet] else [] := by
  unfold Begun.take
  by_cases within : state.low ≤ octet ∧ octet ≤ state.high
  · have large : ¬octet < 0x80 := by
      have low := sound.low_ge
      omega
    rw [if_pos within, if_neg large]
    by_cases last : state.owed = 1
    · have wide := sound.last within.1 within.2 last
      rw [if_pos last]
      simp only [ascii, List.map_cons, List.map_nil, Piece.lossy]
      rw [List.filter_cons_of_neg (by simpa using wide), List.filter_nil]
    · rw [if_neg last]
      rfl
  · rw [if_neg within, ← ascii_start octet]
    rfl

theorem sound_of_step {state : Option Begun} (sound : ∀ begun ∈ state, begun.Sound) (octet : Nat) :
    ∀ begun ∈ (step state octet).2, begun.Sound := by
  intro begun next
  cases state with
  | none => exact sound_of_start next
  | some state =>
    have holds := sound state rfl
    simp only [step, Begun.take] at next
    split_ifs at next with within last
    · cases next
    · exact Option.some.inj next ▸ holds.push within.1 within.2 last
    · exact sound_of_start next

theorem ascii_step {state : Option Begun} (sound : ∀ begun ∈ state, begun.Sound) (octet : Nat) :
    ascii ((step state octet).1.map Piece.lossy) =
      if octet < 0x80 then [Char.ofNat octet] else [] := by
  cases state with
  | none => exact ascii_start octet
  | some state => exact ascii_take (sound state rfl) octet

theorem ascii_piecesFrom {state : Option Begun} (sound : ∀ begun ∈ state, begun.Sound)
    (octets : List UInt8) :
    ascii ((piecesFrom state octets).map Piece.lossy) = asciiOctets octets := by
  induction octets generalizing state with
  | nil => cases state <;> rfl
  | cons octet rest ih =>
    rw [piecesFrom_cons, List.map_append, ascii_append, ascii_step sound,
      ih (sound_of_step sound octet.toNat)]
    by_cases small : octet.toNat < 0x80
    · simp [asciiOctets, small]
    · simp [asciiOctets, small]

/-- The lossy reading has exactly the characters below 0x80 that its octets are. -/
theorem ascii_decodeLossy (octets : List UInt8) : ascii (decodeLossy octets) = asciiOctets octets :=
  ascii_piecesFrom (by simp) octets

/-- An octet below 0x80 ends whatever has begun before it and is a character of its own. -/
theorem piecesFrom_ascii {state : Option Begun} (sound : ∀ begun ∈ state, begun.Sound)
    {octet : UInt8} (small : octet.toNat < 0x80) :
    ∃ ended, ∀ rest, piecesFrom state (octet :: rest) =
      ended ++ .char (Char.ofNat octet.toNat) :: piecesFrom none rest := by
  have alone : start octet.toNat = ([.char (Char.ofNat octet.toNat)], none) := by
    rw [start, if_pos small]
  cases state with
  | none =>
    refine ⟨[], fun rest => ?_⟩
    rw [piecesFrom_cons, step, alone]
    rfl
  | some state =>
    have low := (sound state rfl).low_ge
    refine ⟨[.malformed state.held], fun rest => ?_⟩
    rw [piecesFrom_cons, step, Begun.take, if_neg (by omega), alone]
    rfl

theorem decodeLossy_ascii (octets : List UInt8) {octet : UInt8} (small : octet.toNat < 0x80) :
    ∃ before, ∀ rest, decodeLossy (octets ++ octet :: rest) =
      before ++ Char.ofNat octet.toNat :: decodeLossy rest := by
  suffices cut : ∀ state : Option Begun, (∀ begun ∈ state, begun.Sound) → ∃ before, ∀ rest,
      (piecesFrom state (octets ++ octet :: rest)).map Piece.lossy =
        before ++ Char.ofNat octet.toNat :: (piecesFrom none rest).map Piece.lossy from
    cut none (by simp)
  induction octets with
  | nil =>
    intro state sound
    obtain ⟨ended, same⟩ := piecesFrom_ascii sound small
    exact ⟨ended.map Piece.lossy, fun rest => by simp [same, Piece.lossy]⟩
  | cons first octets ih =>
    intro state sound
    obtain ⟨before, same⟩ := ih _ (sound_of_step sound first.toNat)
    refine ⟨(step state first.toNat).1.map Piece.lossy ++ before, fun rest => ?_⟩
    rw [List.cons_append, piecesFrom_cons, List.map_append, same, List.append_assoc]

/-- Octets of 0x80 and more in front of one below that read as characters of 0x80 and more, and that
one as itself. -/
theorem decodeLossy_large {octets : List UInt8} (large : ∀ octet ∈ octets, 0x80 ≤ octet.toNat)
    {last : UInt8} (small : last.toNat < 0x80) :
    ∃ before, (∀ c ∈ before, 0x80 ≤ c.toNat) ∧ ∀ rest, decodeLossy (octets ++ last :: rest) =
      before ++ Char.ofNat last.toNat :: decodeLossy rest := by
  obtain ⟨before, cut⟩ := decodeLossy_ascii octets small
  refine ⟨before, ?_, cut⟩
  have alone : asciiOctets (octets ++ [last]) = [Char.ofNat last.toNat] := by
    have none : octets.filter (·.toNat < 0x80) = [] := by
      simpa using large
    simp [asciiOctets, none, small]
  have kept : ascii [Char.ofNat last.toNat] = [Char.ofNat last.toNat] := by
    have final : (Char.ofNat last.toNat).toNat = last.toNat := toNat_ofNat (Or.inl (by omega))
    simp [ascii, final, small]
  have whole : decodeLossy (octets ++ [last]) = before ++ [Char.ofNat last.toNat] := cut []
  have same := ascii_decodeLossy (octets ++ [last])
  rw [whole, alone, ascii_append, kept] at same
  have empty : ascii before = [] := List.append_left_eq_self.mp same
  intro c member
  apply Nat.le_of_not_lt
  intro below
  have found : c ∈ ascii before := List.mem_filter.mpr ⟨member, decide_eq_true below⟩
  rw [empty] at found
  cases found

end Lossy

end PermissionSchema.Text.Utf8
