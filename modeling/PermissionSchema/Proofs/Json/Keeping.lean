import PermissionSchema.Proofs.Json.Depth
import PermissionSchema.Proofs.Json.Outcomes
/-!
Values that are kept as they are: what stands in a text where one was kept, told by its first
octet. Each lemma says all of what a reader can have met when it succeeded, and that it does succeed
there.
-/
namespace PermissionSchema.Json

open Reader

variable {α β : Type}

namespace Reader

variable {input rest : List UInt8}

theorem peekToken_eq_ok {atEnd : Fault} {octet : UInt8} :
    peekToken atEnd input = .ok (octet, rest) ↔
      ∃ more, input.dropWhile Octet.isBlank = octet :: more ∧ rest = octet :: more := by
  simp only [peekToken]
  split
  · rename_i atEnd
    simp [failNext, atEnd]
  · rename_i first more begins
    rw [begins]
    constructor
    · rintro ⟨⟩
      exact ⟨more, rfl, rfl⟩
    · rintro ⟨_, ⟨⟩, rfl⟩
      rfl

theorem nextMember_eq_false {atFirst : Bool} :
    nextMember atFirst input = .ok (false, rest) ↔
      ∃ more, input.dropWhile Octet.isBlank = Octet.closeObject :: more ∧
        rest = Octet.closeObject :: more := by
  have onward : (do
      advance
      let next ← peekValue
      if next = Octet.quote then pure true
      else if next = Octet.closeObject then failNext .trailingComma
      else failNext .keyNotString : Reader Bool).Yields fun further => further = true :=
    .seq fun _ => .seq fun _ => .ite (.pure rfl) (.ite (.failNext _) (.failNext _))
  rw [nextMember, bind_eq_ok]
  simp only [peekToken_eq_ok]
  constructor
  · rintro ⟨octet, _, ⟨more, begins, rfl⟩, next⟩
    split_ifs at next with closes
    · cases next
      exact ⟨more, closes ▸ begins, closes ▸ rfl⟩
    · cases next
    · cases next
    · exact absurd (onward next) nofun
    · cases next
  · rintro ⟨more, begins, rfl⟩
    exact ⟨_, _, ⟨more, begins, rfl⟩, rfl⟩

theorem nextMember_first_eq_true :
    nextMember true input = .ok (true, rest) ↔
      ∃ more, input.dropWhile Octet.isBlank = Octet.quote :: more ∧
        rest = Octet.quote :: more := by
  rw [nextMember, bind_eq_ok]
  simp only [peekToken_eq_ok, ↓reduceIte]
  constructor
  · rintro ⟨octet, _, ⟨more, begins, rfl⟩, next⟩
    split_ifs at next with closes quotes
    · cases next
    · cases next
      exact ⟨more, quotes ▸ begins, quotes ▸ rfl⟩
    · cases next
  · rintro ⟨more, begins, rfl⟩
    exact ⟨_, _, ⟨more, begins, rfl⟩, rfl⟩

theorem closeObject_eq_ok :
    closeObject input = .ok ((), rest) ↔
      input.dropWhile Octet.isBlank = Octet.closeObject :: rest := by
  simp only [closeObject, bind_eq_ok, peekToken_eq_ok]
  constructor
  · rintro ⟨octet, _, ⟨more, begins, rfl⟩, next⟩
    split_ifs at next with closes
    · cases next
      rw [begins, closes]
      rfl
    · cases next
    · cases next
  · intro begins
    exact ⟨_, _, ⟨rest, begins, rfl⟩, rfl⟩

theorem closeVariant_eq_ok :
    closeVariant input = .ok ((), rest) ↔
      input.dropWhile Octet.isBlank = Octet.closeObject :: rest := by
  have skipped : skipBlanks input = .ok ((), input.dropWhile Octet.isBlank) := rfl
  rw [closeVariant, bind_ok skipped]
  cases input.dropWhile Octet.isBlank with
  | nil => simp [failHere]
  | cons octet more =>
    by_cases closes : octet = Octet.closeObject
    · simp [closes]
    · simp [closes, failHere]

inductive Single (value : Reader α) (name : String) : List UInt8 → α → List UInt8 → Prop where
  | intro {input body labelled separated behind rest : List UInt8} {held : α}
      (quote : input.dropWhile Octet.isBlank = Octet.quote :: body)
      (label : stringBody body = .ok (name, labelled))
      (colon : colon labelled = .ok ((), separated))
      (reads : value separated = .ok (held, behind))
      (closes : behind.dropWhile Octet.isBlank = Octet.closeObject :: rest) :
      Single value name input held rest

theorem advance_cons (octet : UInt8) : advance (octet :: rest) = .ok ((), rest) := rfl

theorem keptMembersUpTo_eq_nil {value : Reader Json} {bound : Nat} {atFirst : Bool} :
    keptMembersUpTo value (bound + 1) atFirst input = .ok ([], rest) ↔
      nextMember atFirst input = .ok (false, rest) := by
  rw [keptMembersUpTo, bind_eq_ok]
  constructor
  · rintro ⟨further, middle, next, members⟩
    cases further with
    | false =>
      cases members
      exact next
    | true =>
      simp only [↓reduceIte, bind_eq_ok] at members
      obtain ⟨_, _, _, name, _, _, _, _, _, held, _, _, more, _, _, made⟩ := members
      cases made
  · intro next
    exact ⟨false, rest, next, rfl⟩

theorem keptMembers_eq_single {value : Reader Json} {name : String} {held : Json} :
    thenClose (keptMembers value) closeObject input = .ok ([(name, held)], rest) ↔
      Single value name input held rest := by
  simp only [thenClose_eq_ok, keptMembers, closeObject_eq_ok]
  constructor
  · rintro ⟨between, members, closes⟩
    rw [keptMembersUpTo, bind_eq_ok] at members
    obtain ⟨further, middle, next, members⟩ := members
    cases further with
    | false => cases members
    | true =>
      simp only [↓reduceIte, bind_eq_ok] at members
      obtain ⟨_, body, quoted, _, _, label, _, separated, colon, _, behind, reads, more, _, others,
        made⟩ := members
      cases made
      obtain ⟨_, quote, rfl⟩ := nextMember_first_eq_true.mp next
      cases quoted
      cases bound : input.length with
      | zero =>
        rw [bound] at others
        cases others
      | succ more =>
        rw [bound, keptMembersUpTo_eq_nil, nextMember_eq_false] at others
        obtain ⟨last, ends, rfl⟩ := others
        cases closes
        exact ⟨quote, label, colon, reads, ends⟩
  · rintro ⟨quote, label, colon, reads, closes⟩
    rename_i body labelled separated behind
    have next := nextMember_first_eq_true.mpr ⟨body, quote, rfl⟩
    have nonempty : input ≠ [] := by
      rintro rfl
      cases quote
    obtain ⟨bound, length⟩ := Nat.exists_eq_succ_of_ne_zero (mt List.length_eq_zero_iff.mp nonempty)
    have others : keptMembersUpTo value input.length false behind =
        .ok ([], Octet.closeObject :: rest) := by
      rw [length, keptMembersUpTo_eq_nil, nextMember_eq_false]
      exact ⟨rest, closes, rfl⟩
    refine ⟨Octet.closeObject :: rest, ?_, rfl⟩
    rw [keptMembersUpTo, bind_ok next, if_pos rfl, bind_ok (advance_cons _), bind_ok label,
      bind_ok colon, bind_ok reads, bind_ok others]
    rfl

/-- How a value stands where the first octet that is not white space is told: the kept value, and
the octets behind it. -/
inductive Kept (depth : Nat) : List UInt8 → Json → List UInt8 → Prop where
  | null {more rest : List UInt8} (word : nullWord (Octet.letterN :: more) = .ok ((), rest)) :
      Kept depth (Octet.letterN :: more) .null rest
  | yes {more rest : List UInt8} (word : trueWord (Octet.letterT :: more) = .ok ((), rest)) :
      Kept depth (Octet.letterT :: more) (.boolean true) rest
  | no {more rest : List UInt8} (word : falseWord (Octet.letterF :: more) = .ok ((), rest)) :
      Kept depth (Octet.letterF :: more) (.boolean false) rest
  | number {octet : UInt8} {more rest : List UInt8} {value : Number}
      (begins : (octet = Octet.minus || Octet.isDigit octet) = true)
      (digits : Reader.number (octet :: more) = .ok (value, rest)) :
      Kept depth (octet :: more) (.number value) rest
  | string {more rest : List UInt8} {value : String} (body : stringBody more = .ok (value, rest)) :
      Kept depth (Octet.quote :: more) (.string value) rest
  | array {within : Nat} {more rest : List UInt8} {items : List Json} (level : depth = within + 1)
      (inside : thenClose (elements (any within)) closeList more = .ok (items, rest)) :
      Kept depth (Octet.openList :: more) (.array items) rest
  | object {within : Nat} {more rest : List UInt8} {members : List (String × Json)}
      (level : depth = within + 1)
      (inside : thenClose (keptMembers (any within)) closeObject more = .ok (members, rest)) :
      Kept depth (Octet.openObject :: more) (.object members) rest

theorem bracketed_eq_ok {read : Nat → Reader α} {close : Reader Unit} {depth : Nat} {value : α}
    {octet : UInt8} :
    bracketed close (inside read depth) (octet :: input) = .ok (value, rest) ↔
      ∃ within, depth = within + 1 ∧ thenClose (read within) close input = .ok (value, rest) := by
  cases depth with
  | zero => simp [inside, bracketed, failNext]
  | succ within => simp [inside, bracketed, bind_ok (advance_cons octet)]

theorem ne_of_numeral {octet : UInt8}
    (begins : (octet = Octet.minus || Octet.isDigit octet) = true) :
    octet ≠ Octet.letterN ∧ octet ≠ Octet.letterT ∧ octet ≠ Octet.letterF := by
  rcases Bool.or_eq_true_iff.mp begins with minus | digit
  · rw [of_decide_eq_true minus]
    decide
  · have other := not_mem_punctuation digit
    simp only [punctuation, List.mem_cons, not_or] at other
    simp only [other, ne_eq, not_false_eq_true, and_self]

theorem any_eq_ok {depth : Nat} {json : Json} :
    any depth input = .ok (json, rest) ↔ Kept depth (input.dropWhile Octet.isBlank) json rest := by
  rw [any_eq, anyWith, bind_eq_ok]
  simp only [peekValue, peekToken_eq_ok, map_inside]
  constructor
  · rintro ⟨octet, _, ⟨more, begins, rfl⟩, read⟩
    rw [begins]
    split_ifs at read with null true false digit quote list object
    · obtain ⟨_, _, word, made⟩ := bind_eq_ok.mp read
      cases made
      subst null
      exact .null word
    · obtain ⟨_, _, word, made⟩ := bind_eq_ok.mp read
      cases made
      subst true
      exact .yes word
    · obtain ⟨_, _, word, made⟩ := bind_eq_ok.mp read
      cases made
      subst false
      exact .no word
    · obtain ⟨value, digits, rfl⟩ := map_eq_ok.mp read
      exact .number digit digits
    · obtain ⟨_, _, passed, made⟩ := bind_eq_ok.mp read
      cases passed
      obtain ⟨value, body, rfl⟩ := map_eq_ok.mp made
      subst quote
      exact .string body
    · obtain ⟨items, within, rfl⟩ := map_eq_ok.mp read
      obtain ⟨below, level, inside⟩ := bracketed_eq_ok.mp within
      subst list
      exact .array level inside
    · obtain ⟨members, within, rfl⟩ := map_eq_ok.mp read
      obtain ⟨below, level, inside⟩ := bracketed_eq_ok.mp within
      subst object
      exact .object level inside
    · cases read
  · intro kept
    generalize input.dropWhile Octet.isBlank = octets at kept
    cases kept with
    | null word => exact ⟨_, _, ⟨_, rfl, rfl⟩, bind_eq_ok.mpr ⟨_, _, word, rfl⟩⟩
    | yes word => exact ⟨_, _, ⟨_, rfl, rfl⟩, bind_eq_ok.mpr ⟨_, _, word, rfl⟩⟩
    | no word => exact ⟨_, _, ⟨_, rfl, rfl⟩, bind_eq_ok.mpr ⟨_, _, word, rfl⟩⟩
    | number begins digits =>
      refine ⟨_, _, ⟨_, rfl, rfl⟩, ?_⟩
      rw [if_neg (ne_of_numeral begins).1, if_neg (ne_of_numeral begins).2.1,
        if_neg (ne_of_numeral begins).2.2, if_pos begins]
      exact map_eq_ok.mpr ⟨_, digits, rfl⟩
    | string body =>
      exact ⟨_, _, ⟨_, rfl, rfl⟩, bind_eq_ok.mpr ⟨_, _, rfl, map_eq_ok.mpr ⟨_, body, rfl⟩⟩⟩
    | array level inside =>
      exact ⟨_, _, ⟨_, rfl, rfl⟩, map_eq_ok.mpr ⟨_, bracketed_eq_ok.mpr ⟨_, level, inside⟩, rfl⟩⟩
    | object level inside =>
      exact ⟨_, _, ⟨_, rfl, rfl⟩, map_eq_ok.mpr ⟨_, bracketed_eq_ok.mpr ⟨_, level, inside⟩, rfl⟩⟩

theorem any_eq_null {depth : Nat} :
    any depth input = .ok (.null, rest) ↔ null input = .ok ((), rest) := by
  rw [any_eq_ok, null, bind_eq_ok]
  simp only [peekValue, peekToken_eq_ok]
  constructor
  · intro kept
    generalize input.dropWhile Octet.isBlank = octets at kept
    cases kept with
    | null word => exact ⟨_, _, ⟨_, rfl, rfl⟩, word⟩
  · rintro ⟨octet, _, ⟨more, begins, rfl⟩, read⟩
    rw [begins]
    split_ifs at read with null
    · subst null
      exact .null read
    · have never : (refuse "unit" : Reader Unit).Yields fun _ => False := .refuse "unit"
      exact (never read).elim

theorem any_eq_string {depth : Nat} {value : String} :
    any depth input = .ok (.string value, rest) ↔
      ∃ more, input.dropWhile Octet.isBlank = Octet.quote :: more ∧
        stringBody more = .ok (value, rest) := by
  rw [any_eq_ok]
  constructor
  · intro kept
    generalize input.dropWhile Octet.isBlank = octets at kept
    cases kept with
    | string body => exact ⟨_, rfl, body⟩
  · rintro ⟨more, begins, body⟩
    rw [begins]
    exact .string body

theorem any_eq_single_null {depth : Nat} {name : String} :
    any depth input = .ok (.object [(name, .null)], rest) ↔
      ∃ more, input.dropWhile Octet.isBlank = Octet.openObject :: more ∧ 0 < depth ∧
        Single null name more () rest := by
  rw [any_eq_ok]
  constructor
  · intro kept
    generalize input.dropWhile Octet.isBlank = octets at kept
    cases kept with
    | object level inside =>
      obtain ⟨quote, label, colon, reads, closes⟩ := keptMembers_eq_single.mp inside
      exact ⟨_, rfl, level ▸ Nat.succ_pos _, quote, label, colon, any_eq_null.mp reads, closes⟩
  · rintro ⟨more, begins, level, quote, label, colon, reads, closes⟩
    obtain ⟨within, rfl⟩ := Nat.exists_eq_succ_of_ne_zero (Nat.ne_of_gt level)
    rw [begins]
    refine .object rfl (keptMembers_eq_single.mpr ?_)
    exact ⟨quote, label, colon, any_eq_null.mpr reads, closes⟩

end Reader

end PermissionSchema.Json
