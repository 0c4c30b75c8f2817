import PermissionSchema.Wire.Varint
import Mathlib.Data.List.Basic
/-!
The shape of a varint: its last octet, and no other, is below 0x80. Readers take every such spelling
of a number of 64 bits in at most ten octets, the shortest and those with zeros above the number,
and take nothing else.
-/
namespace PermissionSchema.Wire

theorem varint_short {value : Nat} (short : value < 128) : varint value = [value.toUInt8] := by
  rw [varint, if_pos short]

theorem varint_long {value : Nat} (long : 128 ≤ value) :
    varint value = (value % 128 + 128).toUInt8 :: varint (value / 128) := by
  rw [varint, if_neg (by omega)]

theorem varint_length_pos (value : Nat) : 0 < (varint value).length := by
  rw [varint]
  split <;> simp

theorem varint_ends (value : Nat) :
    ∃ before last, varint value = before ++ [last] ∧
      (∀ octet ∈ before, 0x80 ≤ octet.toNat) ∧ last.toNat < 0x80 := by
  induction value using varint.induct with
  | case1 value short =>
    have same : value.toUInt8.toNat = value := Nat.mod_eq_of_lt (by omega)
    exact ⟨[], value.toUInt8, varint_short short, by simp, by omega⟩
  | case2 value long ih =>
    obtain ⟨before, last, split, large, small⟩ := ih
    refine ⟨(value % 128 + 128).toUInt8 :: before, last, ?_, ?_, small⟩
    · rw [varint_long (by omega), split]
      rfl
    · intro octet member
      rcases List.mem_cons.mp member with here | there
      · have same : octet.toNat = value % 128 + 128 := by
          rw [here]
          exact Nat.mod_eq_of_lt (by omega)
        omega
      · exact large octet there

/-- Behind its first octet a varint is either done or goes on to an octet below 0x80. -/
theorem varint_tail_ends {value : Nat} (long : 128 ≤ value) :
    ∃ before last, (varint value).drop 1 = before ++ [last] ∧
      (∀ octet ∈ before, 0x80 ≤ octet.toNat) ∧ last.toNat < 0x80 := by
  rw [varint_long long]
  exact varint_ends (value / 128)

/-- Octets that spell a number seven bits at a time, the low ones first. -/
inductive Septets : Nat → List UInt8 → Prop where
  | last {octet : UInt8} (small : octet.toNat < 128) : Septets octet.toNat [octet]
  | more {octet : UInt8} {high : Nat} {rest : List UInt8} (large : 128 ≤ octet.toNat)
      (later : Septets high rest) : Septets (high * 128 + (octet.toNat - 128)) (octet :: rest)

structure Varint (value : Nat) (octets : List UInt8) : Prop where
  septets : Septets value octets
  short : octets.length ≤ 10
  fits : value < 0x10000000000000000

theorem Septets.length_pos {value : Nat} {octets : List UInt8} (septets : Septets value octets) :
    0 < octets.length := by
  cases septets <;> exact Nat.succ_pos _

/-- A spelling ends by itself. -/
theorem Septets.eq_of_append {first second : Nat} {octets others behind beyond : List UInt8}
    (spelled : Septets first octets) (again : Septets second others)
    (same : octets ++ behind = others ++ beyond) : first = second ∧ behind = beyond := by
  induction spelled generalizing second others with
  | last small =>
    cases again with
    | last _ =>
      obtain ⟨rfl, after⟩ := List.cons.inj same
      exact ⟨rfl, after⟩
    | more large _ =>
      obtain ⟨rfl, _⟩ := List.cons.inj same
      omega
  | more large _ ih =>
    cases again with
    | last small =>
      obtain ⟨rfl, _⟩ := List.cons.inj same
      omega
    | more _ later =>
      obtain ⟨rfl, after⟩ := List.cons.inj same
      obtain ⟨high, rest⟩ := ih later after
      exact ⟨by rw [high], rest⟩

theorem septets_varint (value : Nat) : Septets value (varint value) := by
  induction value using varint.induct with
  | case1 value short =>
    have same : value.toUInt8.toNat = value := Nat.mod_eq_of_lt (by omega)
    have last := @Septets.last value.toUInt8 (by omega)
    rwa [same, ← varint_short short] at last
  | case2 value long ih =>
    have same : (value % 128 + 128).toUInt8.toNat = value % 128 + 128 :=
      Nat.mod_eq_of_lt (by omega)
    have more := @Septets.more (value % 128 + 128).toUInt8 _ _ (by omega) ih
    have whole : value / 128 * 128 + (value % 128 + 128 - 128) = value := by omega
    rwa [same, whole, ← varint_long (by omega)] at more

theorem length_varint_le (groups : Nat) {value : Nat} (small : value < Nat.pow 128 (groups + 1)) :
    (varint value).length ≤ groups + 1 := by
  induction groups generalizing value with
  | zero =>
    rw [varint_short small]
    exact Nat.le_refl 1
  | succ groups ih =>
    by_cases short : value < 128
    · rw [varint_short short]
      exact Nat.succ_pos _
    · have below : value / 128 < Nat.pow 128 (groups + 1) := Nat.div_lt_of_lt_mul (by
        rw [Nat.mul_comm]
        exact small)
      rw [varint_long (by omega), List.length_cons]
      exact Nat.succ_le_succ (ih below)

theorem varint_spells {value : Nat} (fits : value < 0x10000000000000000) :
    Varint value (varint value) where
  septets := septets_varint value
  short := length_varint_le 9 (Nat.lt_of_lt_of_le fits (by decide))
  fits := fits

theorem septets_of_varintUpTo {groups value : Nat} {input after : List UInt8}
    (read : varintUpTo groups input = .ok (value, after)) :
    ∃ octets, input = octets ++ after ∧ Septets value octets ∧ octets.length ≤ groups + 1 ∧
      value < 2 * Nat.pow 128 groups := by
  induction groups generalizing input value with
  | zero =>
    cases input with
    | nil => cases read
    | cons octet rest =>
      by_cases small : octet < 2
      · rw [varintUpTo, if_pos small] at read
        cases read
        have bit : octet.toNat < 2 := UInt8.lt_iff_toNat_lt.mp small
        exact ⟨[octet], rfl, .last (by omega), Nat.le_refl 1, bit⟩
      · rw [varintUpTo, if_neg small] at read
        cases read
  | succ groups ih =>
    cases input with
    | nil => cases read
    | cons octet rest =>
      have wide : Nat.pow 128 (groups + 1) = Nat.pow 128 groups * 128 := rfl
      have some : 0 < Nat.pow 128 groups := Nat.pow_pos (by decide)
      by_cases small : octet < 0x80
      · rw [varintUpTo, if_pos small] at read
        cases read
        have last : octet.toNat < 128 := UInt8.lt_iff_toNat_lt.mp small
        exact ⟨[octet], rfl, .last last, Nat.succ_pos _, by omega⟩
      · have large : 128 ≤ octet.toNat :=
          Nat.le_of_not_lt fun last => small (UInt8.lt_iff_toNat_lt.mpr last)
        rw [varintUpTo, if_neg small] at read
        cases later : varintUpTo groups rest with
        | error fault =>
          rw [later] at read
          cases read
        | ok result =>
          obtain ⟨high, next⟩ := result
          rw [later] at read
          obtain ⟨rfl, rfl⟩ := Prod.mk.inj (Except.ok.inj read)
          obtain ⟨octets, split, septets, short, fits⟩ := ih later
          have narrow := octet.toNat_lt
          exact ⟨octet :: octets, by rw [split]; rfl, .more large septets,
            Nat.succ_le_succ short, by omega⟩

theorem varintUpTo_septets {groups value : Nat} {octets : List UInt8} (after : List UInt8)
    (septets : Septets value octets) (short : octets.length ≤ groups + 1)
    (fits : value < 2 * Nat.pow 128 groups) :
    varintUpTo groups (octets ++ after) = .ok (value, after) := by
  induction septets generalizing groups with
  | @last octet small =>
    cases groups with
    | zero => exact if_pos (UInt8.lt_iff_toNat_lt.mpr fits)
    | succ groups => exact if_pos (UInt8.lt_iff_toNat_lt.mpr small)
  | @more octet high rest large later ih =>
    have one := later.length_pos
    cases groups with
    | zero =>
      rw [List.length_cons] at short
      omega
    | succ groups =>
      have wide : Nat.pow 128 (groups + 1) = Nat.pow 128 groups * 128 := rfl
      have tail := @ih groups (Nat.le_of_succ_le_succ short) (by omega)
      have continues : ¬octet < 0x80 := fun small =>
        Nat.not_lt.mpr large (UInt8.lt_iff_toNat_lt.mp small)
      rw [List.cons_append, varintUpTo, if_neg continues, tail]

theorem readVarint_eq_ok_iff {input after : List UInt8} {value : Nat} :
    readVarint input = .ok (value, after) ↔ ∃ octets, input = octets ++ after ∧ Varint value octets := by
  have bound : 2 * Nat.pow 128 9 = 0x10000000000000000 := by decide
  constructor
  · intro read
    obtain ⟨octets, split, septets, short, fits⟩ := septets_of_varintUpTo read
    rw [bound] at fits
    exact ⟨octets, split, septets, short, fits⟩
  · intro stands
    obtain ⟨octets, split, spelled⟩ := stands
    have fits := spelled.fits
    rw [← bound] at fits
    rw [split]
    exact varintUpTo_septets after spelled.septets spelled.short fits

end PermissionSchema.Wire
