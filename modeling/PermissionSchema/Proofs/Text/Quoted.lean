import PermissionSchema.Text.Quoted
import Mathlib.Data.List.Basic
import Mathlib.Tactic.SplitIfs
/-!
Quoted names end by themselves: two of them that begin alike, whatever stands behind them, are
quotations of one name. For no character is shown as the beginning of another, and none is shown so
that it begins with the closing quote.
-/
namespace PermissionSchema.Text

/-- Writings that end by themselves. -/
def SelfDelimiting {α : Type} (write : α → List Char) : Prop :=
  ∀ ⦃first second : α⦄ ⦃behind beyond : List Char⦄,
    write first ++ behind = write second ++ beyond → first = second ∧ behind = beyond

/-- In a row, too, writings end by themselves before a character with which none of them begins. -/
theorem SelfDelimiting.closed {α : Type} {write : α → List Char} (delimits : SelfDelimiting write)
    {stop : Char} (begins : ∀ value, ∃ c rest, write value = c :: rest ∧ c ≠ stop) :
    SelfDelimiting fun values : List α => values.flatMap write ++ [stop] := by
  intro first
  induction first with
  | nil =>
    intro second behind beyond same
    cases second with
    | nil => exact ⟨rfl, (List.cons.inj same).2⟩
    | cons value rest =>
      obtain ⟨c, more, written, other⟩ := begins value
      simp only [List.flatMap_cons, written] at same
      exact absurd (List.cons.inj same).1.symm other
  | cons value rest ih =>
    intro second behind beyond same
    cases second with
    | nil =>
      obtain ⟨c, more, written, other⟩ := begins value
      simp only [List.flatMap_cons, written] at same
      exact absurd (List.cons.inj same).1 other
    | cons value' rest' =>
      simp only [List.flatMap_cons, List.append_assoc] at same ih
      obtain ⟨head, others⟩ := delimits same
      obtain ⟨tail, after⟩ := ih others
      exact ⟨by rw [head, tail], after⟩

def signs : List (Char × Char) :=
  [('"', '"'), ('\\', '\\'), ('\t', 't'), ('\r', 'r'), ('\n', 'n'), ('\x00', '0')]

inductive Shown : Char → List Char → Prop where
  | plain {c : Char} (quote : c ≠ '"') (backslash : c ≠ '\\') : Shown c [c]
  | sign {c sign : Char} (known : (c, sign) ∈ signs) : Shown c ['\\', sign]
  | code (c : Char) :
      Shown c ('\\' :: 'u' :: '\x7b' :: (Nat.toDigits 16 c.toNat ++ ['\x7d']))

theorem shown_quotedChar (c : Char) : Shown c (quotedChar c) := by
  unfold quotedChar
  split_ifs with quote backslash tab carriage line zero printable
  · exact .sign (by simp [signs, quote])
  · exact .sign (by simp [signs, backslash])
  · exact .sign (by simp [signs, tab])
  · exact .sign (by simp [signs, carriage])
  · exact .sign (by simp [signs, line])
  · have null : c = '\x00' := Char.toNat_inj.mp zero
    exact .sign (by simp [signs, null])
  · exact .plain quote backslash
  · exact .code c

theorem digitChar_inj {first second : Nat} (small : first < 16) (below : second < 16)
    (same : Nat.digitChar first = Nat.digitChar second) : first = second := by
  have all : ∀ first < 16, ∀ second < 16,
      Nat.digitChar first = Nat.digitChar second → first = second := by decide
  exact all first small second below same

theorem toDigits_inj {first second : Nat}
    (same : Nat.toDigits 16 first = Nat.toDigits 16 second) : first = second := by
  induction first using Nat.strongRecOn generalizing second with
  | ind first ih =>
    rw [Nat.toDigits_eq_if (by decide), Nat.toDigits_eq_if (n := second) (by decide)] at same
    have some (value : Nat) : 0 < (Nat.toDigits 16 value).length := Nat.length_toDigits_pos
    split_ifs at same with small below below
    · exact digitChar_inj small below (List.cons.inj same).1
    · have lengths := congrArg List.length same
      have more := some (second / 16)
      simp only [List.length_append, List.length_singleton] at lengths
      omega
    · have lengths := congrArg List.length same
      have more := some (first / 16)
      simp only [List.length_append, List.length_singleton] at lengths
      omega
    · obtain ⟨high, low⟩ := List.append_inj' same rfl
      have quotients := ih (first / 16) (by omega) high
      have remainders := digitChar_inj (Nat.mod_lt _ (by decide)) (Nat.mod_lt _ (by decide))
        (List.cons.inj low).1
      omega

theorem closing_not_mem_toDigits (value : Nat) : '\x7d' ∉ Nat.toDigits 16 value := by
  induction value using Nat.strongRecOn with
  | ind value ih =>
    rw [Nat.toDigits_eq_if (by decide)]
    have other (digit : Nat) : '\x7d' ≠ Nat.digitChar digit := (Nat.digitChar_ne _ (by decide)).symm
    split
    · simp [other]
    · simp [other, ih (value / 16) (by omega)]

theorem eq_of_append_cons {stop : Char} {first second behind beyond : List Char}
    (absent : stop ∉ first) (missing : stop ∉ second)
    (same : first ++ stop :: behind = second ++ stop :: beyond) :
    first = second ∧ behind = beyond := by
  have front (text rest : List Char) (none : stop ∉ text) :
      (text ++ stop :: rest).takeWhile (· ≠ stop) = text := by
    rw [List.takeWhile_append_of_pos, List.takeWhile_cons_of_neg (by simp), List.append_nil]
    intro c among
    simpa using fun equal : c = stop => none (equal ▸ among)
  have texts : first = second := by
    rw [← front first behind absent, same, front second beyond missing]
  subst texts
  exact ⟨rfl, (List.cons.inj (List.append_cancel_left same)).2⟩

theorem Shown.begins {c : Char} {text : List Char} (shown : Shown c text) :
    ∃ first rest, text = first :: rest ∧ first ≠ '"' := by
  cases shown with
  | plain quote _ => exact ⟨c, [], rfl, quote⟩
  | sign _ => exact ⟨'\\', _, rfl, by decide⟩
  | code => exact ⟨'\\', _, rfl, by decide⟩

/-- Signs are told apart, and none is the one that announces a code. -/
theorem eq_of_signs {c d sign : Char} (known : (c, sign) ∈ signs) (other : (d, sign) ∈ signs) :
    c = d ∧ sign ≠ 'u' := by
  have apart : ∀ pair ∈ signs, ∀ other ∈ signs, pair.2 = other.2 →
      pair.1 = other.1 ∧ pair.2 ≠ 'u' := by decide
  exact apart _ known _ other rfl

theorem Shown.eq_of_append {c d : Char} {first second behind beyond : List Char}
    (shown : Shown c first) (other : Shown d second)
    (same : first ++ behind = second ++ beyond) : c = d ∧ behind = beyond := by
  cases shown with
  | plain _ backslash =>
    cases other with
    | plain _ _ => exact List.cons.inj same
    | sign _ => exact absurd (List.cons.inj same).1 backslash
    | code => exact absurd (List.cons.inj same).1 backslash
  | sign known =>
    cases other with
    | plain _ backslash => exact absurd (List.cons.inj same).1.symm backslash
    | sign known' =>
      obtain ⟨equal, after⟩ := List.cons.inj (List.cons.inj same).2
      exact ⟨(eq_of_signs known (equal ▸ known')).1, after⟩
    | code =>
      obtain ⟨equal, _⟩ := List.cons.inj (List.cons.inj same).2
      exact absurd equal (eq_of_signs known known).2
  | code =>
    cases other with
    | plain _ backslash => exact absurd (List.cons.inj same).1.symm backslash
    | sign known =>
      obtain ⟨equal, _⟩ := List.cons.inj (List.cons.inj same).2
      exact absurd equal.symm (eq_of_signs known known).2
    | code =>
      simp only [List.cons_append, List.append_assoc, List.cons.injEq, true_and,
        List.nil_append] at same
      obtain ⟨digits, after⟩ := eq_of_append_cons (closing_not_mem_toDigits c.toNat)
        (closing_not_mem_toDigits d.toNat) same
      exact ⟨Char.toNat_inj.mp (toDigits_inj digits), after⟩

theorem selfDelimiting_quotedChar : SelfDelimiting quotedChar :=
  fun c d _ _ same => (shown_quotedChar c).eq_of_append (shown_quotedChar d) same

theorem selfDelimiting_quoted : SelfDelimiting quoted := by
  intro first second behind beyond same
  have inside := selfDelimiting_quotedChar.closed fun c => (shown_quotedChar c).begins
  exact inside (List.cons.inj same).2

end PermissionSchema.Text
