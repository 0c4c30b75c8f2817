import PermissionSchema.Text.WhiteSpace
/-!
Trimming around a text that has no white space at its ends: it stays whole, and so does all that
stands between it and other such characters. Of any text trimming leaves all that is no white space.
-/
namespace PermissionSchema.Text

def Solid (text : List Char) : Prop :=
  (∃ first ∈ text.head?, isWhiteSpace first = false) ∧
    ∃ last ∈ text.getLast?, isWhiteSpace last = false

theorem Solid.reverse {text : List Char} (solid : Solid text) : Solid text.reverse := by
  obtain ⟨first, last⟩ := solid
  exact ⟨by rwa [List.head?_reverse], by rwa [List.getLast?_reverse]⟩

theorem Solid.append {first last : List Char} (start : Solid first) (finish : Solid last)
    (between : List Char) : Solid (first ++ (between ++ last)) := by
  obtain ⟨⟨head, atHead, solidHead⟩, _⟩ := start
  obtain ⟨_, final, atFinal, solidFinal⟩ := finish
  refine ⟨⟨head, ?_, solidHead⟩, final, ?_, solidFinal⟩
  · rw [List.head?_append, atHead]
    rfl
  · rw [List.getLast?_append, List.getLast?_append, atFinal]
    rfl

theorem dropWhile_append_solid (before after : List Char) {text : List Char} (solid : Solid text) :
    (before ++ (text ++ after)).dropWhile isWhiteSpace =
      before.dropWhile isWhiteSpace ++ (text ++ after) := by
  obtain ⟨⟨first, atFirst, solidFirst⟩, _⟩ := solid
  have keeps : (text ++ after).dropWhile isWhiteSpace = text ++ after := by
    cases text with
    | nil => cases atFirst
    | cons head rest =>
      cases atFirst
      rw [List.cons_append, List.dropWhile_cons_of_neg (by simp [solidFirst])]
  rw [List.dropWhile_append, keeps]
  split
  next empty => rw [List.isEmpty_iff.mp empty, List.nil_append]
  next => rfl

/-- Trimming only takes white space from outside a solid text. -/
theorem trim_append_solid (before after : List Char) {text : List Char} (solid : Solid text) :
    trim (before ++ (text ++ after)) =
      before.dropWhile isWhiteSpace ++
        (text ++ (after.reverse.dropWhile isWhiteSpace).reverse) := by
  rw [trim, dropWhile_append_solid before after solid]
  simp only [List.reverse_append, List.append_assoc]
  rw [dropWhile_append_solid _ _ solid.reverse]
  simp only [List.reverse_append, List.reverse_reverse, List.append_assoc]

theorem filter_dropWhile {keeps : Char → Bool}
    (white : ∀ c, isWhiteSpace c = true → keeps c = false) (text : List Char) :
    (text.dropWhile isWhiteSpace).filter keeps = text.filter keeps := by
  induction text with
  | nil => rfl
  | cons c rest ih =>
    by_cases blank : isWhiteSpace c = true
    · rw [List.dropWhile_cons_of_pos blank, ih, List.filter_cons_of_neg (by simp [white c blank])]
    · rw [List.dropWhile_cons_of_neg blank]

theorem filter_trim {keeps : Char → Bool}
    (white : ∀ c, isWhiteSpace c = true → keeps c = false) (text : List Char) :
    (trim text).filter keeps = text.filter keeps := by
  unfold trim
  rw [List.filter_reverse, filter_dropWhile white, List.filter_reverse, List.reverse_reverse,
    filter_dropWhile white]

theorem trim_append_white (text : List Char) {c : Char} (white : isWhiteSpace c = true) :
    trim (text ++ [c]) = trim text := by
  rw [trim, trim, List.dropWhile_append]
  split
  next empty =>
    rw [List.isEmpty_iff.mp empty, List.dropWhile_cons_of_pos white]
    rfl
  next => rw [List.reverse_append, List.reverse_singleton, List.singleton_append,
    List.dropWhile_cons_of_pos white]

theorem trim_cons_white {c : Char} (white : isWhiteSpace c = true) (text : List Char) :
    trim (c :: text) = trim text := by
  rw [trim, List.dropWhile_cons_of_pos white, trim]

end PermissionSchema.Text
