import PermissionSchema.Export.Comment
/-!
Removing the marks of comment syntax, character by character.
-/
namespace PermissionSchema.Export

/-- A character that no mark has in it stays, and nothing around it depends on it. -/
theorem stripMarks_cons {c : Char} (slash : c ≠ '/') (star : c ≠ '*') (space : c ≠ ' ')
    (rest : List Char) : stripMarks (c :: rest) = c :: stripMarks rest := by
  have kept : fragments (c :: rest) = .kept c :: fragments rest := by
    rw [fragments] <;> simp [slash, star, space]
  rw [stripMarks, kept]
  rfl

theorem stripMarks_space {next : Char} (slash : next ≠ '/') (star : next ≠ '*')
    (rest : List Char) : stripMarks (' ' :: next :: rest) = ' ' :: stripMarks (next :: rest) := by
  have kept : fragments (' ' :: next :: rest) = .kept ' ' :: fragments (next :: rest) := by
    rw [fragments] <;> simp [slash, star]
  rw [stripMarks, kept]
  rfl

theorem stripMarks_append {front : List Char}
    (plain : ∀ c ∈ front, c ≠ '/' ∧ c ≠ '*' ∧ c ≠ ' ') (rest : List Char) :
    stripMarks (front ++ rest) = front ++ stripMarks rest := by
  induction front with
  | nil => rfl
  | cons c front ih =>
    obtain ⟨slash, star, space⟩ := plain c List.mem_cons_self
    rw [List.cons_append, stripMarks_cons slash star space,
      ih fun other member => plain other (List.mem_cons_of_mem _ member)]
    rfl

theorem stripMarks_plain {text : List Char} (plain : ∀ c ∈ text, c ≠ '/' ∧ c ≠ '*' ∧ c ≠ ' ') :
    stripMarks text = text := by
  have whole := stripMarks_append plain []
  rwa [List.append_nil, show stripMarks [] = [] from rfl, List.append_nil] at whole

end PermissionSchema.Export
