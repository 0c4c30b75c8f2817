import PermissionSchema.Document.Schema
import Mathlib.Data.List.TakeWhile
/-!
Qualified names, split and put together again. However many slashes a name has, nothing of it is
lost but a slash in front of it.
-/
namespace PermissionSchema.Document

theorem splitName_of_not_mem {name : String} (none : '/' ∉ name.toList) :
    splitName name = ("", name) := by
  have behind : name.toList.dropWhile (· ≠ '/') = [] := by
    rw [List.dropWhile_eq_nil_iff]
    intro letter member
    exact decide_eq_true fun slash => none (slash ▸ member)
  simp only [splitName, behind]

theorem splitName_append {front : String} (first : '/' ∉ front.toList) (rest : String) :
    splitName (front ++ "/" ++ rest) = (front, rest) := by
  have letters : (front ++ "/" ++ rest).toList = front.toList ++ '/' :: rest.toList := by simp
  have passed : ∀ letter ∈ front.toList, decide (letter ≠ '/') = true := by
    intro letter member
    exact decide_eq_true fun slash => first (slash ▸ member)
  have before : (front ++ "/" ++ rest).toList.takeWhile (· ≠ '/') = front.toList := by
    rw [letters, List.takeWhile_append_of_pos passed]
    simp
  have behind : (front ++ "/" ++ rest).toList.dropWhile (· ≠ '/') = '/' :: rest.toList := by
    rw [letters, List.dropWhile_append_of_pos passed]
    simp
  simp only [splitName, before, behind, String.ofList_toList]

theorem slash_cases (name : String) :
    '/' ∉ name.toList ∨
      ∃ front rest : String, '/' ∉ front.toList ∧ name = front ++ "/" ++ rest := by
  by_cases slash : '/' ∈ name.toList
  · right
    obtain ⟨front, rest, split, first⟩ := List.eq_append_cons_of_mem slash
    refine ⟨String.ofList front, String.ofList rest, ?_, ?_⟩
    · rwa [String.toList_ofList]
    · apply String.toList_inj.mp
      simp [split]
  · exact Or.inl slash

def Rooted (name : String) : Prop :=
  name.toList.head? = some '/'

instance (name : String) : Decidable (Rooted name) :=
  inferInstanceAs (Decidable (name.toList.head? = some '/'))

theorem rooted_append (rest : String) : Rooted ("/" ++ rest) := by
  rw [Rooted, String.toList_append]
  rfl

theorem exists_of_rooted {name : String} (rooted : Rooted name) : ∃ rest, name = "/" ++ rest := by
  obtain ⟨letters, split⟩ := List.head?_eq_some_iff.mp rooted
  exists String.ofList letters
  apply String.toList_inj.mp
  simp [split]

def rejoined (name : String) : String :=
  qualifiedName (splitName name).1 (splitName name).2

theorem rejoined_rooted (rest : String) : rejoined ("/" ++ rest) = rest := by
  have split : splitName ("/" ++ rest) = ("", rest) := @splitName_append "" nofun rest
  rw [rejoined, split]
  rfl

theorem rejoined_of_not_rooted {name : String} (unrooted : ¬Rooted name) : rejoined name = name := by
  rcases slash_cases name with none | ⟨front, rest, first, shape⟩
  · rw [rejoined, splitName_of_not_mem none]
    rfl
  · have some : front ≠ "" := by
      intro empty
      exact unrooted (by rw [shape, empty]; exact rooted_append rest)
    rw [rejoined, shape, splitName_append first, qualifiedName, if_neg some]

/-- Splitting is undone by putting together for those names that have no slash in front, and only
for those. -/
theorem rejoined_eq_self_iff (name : String) : rejoined name = name ↔ ¬Rooted name := by
  constructor
  · intro same rooted
    obtain ⟨rest, shape⟩ := exists_of_rooted rooted
    rw [shape, rejoined_rooted] at same
    have lengths := congrArg (fun text => text.toList.length) same
    simp at lengths
  · exact rejoined_of_not_rooted

/-- A name answers to itself; one with a slash in front answers to what stands behind it instead. -/
def Answers (name asked : String) : Prop :=
  name = "/" ++ asked ∨ name = asked ∧ ¬Rooted asked

instance (name asked : String) : Decidable (Answers name asked) :=
  inferInstanceAs (Decidable (name = "/" ++ asked ∨ name = asked ∧ ¬Rooted asked))

theorem rejoined_eq_iff (name asked : String) : rejoined name = asked ↔ Answers name asked := by
  by_cases rooted : Rooted name
  · obtain ⟨rest, shape⟩ := exists_of_rooted rooted
    rw [shape, rejoined_rooted]
    constructor
    · intro same
      exact Or.inl (same ▸ rfl)
    · intro answers
      rcases answers with same | ⟨same, unrooted⟩
      · exact (String.append_right_inj "/").mp same
      · exact absurd (same ▸ rooted_append rest) unrooted
  · rw [rejoined_of_not_rooted rooted]
    constructor
    · intro same
      exact Or.inr ⟨same, same ▸ rooted⟩
    · intro answers
      rcases answers with same | ⟨same, _⟩
      · exact absurd (same ▸ rooted_append asked) rooted
      · exact same

end PermissionSchema.Document
