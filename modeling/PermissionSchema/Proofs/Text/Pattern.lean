import Mathlib.Data.List.Basic
/-!
Patterns of characters, and what they match at the start of a text. A pattern may match in several
ways; they are told in the order in which they are preferred.
-/
namespace PermissionSchema.Text

/-- A pattern of characters. Of two alternatives the first is preferred. -/
inductive Pattern where
  | empty
  | char (c : Char)
  | next (first second : Pattern)
  | either (first second : Pattern)

namespace Pattern

def optional (pattern : Pattern) : Pattern :=
  .either pattern .empty

/-- Everything that a pattern matches at the start of a text, in the order of preference. -/
def candidates : Pattern → List Char → List (List Char)
  | .empty, _ => [[]]
  | .char c, text => if text.head? = some c then [[c]] else []
  | .next first second, text =>
    (first.candidates text).flatMap fun start =>
      (second.candidates (text.drop start.length)).map (start ++ ·)
  | .either first second, text => first.candidates text ++ second.candidates text

def preferred? (pattern : Pattern) (text : List Char) : Option (List Char) :=
  (pattern.candidates text).head?

def language : Pattern → List (List Char)
  | .empty => [[]]
  | .char c => [[c]]
  | .next first second =>
    first.language.flatMap fun start => second.language.map (start ++ ·)
  | .either first second => first.language ++ second.language

theorem mem_language_of_mem_candidates {pattern : Pattern} {text found : List Char}
    (matched : found ∈ pattern.candidates text) : found ∈ pattern.language := by
  induction pattern generalizing text found with
  | empty => exact matched
  | char c =>
    rw [candidates] at matched
    split at matched
    · exact matched
    · cases matched
  | next first second ihFirst ihSecond =>
    simp only [candidates, language, List.mem_flatMap, List.mem_map] at matched ⊢
    obtain ⟨start, begins, finish, ends, rfl⟩ := matched
    exact ⟨start, ihFirst begins, finish, ihSecond ends, rfl⟩
  | either first second ihFirst ihSecond =>
    simp only [candidates, language, List.mem_append] at matched ⊢
    exact matched.imp ihFirst ihSecond

theorem mem_language_of_preferred {pattern : Pattern} {text found : List Char}
    (preferred : pattern.preferred? text = some found) : found ∈ pattern.language :=
  mem_language_of_mem_candidates (List.mem_of_mem_head? preferred)

end Pattern

end PermissionSchema.Text
