import PermissionSchema.Proofs.Comment.Prose
import PermissionSchema.Proofs.Text.Pattern
/-!
The marks of comment syntax as a pattern. A text is cut from left to right: where the pattern
matches, the match that it prefers is a mark, and where it does not, a character is kept. What the
removal of marks takes away and what it leaves follows from that.
-/
namespace PermissionSchema.Export

open PermissionSchema.Text

/-- The marks, in the order in which they are tried: an opening of one or two stars, two slashes, a
star before a space, and a slash that may have a star before it. -/
def decoration : Pattern :=
  let slash := Pattern.char '/'
  let star := Pattern.char '*'
  let space := Pattern.char ' '
  .either (.next slash (.next star (.next star.optional space.optional)))
    (.either (.next slash (.next slash space.optional))
      (.either (.next space.optional (.next star space))
        (.next space.optional (.next star.optional slash))))

example : decoration.preferred? "/** * /".toList = some "/** ".toList := by decide

/-- Cutting a text from left to right: a match is taken where there is one, and where there is none
a character is kept. -/
inductive Scans (pattern : Pattern) : List Char → List Fragment → Prop where
  | done : Scans pattern [] []
  | mark {text found rest : List Char} {pieces : List Fragment} (split : text = found ++ rest)
      (nonempty : found ≠ []) (preferred : pattern.preferred? text = some found)
      (later : Scans pattern rest pieces) : Scans pattern text (.mark found :: pieces)
  | kept {c : Char} {rest : List Char} {pieces : List Fragment}
      (unmatched : pattern.preferred? (c :: rest) = none) (later : Scans pattern rest pieces) :
      Scans pattern (c :: rest) (.kept c :: pieces)

namespace Scans

variable {pattern : Pattern} {text : List Char} {pieces : List Fragment}

theorem unique (scans : Scans pattern text pieces) {others : List Fragment}
    (again : Scans pattern text others) : others = pieces := by
  induction scans generalizing others with
  | done =>
    cases again with
    | done => rfl
    | mark split nonempty _ _ => exact absurd (List.append_eq_nil_iff.mp split.symm).1 nonempty
  | mark split nonempty preferred _ ih =>
    cases again with
    | done => exact absurd (List.append_eq_nil_iff.mp split.symm).1 nonempty
    | mark divided _ same later =>
      cases preferred.symm.trans same
      cases List.append_cancel_left (divided.symm.trans split)
      rw [ih later]
    | kept unmatched _ => cases preferred.symm.trans unmatched
  | kept unmatched _ ih =>
    cases again with
    | mark _ _ preferred _ => cases preferred.symm.trans unmatched
    | kept _ later => rw [ih later]

theorem flatMap_text (scans : Scans pattern text pieces) : pieces.flatMap Fragment.text = text := by
  induction scans with
  | done => rfl
  | mark split _ _ _ ih =>
    rw [List.flatMap_cons, ih, split]
    rfl
  | kept _ _ ih =>
    rw [List.flatMap_cons, ih]
    rfl

/-- Behind some of its fragments a text is cut as if it began there. -/
theorem behind {before after : List Fragment} (scans : Scans pattern text (before ++ after)) :
    Scans pattern (after.flatMap Fragment.text) after := by
  induction before generalizing text with
  | nil =>
    rw [List.nil_append] at scans
    rwa [scans.flatMap_text]
  | cons piece before ih =>
    cases scans with
    | mark _ _ _ later => exact ih later
    | kept _ later => exact ih later

theorem mem_language (scans : Scans pattern text pieces) {mark : List Char}
    (cut : .mark mark ∈ pieces) : mark ∈ pattern.language := by
  obtain ⟨before, after, rfl⟩ := List.append_of_mem cut
  have here := scans.behind
  generalize List.flatMap _ (.mark mark :: after) = rest at here
  cases here with
  | mark _ _ preferred _ => exact Pattern.mem_language_of_preferred preferred

theorem unmatched {before after : List Fragment} {c : Char}
    (scans : Scans pattern text (before ++ .kept c :: after)) :
    pattern.preferred? (c :: after.flatMap Fragment.text) = none := by
  cases scans.behind with
  | kept none _ => exact none

end Scans

/-- Where no mark begins: at any character but a slash, unless what follows completes one. -/
theorem unmatched_iff (c : Char) (rest : List Char) :
    decoration.preferred? (c :: rest) = none ↔
      c ≠ '/' ∧ (c = '*' → ¬[' '] <+: rest ∧ ¬['/'] <+: rest) ∧
        (c = ' ' → ¬['/'] <+: rest ∧ ¬['*', ' '] <+: rest ∧ ¬['*', '/'] <+: rest) := by
  -- two characters behind the first tell of every mark
  rcases rest with _ | ⟨second, _ | ⟨third, more⟩⟩ <;>
    simp [decoration, Pattern.preferred?, Pattern.candidates, Pattern.optional] <;> grind

theorem getElem?_zero_ne {c : Char} {rest : List Char} (other : ∀ more, rest = c :: more → False) :
    rest[0]? ≠ some c := by
  cases rest with
  | nil => nofun
  | cons first more =>
    rintro ⟨⟩
    exact other more rfl

/-- The fragments of a comment are what the pattern of marks cuts it into. -/
theorem scans_fragments (comment : List Char) : Scans decoration comment (fragments comment) := by
  fun_induction fragments comment with
  -- these rows show all that the pattern looks at
  | case1 _ ih | case3 _ ih | case5 _ ih | case7 _ ih | case8 _ ih | case9 _ ih | case10 _ ih
  | case11 _ ih => exact .mark rfl (List.cons_ne_nil _ _) rfl ih
  -- in these the mark would be longer if its next character came
  | case2 rest space ih | case6 rest space ih =>
    have noSpace := getElem?_zero_ne space
    refine .mark rfl (List.cons_ne_nil _ _) ?_ ih
    simp [decoration, Pattern.preferred?, Pattern.candidates, Pattern.optional, noSpace]
  | case4 rest _ star space ih =>
    have noStar := getElem?_zero_ne star
    have noSpace := getElem?_zero_ne space
    refine .mark rfl (List.cons_ne_nil _ _) ?_ ih
    simp [decoration, Pattern.preferred?, Pattern.candidates, Pattern.optional, noStar, noSpace]
  | case12 rest _ _ _ star _ slash ih =>
    have noStar := getElem?_zero_ne star
    have noSlash := getElem?_zero_ne slash
    refine .mark rfl (List.cons_ne_nil _ _) ?_ ih
    simp [decoration, Pattern.preferred?, Pattern.candidates, Pattern.optional, noStar, noSlash]
  | case13 c rest _ _ _ _ _ _ spaceStar starSpace spaceClose close spaceSlash slash ih =>
    refine .kept ((unmatched_iff c rest).mpr ⟨slash, fun star => ⟨?_, ?_⟩, fun space => ?_⟩) ih
    · rintro ⟨more, same⟩
      exact starSpace more star same.symm
    · rintro ⟨more, same⟩
      exact close more star same.symm
    · refine ⟨?_, ?_, ?_⟩
      · rintro ⟨more, same⟩
        exact spaceSlash more space same.symm
      · rintro ⟨more, same⟩
        exact spaceStar more space same.symm
      · rintro ⟨more, same⟩
        exact spaceClose more space same.symm
  | case14 => exact .done

def markTexts : List String :=
  ["/*", "/**", "/* ", "/** ", "//", "// ", "* ", " * ", "/", " /", "*/", " */"]

theorem mem_markTexts {comment mark : List Char} (cut : .mark mark ∈ fragments comment) :
    String.ofList mark ∈ markTexts := by
  have written : ∀ found ∈ decoration.language, String.ofList found ∈ markTexts := by decide
  exact written mark ((scans_fragments comment).mem_language cut)

def isBare (c : Char) : Bool :=
  c ∉ ['/', '*', ' ']

theorem signs_of_mark {comment mark : List Char} (cut : .mark mark ∈ fragments comment) :
    mark ≠ [] ∧ ∀ c ∈ mark, isBare c = false := by
  have signs : decoration.language.all (fun found =>
      !found.isEmpty && found.all fun c => !isBare c) = true := by decide
  have known := List.all_eq_true.mp signs mark ((scans_fragments comment).mem_language cut)
  simpa using known

theorem unmatched_of_kept {comment : List Char} {before after : List Fragment} {c : Char}
    (split : fragments comment = before ++ .kept c :: after) :
    decoration.preferred? (c :: after.flatMap Fragment.text) = none :=
  (split ▸ scans_fragments comment).unmatched

theorem head?_of_kept_star {comment : List Char} {before after : List Fragment}
    (split : fragments comment = before ++ .kept '*' :: after) :
    ∀ c ∈ (after.flatMap Fragment.text).head?, c ≠ ' ' ∧ c ≠ '/' := by
  obtain ⟨space, slash⟩ := ((unmatched_iff _ _).mp (unmatched_of_kept split)).2.1 rfl
  intro c first
  obtain ⟨more, begins⟩ := List.head?_eq_some_iff.mp first
  exact ⟨fun same => space ⟨more, by rw [begins, same]; rfl⟩,
    fun same => slash ⟨more, by rw [begins, same]; rfl⟩⟩

theorem exists_kept_of_remains {pieces : List Fragment} {front back : List Char} {c : Char}
    (remains : pieces.flatMap Fragment.remains = front ++ c :: back) :
    ∃ before after, pieces = before ++ .kept c :: after ∧
      after.flatMap Fragment.remains = back := by
  induction pieces generalizing front with
  | nil => simp at remains
  | cons piece pieces ih =>
    cases piece with
    | mark text =>
      obtain ⟨before, after, rfl, left⟩ := ih remains
      exact ⟨.mark text :: before, after, rfl, left⟩
    | kept other =>
      rw [List.flatMap_cons, Fragment.remains, List.singleton_append] at remains
      cases front with
      | nil =>
        obtain ⟨rfl, left⟩ := List.cons.inj remains
        exact ⟨[], pieces, rfl, left⟩
      | cons _ front =>
        obtain ⟨before, after, rfl, left⟩ := ih (List.cons.inj remains).2
        exact ⟨.kept other :: before, after, rfl, left⟩

theorem slash_not_mem_stripMarks (comment : List Char) : '/' ∉ stripMarks comment := by
  intro member
  obtain ⟨front, back, split⟩ := List.append_of_mem member
  obtain ⟨before, after, pieces, _⟩ := exists_kept_of_remains split
  exact ((unmatched_iff _ _).mp (unmatched_of_kept pieces)).1 rfl

/-- Where a star comes to stand before a space, another star stood behind it. -/
theorem stars_of_star_space {comment : List Char} (part : ['*', ' '] <:+: stripMarks comment) :
    ['*', '*'] <:+: comment := by
  obtain ⟨front, back, split⟩ := part
  rw [List.append_assoc] at split
  obtain ⟨before, after, pieces, left⟩ := exists_kept_of_remains split.symm
  have behind := head?_of_kept_star pieces
  have whole := flatMap_text_fragments comment
  rw [pieces, List.flatMap_append, List.flatMap_cons] at whole
  cases after with
  | nil => cases left
  | cons piece after =>
    cases piece with
    | kept c =>
      obtain ⟨rfl, _⟩ := List.cons.inj left
      exact absurd rfl (behind ' ' rfl).1
    | mark found =>
      have cut : .mark found ∈ fragments comment := by simp [pieces]
      obtain ⟨nonempty, signs⟩ := signs_of_mark cut
      obtain ⟨c, more, rfl⟩ := List.exists_cons_of_ne_nil nonempty
      obtain ⟨space, slash⟩ := behind c rfl
      have star : c = '*' := by simpa [isBare, space, slash] using signs c List.mem_cons_self
      subst star
      exact ⟨_, _, (List.append_assoc ..).trans whole⟩

theorem filter_isBare_stripMarks (comment : List Char) :
    (stripMarks comment).filter isBare = comment.filter isBare := by
  have whole := flatMap_text_fragments comment
  conv_rhs => rw [← whole]
  rw [stripMarks, List.filter_flatMap, List.filter_flatMap]
  apply List.flatMap_congr
  intro piece among
  cases piece with
  | kept c => rfl
  | mark text =>
    have none : text.filter isBare = [] := by
      simpa [List.filter_eq_nil_iff] using (signs_of_mark among).2
    exact none.symm

theorem stripMarks_eq_self_iff (comment : List Char) :
    stripMarks comment = comment ↔ Prose comment :=
  ⟨fun same => (trim_stripMarks_iff comment).mp (congrArg trim same), stripMarks_prose⟩

/-- What it means that a text is left of another by cutting it into pieces and leaving out the
marks: how it is cut, what the marks are, and what is left. -/
structure LeftOf (comment left : List Char) (pieces : List Fragment) : Prop where
  cut : ∀ others, Scans decoration comment others ↔ others = pieces
  whole : pieces.flatMap Fragment.text = comment
  remains : pieces.flatMap Fragment.remains = left
  marks : ∀ mark, .mark mark ∈ pieces → String.ofList mark ∈ markTexts
  stars : ∀ before after, pieces = before ++ .kept '*' :: after →
    ∀ c ∈ (after.flatMap Fragment.text).head?, c ≠ ' ' ∧ c ≠ '/'
  noSlash : '/' ∉ left
  bare : left.filter isBare = comment.filter isBare
  starSpace : ['*', ' '] <:+: left → ['*', '*'] <:+: comment
  same : left = comment ↔ Prose comment

theorem stripMarks_leaves (comment : List Char) :
    ∃ pieces, LeftOf comment (stripMarks comment) pieces := by
  have scans := scans_fragments comment
  refine ⟨fragments comment, ?_⟩
  exact {
    cut := fun others => ⟨fun again => scans.unique again, fun same => same ▸ scans⟩
    whole := flatMap_text_fragments comment
    remains := rfl
    marks := fun _ => mem_markTexts
    stars := fun _ _ => head?_of_kept_star
    noSlash := slash_not_mem_stripMarks comment
    bare := filter_isBare_stripMarks comment
    starSpace := stars_of_star_space
    same := stripMarks_eq_self_iff comment }

end PermissionSchema.Export
