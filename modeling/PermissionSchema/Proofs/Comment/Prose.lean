import PermissionSchema.Proofs.Comment.Marks
import PermissionSchema.Proofs.Text.Trim
import PermissionSchema.Proofs.Text.Utf8
/-!
Which lines keep their text when the marks are removed. A slash is a mark wherever it stands, and so
is a star before a space; nothing else is.
-/
namespace PermissionSchema.Export

open PermissionSchema.Compiled PermissionSchema.Text

def Prose (text : List Char) : Prop :=
  '/' ∉ text ∧ ¬['*', ' '] <:+: text

instance (text : List Char) : Decidable (Prose text) :=
  inferInstanceAs (Decidable (_ ∧ _))

theorem Prose.tail {c : Char} {rest : List Char} (prose : Prose (c :: rest)) : Prose rest := by
  obtain ⟨slash, star⟩ := prose
  exact ⟨fun member => slash (List.mem_cons_of_mem _ member),
    fun part => star (List.infix_cons part)⟩

theorem stripMarks_prose {text : List Char} (prose : Prose text) : stripMarks text = text := by
  unfold stripMarks
  -- All cases but the last two cut a mark, which is not in prose.
  fun_induction fragments text with
  | case13 c rest _ _ _ _ _ _ _ _ _ _ _ _ ih =>
    rw [List.flatMap_cons, ih prose.tail]
    rfl
  | case14 => rfl
  | _ => simp [Prose, List.infix_cons_iff] at prose

def ink (text : List Char) : Nat :=
  text.countP (!isWhiteSpace ·)

theorem ink_trim (text : List Char) : ink (trim text) = ink text := by
  have kept := @filter_trim (!isWhiteSpace ·) (by simp) text
  rw [ink, ink, List.countP_eq_length_filter, List.countP_eq_length_filter, kept]

theorem ink_append (first second : List Char) : ink (first ++ second) = ink first + ink second :=
  List.countP_append

/-- Each mark has more in it than spaces. -/
theorem ink_pos_of_mark {text mark : List Char} (cut : .mark mark ∈ fragments text) :
    0 < ink mark := by
  fun_induction fragments text with
  | case13 _ _ _ _ _ _ _ _ _ _ _ _ _ _ ih => exact ih (List.mem_of_ne_of_mem (by simp) cut)
  | case14 => cases cut
  | _ =>
    rename_i ih
    rcases List.mem_cons.mp cut with same | later
    · cases same
      decide
    · exact ih later

theorem prose_of_unmarked {text : List Char} (unmarked : ∀ mark, .mark mark ∉ fragments text) :
    Prose text := by
  fun_induction fragments text with
  | case13 c rest _ _ _ _ _ _ _ star _ _ _ slash ih =>
    have others := ih fun mark cut => unmarked mark (List.mem_cons_of_mem _ cut)
    refine ⟨?_, fun part => ?_⟩
    · rw [List.mem_cons]
      rintro (same | member)
      · exact slash same.symm
      · exact others.1 member
    · rcases List.infix_cons_iff.mp part with start | later
      · obtain ⟨same, next⟩ := List.cons_prefix_cons.mp start
        obtain ⟨more, split⟩ := next
        exact star more same.symm split.symm
      · exact others.2 later
  | case14 => decide
  | _ => exact absurd List.mem_cons_self (unmarked _)

theorem ink_remains_le (pieces : List Fragment) :
    ink (pieces.flatMap Fragment.remains) ≤ ink (pieces.flatMap Fragment.text) := by
  induction pieces with
  | nil => exact Nat.le_refl _
  | cons piece rest ih =>
    rw [List.flatMap_cons, List.flatMap_cons, ink_append, ink_append]
    apply Nat.add_le_add _ ih
    cases piece with
    | kept c => exact Nat.le_refl _
    | mark text => exact Nat.zero_le _

theorem ink_stripMarks_lt {text mark : List Char} (cut : .mark mark ∈ fragments text) :
    ink (stripMarks text) < ink text := by
  have lost := ink_pos_of_mark cut
  obtain ⟨before, after, split⟩ := List.append_of_mem cut
  have whole := flatMap_text_fragments text
  rw [split, List.flatMap_append, List.flatMap_cons] at whole
  have first := ink_remains_le before
  have second := ink_remains_le after
  rw [stripMarks, split, ← whole, List.flatMap_append, List.flatMap_cons]
  simp only [ink_append, Fragment.remains, Fragment.text]
  have none : ink [] = 0 := rfl
  omega

theorem trim_stripMarks_iff (text : List Char) :
    trim (stripMarks text) = trim text ↔ Prose text := by
  constructor
  · intro same
    apply prose_of_unmarked
    intro mark cut
    have fewer := ink_stripMarks_lt cut
    rw [← ink_trim, same, ink_trim] at fewer
    exact Nat.lt_irrefl _ fewer
  · intro prose
    rw [stripMarks_prose prose]

/-- The text of one doc comment that is a line behind two slashes is the line without its marks. It
is the line as it stands, but for white space around it, exactly if there is nothing in the line
that reads as a mark. -/
theorem docComment_slashes (typeUrl : String) (first second : UInt8) (text : List Char) :
    docComment [⟨typeUrl, first :: second :: Utf8.encode ('/' :: '/' :: ' ' :: text)⟩] typeUrl =
        String.ofList (trim (stripMarks text)) ∧
      (docComment [⟨typeUrl, first :: second :: Utf8.encode ('/' :: '/' :: ' ' :: text)⟩] typeUrl =
        String.ofList (trim text) ↔ Prose text) := by
  have line : docComment
      [⟨typeUrl, first :: second :: Utf8.encode ('/' :: '/' :: ' ' :: text)⟩] typeUrl =
        String.ofList (trim (stripMarks text)) := by
    have behind : commentLine (first :: second :: Utf8.encode ('/' :: '/' :: ' ' :: text)) =
        stripMarks text ++ ['\n'] := by
      have long : ¬(first :: second :: Utf8.encode ('/' :: '/' :: ' ' :: text)).length <
          framing := by
        simp [framing]
      rw [commentLine, if_neg long]
      simp only [framing, List.drop_succ_cons, List.drop_zero, Utf8.decodeLossy_encode]
      rfl
    rw [docComment, Metadata.ofType, List.filter_cons_of_pos (by simp), List.filter_nil,
      List.flatMap_singleton, behind, trim_append_white _ (by decide)]
  refine ⟨line, ?_⟩
  rw [line, ← trim_stripMarks_iff]
  exact ⟨fun same => String.ofList_injective same, fun same => congrArg String.ofList same⟩

/-- In prose a slash stands between two words, and the words come back as one. -/
theorem docComment_slashes_and_or :
    '\n' ∉ "and/or".toList ∧
      (∀ mark ∈ ["/*", "//", "*/"], ¬mark.toList <:+: "and/or".toList) ∧
      ("and/or".toList.dropWhile isWhiteSpace).head? ≠ some '*' ∧
      docComment [⟨docCommentUrl, 0x0a :: 0x09 :: Utf8.encode "// and/or".toList⟩] docCommentUrl =
        "andor" ∧
      "andor" ≠ String.ofList (trim "and/or".toList) :=
  ⟨by decide, by simp [List.infix_cons_iff], by decide, by rfl, by decide⟩

end PermissionSchema.Export
