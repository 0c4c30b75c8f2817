import PermissionSchema.Proofs.Comment.Framing
import PermissionSchema.Proofs.Comment.Prose
/-!
The layouts of a comment of several lines: a block, slashes before every line, or a comment of its
own for every line. However the lines are laid out, the same text is taken out of the metadata.
-/
namespace PermissionSchema.Export

open PermissionSchema.Compiled PermissionSchema.Text

inductive Layout where
  | block
  | slashes
  | separate
  deriving DecidableEq, Repr

def slashLine (line : List Char) : List Char :=
  '/' :: '/' :: ' ' :: line

def blockLine (line : List Char) : List Char :=
  ' ' :: '*' :: ' ' :: (line ++ ['\n'])

def Layout.comments : Layout → List (List Char) → List (List Char)
  | .block, lines => [['/', '*', '*', '\n'] ++ (lines.flatMap blockLine ++ [' ', '*', '/'])]
  | .slashes, lines => [['\n'].intercalate (lines.map slashLine)]
  | .separate, lines => lines.map slashLine

example : Layout.block.comments ["a".toList, "b".toList] = ["/**\n * a\n * b\n */".toList] := by
  decide

/-- Metadata that holds comments in order, each behind two octets of framing, among any entries of
other types and any that are too short to hold a comment. -/
inductive Holds (typeUrl : String) : List (List Char) → Metadata → Prop where
  | none : Holds typeUrl [] []
  | comment {comments : List (List Char)} {metadata : Metadata} (first second : UInt8)
      (comment : List Char) (later : Holds typeUrl comments metadata) :
      Holds typeUrl (comment :: comments)
        (⟨typeUrl, first :: second :: Utf8.encode comment⟩ :: metadata)
  | other {comments : List (List Char)} {metadata : Metadata} {entry : MetadataEntry}
      (apart : entry.typeUrl ≠ typeUrl) (later : Holds typeUrl comments metadata) :
      Holds typeUrl comments (entry :: metadata)
  | short {comments : List (List Char)} {metadata : Metadata} {entry : MetadataEntry}
      (short : entry.value.length < 2) (later : Holds typeUrl comments metadata) :
      Holds typeUrl comments (entry :: metadata)

theorem commentLine_framed (first second : UInt8) (comment : List Char) :
    commentLine (first :: second :: Utf8.encode comment) = stripMarks comment ++ ['\n'] := by
  have long : ¬(first :: second :: Utf8.encode comment).length < framing := by simp [framing]
  rw [commentLine, if_neg long]
  simp only [framing, List.drop_succ_cons, List.drop_zero, Utf8.decodeLossy_encode]

/-- A line for each comment, and nothing of the entries between them. -/
theorem Holds.lines {typeUrl : String} {comments : List (List Char)} {metadata : Metadata}
    (holds : Holds typeUrl comments metadata) :
    (metadata.ofType typeUrl).flatMap (fun entry => commentLine entry.value) =
      comments.flatMap fun comment => stripMarks comment ++ ['\n'] := by
  induction holds with
  | none => rfl
  | comment first second comment _ ih =>
    rw [Metadata.ofType, List.filter_cons_of_pos (by simp), List.flatMap_cons, List.flatMap_cons,
      commentLine_framed]
    exact congrArg _ ih
  | other apart _ ih =>
    rw [Metadata.ofType, List.filter_cons_of_neg (by simpa using apart)]
    exact ih
  | @short _ _ entry short _ ih =>
    have nothing : commentLine entry.value = [] := if_pos short
    rw [Metadata.ofType, List.filter_cons]
    split
    · rw [List.flatMap_cons, nothing]
      exact ih
    · exact ih

theorem docComment_of_holds {typeUrl : String} {comments : List (List Char)} {metadata : Metadata}
    (holds : Holds typeUrl comments metadata) :
    docComment metadata typeUrl = joinLines (comments.map stripMarks) := by
  rw [docComment, holds.lines, joinLines, List.flatMap_map]

def Unmarked (line : List Char) : Prop :=
  '/' ∉ line ∧ '*' ∉ line

theorem Unmarked.prose {line : List Char} (unmarked : Unmarked line) : Prose line :=
  ⟨unmarked.1, fun part => unmarked.2 (part.subset List.mem_cons_self)⟩

/-- No mark reaches into a line from the line below it. -/
theorem stripMarks_line {line : List Char} (unmarked : Unmarked line) (rest : List Char) :
    stripMarks (line ++ '\n' :: rest) = line ++ '\n' :: stripMarks rest := by
  induction line with
  | nil => exact stripMarks_cons (by decide) (by decide) (by decide) rest
  | cons c line ih =>
    obtain ⟨slash, star⟩ := unmarked
    rw [List.mem_cons, not_or] at slash star
    have later := ih ⟨slash.2, star.2⟩
    by_cases space : c = ' '
    · subst space
      cases line with
      | nil => exact (stripMarks_space (by decide) (by decide) rest).trans (congrArg _ later)
      | cons next line =>
        rw [List.mem_cons, not_or] at slash star
        exact (stripMarks_space (Ne.symm slash.2.1) (Ne.symm star.2.1) _).trans (congrArg _ later)
    · exact (stripMarks_cons (Ne.symm slash.1) (Ne.symm star.1) space _).trans (congrArg _ later)

variable {lines : List (List Char)}

theorem stripMarks_block (unmarked : ∀ line ∈ lines, Unmarked line) :
    stripMarks (lines.flatMap blockLine ++ [' ', '*', '/']) = lines.flatMap (· ++ ['\n']) := by
  induction lines with
  | nil => rfl
  | cons line lines ih =>
    have first := unmarked line List.mem_cons_self
    have later := ih fun other among => unmarked other (List.mem_cons_of_mem _ among)
    have opened : stripMarks ((line :: lines).flatMap blockLine ++ [' ', '*', '/']) =
        stripMarks (line ++ '\n' :: (lines.flatMap blockLine ++ [' ', '*', '/'])) := by
      simp only [List.flatMap_cons, blockLine, List.cons_append, List.append_assoc]
      rfl
    rw [opened, stripMarks_line first, later]
    simp

theorem stripMarks_slashLine (line : List Char) : stripMarks (slashLine line) = stripMarks line :=
  rfl

theorem stripMarks_slashes (unmarked : ∀ line ∈ lines, Unmarked line) :
    stripMarks (['\n'].intercalate (lines.map slashLine)) = ['\n'].intercalate lines := by
  induction lines with
  | nil => rfl
  | cons line lines ih =>
    have first := unmarked line List.mem_cons_self
    have later := ih fun other among => unmarked other (List.mem_cons_of_mem _ among)
    cases lines with
    | nil =>
      simp only [List.map_cons, List.map_nil, List.intercalate_singleton, stripMarks_slashLine]
      exact stripMarks_prose first.prose
    | cons next lines =>
      simp only [List.map_cons, List.intercalate_cons_cons, List.append_assoc,
        List.singleton_append] at later ⊢
      have opened := stripMarks_line first
        (['\n'].intercalate (slashLine next :: lines.map slashLine))
      rw [later] at opened
      exact opened

/-- Lines with a line break behind each are the same text, once it is trimmed, as lines with line
breaks between them. -/
theorem trim_flatMap_lines (lines : List (List Char)) :
    trim (lines.flatMap (· ++ ['\n'])) = trim (['\n'].intercalate lines) := by
  have joined {line : List Char} {rest : List (List Char)} :
      (line :: rest).flatMap (· ++ ['\n']) = ['\n'].intercalate (line :: rest) ++ ['\n'] := by
    induction rest generalizing line with
    | nil => simp
    | cons next rest ih =>
      rw [List.flatMap_cons, ih, List.intercalate_cons_cons]
      simp
  cases lines with
  | nil => rfl
  | cons line rest => rw [joined, trim_append_white _ (by decide)]

/-- However lines are laid out in comments, and whatever entries stand between these, the text is
the lines with line breaks between them, trimmed as a whole. -/
theorem docComment_layout (layout : Layout) {typeUrl : String}
    (unmarked : ∀ line ∈ lines, '/' ∉ line ∧ '*' ∉ line) {metadata : Metadata}
    (holds : Holds typeUrl (layout.comments lines) metadata) :
    docComment metadata typeUrl = String.ofList (trim (['\n'].intercalate lines)) := by
  rw [docComment_of_holds holds, joinLines, ← trim_flatMap_lines]
  congr 1
  cases layout with
  | block =>
    have opened :
        stripMarks (['/', '*', '*', '\n'] ++ (lines.flatMap blockLine ++ [' ', '*', '/'])) =
          '\n' :: lines.flatMap (· ++ ['\n']) := by
      rw [← stripMarks_block unmarked]
      exact stripMarks_cons (c := '\n') (by decide) (by decide) (by decide) _
    rw [Layout.comments, List.map_singleton, opened, List.flatMap_singleton, List.cons_append,
      trim_cons_white (by decide), trim_append_white _ (by decide)]
  | slashes =>
    rw [Layout.comments, List.map_singleton, stripMarks_slashes unmarked, List.flatMap_singleton,
      trim_append_white _ (by decide), trim_flatMap_lines]
  | separate =>
    have each : (lines.map slashLine).map stripMarks = lines := by
      rw [List.map_map]
      refine (List.map_congr_left fun line among => ?_).trans (List.map_id lines)
      rw [Function.comp, stripMarks_slashLine]
      exact stripMarks_prose (Unmarked.prose (unmarked line among))
    rw [Layout.comments, each]

def scattered : Metadata :=
  [⟨docCommentUrl, 0x0a :: 0x08 :: Utf8.encode "// first".toList⟩, .relationKind .permission,
    ⟨docCommentUrl, 0x0a :: 0x03 :: Utf8.encode "// ".toList⟩, ⟨docCommentUrl, [0x0a]⟩,
    ⟨docCommentUrl, 0xff :: 0x00 :: Utf8.encode "//  last ".toList⟩]

theorem docComment_layout_scattered :
    (∀ line ∈ ["first".toList, [], " last ".toList], '/' ∉ line ∧ '*' ∉ line) ∧
      Holds docCommentUrl (Layout.separate.comments ["first".toList, [], " last ".toList])
        scattered ∧
      docComment scattered docCommentUrl = "first\n\n last" := by
  have unmarked : ∀ line ∈ ["first".toList, [], " last ".toList], '/' ∉ line ∧ '*' ∉ line := by
    decide
  have holds : Holds docCommentUrl (Layout.separate.comments ["first".toList, [], " last ".toList])
      scattered :=
    .comment 0x0a 0x08 _ (.other (by decide) (.comment 0x0a 0x03 _ (.short (by decide)
      (.comment 0xff 0x00 _ .none))))
  refine ⟨unmarked, holds, ?_⟩
  rw [docComment_layout .separate unmarked holds]
  decide

end PermissionSchema.Export
