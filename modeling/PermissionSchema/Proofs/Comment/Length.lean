import PermissionSchema.Proofs.Comment.Framing
import PermissionSchema.Proofs.Comment.Marks
import PermissionSchema.Proofs.Text.Trim
/-!
For which lengths of comments an export gives the comments back. One octet holds every length below
128; for every other length there are comments of it that are exported with a part of it in front.
-/
namespace PermissionSchema.Export

open PermissionSchema.Text

theorem framedText_short {comments : List String}
    (short : ∀ comment ∈ comments, octetCount comment < 128) :
    framedText comments = plainText comments := by
  unfold framedText plainText
  congr 1
  apply List.map_congr_left
  intro comment attached
  rw [leftover_short (short comment attached), List.nil_append]

def letters (count : Nat) : List Char :=
  List.replicate count 'x'

/-- A comment of three octets and so many more: an opening mark and letters. -/
def openedLetters (count : Nat) : String :=
  String.ofList ('/' :: '*' :: '*' :: letters count)

theorem toList_openedLetters (count : Nat) :
    (openedLetters count).toList = '/' :: '*' :: '*' :: letters count := String.toList_ofList

theorem octetCount_openedLetters (count : Nat) : octetCount (openedLetters count) = count + 3 := by
  have small : ∀ c ∈ (openedLetters count).toList, c.toNat < 0x80 := by
    intro c member
    simp only [toList_openedLetters, letters, List.mem_cons, List.mem_replicate] at member
    rcases member with slash | star | star | ⟨_, letter⟩
    all_goals subst c
    all_goals decide
  rw [octetCount, Utf8.length_encode_small small]
  simp [toList_openedLetters, letters]

theorem solid_letters (count : Nat) : Solid (letters (count + 1)) := by
  refine ⟨⟨'x', rfl, by decide⟩, 'x', ?_, by decide⟩
  rw [letters, List.getLast?_replicate]
  rfl

theorem stripMarks_letters (count : Nat) : stripMarks (letters count) = letters count := by
  apply stripMarks_plain
  intro c member
  rw [List.eq_of_mem_replicate member]
  decide

theorem stripMarks_openedLetters (count : Nat) :
    stripMarks (openedLetters (count + 1)).toList = letters (count + 1) := by
  rw [toList_openedLetters]
  exact stripMarks_letters (count + 1)

/-- A character in front of an opening mark always adds to what remains: either it stays itself, or
it takes the slash from the mark and the stars stay. -/
theorem stripMarks_before_openedLetters (c : Char) :
    ∃ kept, kept ≠ [] ∧ ∀ count, stripMarks (c :: (openedLetters (count + 1)).toList) =
      kept ++ letters (count + 1) := by
  simp only [toList_openedLetters]
  have stars (count : Nat) : ['*', '*'] ++ stripMarks (letters (count + 1)) =
      ['*', '*'] ++ letters (count + 1) := by rw [stripMarks_letters]
  by_cases slash : c = '/'
  · subst slash
    exact ⟨['*', '*'], by simp, stars⟩
  by_cases star : c = '*'
  · subst star
    exact ⟨['*', '*'], by simp, stars⟩
  by_cases space : c = ' '
  · subst space
    exact ⟨['*', '*'], by simp, stars⟩
  refine ⟨[c], by simp, fun count => ?_⟩
  rw [stripMarks_cons slash star space, ← toList_openedLetters, stripMarks_openedLetters]
  rfl

theorem joinLines_once (front : List Char) {text : List Char} (solid : Solid text) :
    joinLines [front ++ text] = String.ofList (front.dropWhile isWhiteSpace ++ text) := by
  have lines : [front ++ text].flatMap (· ++ ['\n']) = front ++ (text ++ ['\n']) := by simp
  rw [joinLines, lines, trim_append_solid front ['\n'] solid]
  simp [isWhiteSpace]

theorem joinLines_twice (front : List Char) {text : List Char} (solid : Solid text) :
    joinLines [front ++ text, front ++ text] =
      String.ofList (front.dropWhile isWhiteSpace ++ (text ++ ('\n' :: front ++ text))) := by
  have lines : [front ++ text, front ++ text].flatMap (· ++ ['\n']) =
      front ++ ((text ++ ('\n' :: front ++ text)) ++ ['\n']) := by simp
  have whole : Solid (text ++ ('\n' :: front ++ text)) := solid.append solid ('\n' :: front)
  rw [joinLines, lines, trim_append_solid front ['\n'] whole]
  simp [isWhiteSpace]

/-- Of two comments, something of the length always remains in front of the second. In front of the
first it may be white space alone, and then it is trimmed. -/
theorem framedText_twice_ne {count : Nat} (long : 128 ≤ count + 4) :
    framedText [openedLetters (count + 1), openedLetters (count + 1)] ≠
      plainText [openedLetters (count + 1), openedLetters (count + 1)] := by
  have octets : 128 ≤ octetCount (openedLetters (count + 1)) := by
    rw [octetCount_openedLetters]
    exact long
  obtain ⟨before, last, left, large⟩ := leftover_long octets
  have unmarked : ∀ c ∈ before, c ≠ '/' ∧ c ≠ '*' ∧ c ≠ ' ' := by
    intro c member
    have others := large c member
    refine ⟨?_, ?_, ?_⟩
    all_goals intro same
    all_goals subst same
    all_goals exact absurd others (by decide)
  obtain ⟨kept, more, remains⟩ := stripMarks_before_openedLetters last
  have line : stripMarks (leftover (openedLetters (count + 1)) ++
      (openedLetters (count + 1)).toList) = (before ++ kept) ++ letters (count + 1) := by
    rw [left, List.append_assoc, List.singleton_append, stripMarks_append unmarked, remains,
      List.append_assoc]
  have framed := joinLines_twice (before ++ kept) (solid_letters count)
  have plain := joinLines_twice [] (solid_letters count)
  rw [← line] at framed
  rw [List.nil_append, ← stripMarks_openedLetters] at plain
  intro same
  have lists := String.ofList_injective (framed.symm.trans (same.trans plain))
  have lengths := congrArg List.length lists
  simp only [stripMarks_openedLetters, List.length_append, List.length_cons, List.length_nil,
    List.dropWhile_nil] at lengths
  have some : 0 < kept.length := List.length_pos_of_ne_nil more
  omega

theorem exports_plainText {comments : List String}
    (short : ∀ comment ∈ comments, comment ≠ "" ∧ octetCount comment < 128) :
    Exports comments (plainText comments) := by
  have nonempty : ∀ comment ∈ comments, comment ≠ "" :=
    fun comment attached => (short comment attached).1
  rw [exports_iff nonempty, framedText_short]
  exact fun comment attached => (short comment attached).2

/-- From 128 octets on, every length is that of comments that do not come back. -/
theorem exists_not_exports_plainText {length : Nat} (long : 128 ≤ length) :
    ∃ comments : List String, comments ≠ [] ∧
      (∀ comment ∈ comments, comment ≠ "" ∧ octetCount comment = length) ∧
      ¬Exports comments (plainText comments) := by
  obtain ⟨count, rfl⟩ := Nat.exists_eq_add_of_le' (show 4 ≤ length by omega)
  have counted : octetCount (openedLetters (count + 1)) = count + 4 :=
    octetCount_openedLetters (count + 1)
  have nonempty : openedLetters (count + 1) ≠ "" := by
    intro empty
    rw [empty] at counted
    cases counted
  have twice : ∀ comment ∈ [openedLetters (count + 1), openedLetters (count + 1)],
      comment ≠ "" ∧ octetCount comment = count + 4 := by
    intro comment member
    have same : comment = openedLetters (count + 1) := by simpa using member
    rw [same]
    exact ⟨nonempty, counted⟩
  refine ⟨_, List.cons_ne_nil _ _, twice, ?_⟩
  rw [exports_iff fun comment attached => (twice comment attached).1]
  exact (framedText_twice_ne long).symm

/-- Attached comments come back as they were, but for their marks, exactly on such classes of
lengths as hold none above 127. Comments of any length are exported with what is left of it. -/
theorem attached_comments_exported (lengths : Nat → Prop) :
    ((∀ comments : List String, comments ≠ [] →
        (∀ comment ∈ comments, comment ≠ "" ∧ lengths (octetCount comment)) →
        Exports comments (plainText comments)) ↔
      ∀ length, 0 < length → lengths length → length < 128) ∧
    ∀ comments : List String, (∀ comment ∈ comments, comment ≠ "") →
      ∀ text, Exports comments text ↔ text = framedText comments := by
  refine ⟨⟨?_, ?_⟩, fun comments nonempty text => exports_iff nonempty text⟩
  · intro undone length _ allowed
    apply Nat.lt_of_not_le
    intro long
    obtain ⟨comments, some, each, lost⟩ := exists_not_exports_plainText long
    apply lost
    apply undone comments some
    intro comment attached
    obtain ⟨nonempty, counted⟩ := each comment attached
    exact ⟨nonempty, counted.symm ▸ allowed⟩
  · intro small comments _ each
    apply exports_plainText
    intro comment attached
    obtain ⟨nonempty, allowed⟩ := each comment attached
    exact ⟨nonempty, small _ (octetCount_pos nonempty) allowed⟩

theorem attached_comments_exported_document :
    plainText ["/** a document */"] = "a document" ∧
      Exports ["/** a document */"] (plainText ["/** a document */"]) := by
  have counted : octetCount "/** a document */" = 17 := by decide
  refine ⟨by decide, (attached_comments_exported (· = 17)).1.mpr ?_ _ (List.cons_ne_nil _ _) ?_⟩
  · intro length _ same
    omega
  · intro comment attached
    rw [List.mem_singleton.mp attached]
    exact ⟨by decide, counted⟩

/-- As many letters as it takes for a length of two octets, the second of which is 1. -/
def longComment : String :=
  String.ofList (letters 128)

theorem leftover_longComment : leftover longComment = ['\x01'] := by
  have small : ∀ c ∈ longComment.toList, c.toNat < 0x80 := by
    intro c member
    rw [longComment, String.toList_ofList] at member
    rw [List.eq_of_mem_replicate member]
    decide
  have octets : octetCount longComment = 128 := by
    rw [octetCount, Utf8.length_encode_small small, longComment, String.toList_ofList]
    exact List.length_replicate
  rw [leftover, octets, Wire.varint_long (by decide), Wire.varint_short (by decide)]
  rfl

theorem longComment_exported_with_length :
    Exports [longComment] (String.ofList ('\x01' :: letters 128)) ∧
      ¬Exports [longComment] (plainText [longComment]) := by
  have nonempty : ∀ comment ∈ [longComment], comment ≠ "" := by
    intro comment member
    rw [List.mem_singleton.mp member, longComment]
    exact fun empty => absurd (String.ofList_eq_empty_iff.mp empty) (List.cons_ne_nil _ _)
  have plain : plainText [longComment] = String.ofList (letters 128) := by
    have once := joinLines_once [] (solid_letters 127)
    rw [plainText, List.map_singleton, longComment, String.toList_ofList, stripMarks_letters]
    exact once
  have framed : framedText [longComment] = String.ofList ('\x01' :: letters 128) := by
    have once := joinLines_once ['\x01'] (solid_letters 127)
    rw [framedText, List.map_singleton, leftover_longComment, longComment, String.toList_ofList,
      List.singleton_append, stripMarks_cons (by decide) (by decide) (by decide),
      stripMarks_letters]
    exact once
  have other : plainText [longComment] ≠ framedText [longComment] := by
    rw [plain, framed]
    intro same
    have lists := String.ofList_injective same
    have lengths := congrArg List.length lists
    rw [List.length_cons] at lengths
    omega
  exact ⟨(exports_iff nonempty _).mpr framed.symm,
    fun exported => other ((exports_iff nonempty _).mp exported)⟩

end PermissionSchema.Export
