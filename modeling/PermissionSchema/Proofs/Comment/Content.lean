import PermissionSchema.Proofs.Comment.Scan
/-!
What a doc comment says is neither lost nor added to. Of the octets behind the framing of each
payload, the lossy reading keeps those that are characters by themselves, whatever stands around
them; the removal of marks keeps all characters that are in no mark; and trimming keeps all that is
no white space.
-/
namespace PermissionSchema.Export

open PermissionSchema.Compiled PermissionSchema.Text

def tails (entries : Metadata) : List (List UInt8) :=
  (entries.filter fun entry => 2 ≤ entry.value.length).map fun entry => entry.value.drop 2

/-- Whether a character is more than decoration: neither white space nor a sign of comment syntax
other than a space. -/
def isContent (c : Char) : Bool :=
  !isWhiteSpace c && c ≠ '/' && c ≠ '*'

def content (text : List Char) : List Char :=
  text.filter isContent

theorem content_append (first second : List Char) :
    content (first ++ second) = content first ++ content second :=
  List.filter_append ..

theorem isContent_of_white {c : Char} (white : isWhiteSpace c = true) : isContent c = false := by
  simp [isContent, white]

theorem isBare_of_isContent {c : Char} (some : isContent c = true) : isBare c = true := by
  have space : c ≠ ' ' := by
    intro same
    subst same
    cases some
  simp only [isContent, Bool.and_eq_true, decide_eq_true_eq] at some
  simp [isBare, some, space]

theorem content_trim (text : List Char) : content (trim text) = content text :=
  filter_trim (fun _ => isContent_of_white) text

theorem content_stripMarks (comment : List Char) : content (stripMarks comment) = content comment := by
  have bare (text : List Char) : content (text.filter isBare) = content text := by
    unfold content
    rw [List.filter_filter]
    apply List.filter_congr
    intro c _
    by_cases some : isContent c = true
    · simp [some, isBare_of_isContent some]
    · simp [some]
  rw [← bare, filter_isBare_stripMarks, bare]

theorem content_commentLine {payload : List UInt8} (long : 2 ≤ payload.length) :
    content (commentLine payload) = content (Utf8.decodeLossy (payload.drop 2)) := by
  have newLine : content ['\n'] = [] := by decide
  unfold commentLine framing
  rw [if_neg (Nat.not_lt.mpr long), content_append, content_stripMarks, newLine, List.append_nil]

theorem content_flatMap_commentLine (entries : Metadata) :
    content (entries.flatMap fun entry => commentLine entry.value) =
      (tails entries).flatMap fun tail => content (Utf8.decodeLossy tail) := by
  induction entries with
  | nil => rfl
  | cons entry rest ih =>
    rw [List.flatMap_cons, content_append, ih]
    unfold tails
    by_cases long : 2 ≤ entry.value.length
    · rw [List.filter_cons_of_pos (by simpa using long), List.map_cons, List.flatMap_cons,
        content_commentLine long]
    · have none : commentLine entry.value = [] := if_pos (Nat.lt_of_not_le long)
      rw [List.filter_cons_of_neg (by simpa using long), none]
      rfl

theorem content_docComment (metadata : Metadata) (typeUrl : String) :
    content (docComment metadata typeUrl).toList =
      (tails (metadata.ofType typeUrl)).flatMap fun tail => content (Utf8.decodeLossy tail) := by
  rw [docComment, String.toList_ofList, content_trim, content_flatMap_commentLine]

theorem ascii_content (text : List Char) : Utf8.ascii (content text) = content (Utf8.ascii text) :=
  List.filter_comm ..

/-- The characters below 0x80 of a comment that are more than decoration are the octets below 0x80
behind the framing of its payloads, in their order, whether or not the octets around them are UTF-8.
If all are, the same holds of all characters. -/
theorem docComment_keeps_content (metadata : Metadata) (typeUrl : String) :
    content (Utf8.ascii (docComment metadata typeUrl).toList) =
        content (Utf8.asciiOctets (tails (metadata.ofType typeUrl)).flatten) ∧
      ∀ texts : List (List Char), tails (metadata.ofType typeUrl) = texts.map Utf8.encode →
        content (docComment metadata typeUrl).toList = content texts.flatten := by
  constructor
  · calc
      content (Utf8.ascii (docComment metadata typeUrl).toList) =
          Utf8.ascii ((tails (metadata.ofType typeUrl)).flatMap fun tail =>
            content (Utf8.decodeLossy tail)) := by
        rw [← ascii_content, content_docComment]
      _ = (tails (metadata.ofType typeUrl)).flatMap fun tail => content (Utf8.asciiOctets tail) := by
        unfold Utf8.ascii
        rw [List.filter_flatMap]
        apply List.flatMap_congr
        intro tail _
        rw [← Utf8.ascii_decodeLossy]
        exact ascii_content (Utf8.decodeLossy tail)
      _ = content (Utf8.asciiOctets (tails (metadata.ofType typeUrl)).flatten) := by
        unfold content
        rw [Utf8.asciiOctets_flatten, List.filter_flatMap]
  · intro texts valid
    rw [content_docComment, valid, List.flatMap_map]
    simp only [Utf8.decodeLossy_encode]
    unfold content
    rw [List.filter_flatten]
    rfl

def accented : Metadata :=
  [⟨docCommentUrl, [0x0a]⟩, .docComment "/** lecteur  */", .relationKind .relation,
    .docComment "// privilégié"]

theorem docComment_keeps_content_accented :
    tails (accented.ofType docCommentUrl) =
        ["/** lecteur  */".toList, "// privilégié".toList].map Utf8.encode ∧
      content (docComment accented docCommentUrl).toList = "lecteurprivilégié".toList := by
  have valid : tails (accented.ofType docCommentUrl) =
      ["/** lecteur  */".toList, "// privilégié".toList].map Utf8.encode := by
    decide +kernel
  refine ⟨valid, ((docComment_keeps_content accented docCommentUrl).2 _ valid).trans ?_⟩
  decide

end PermissionSchema.Export
