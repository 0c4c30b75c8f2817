import PermissionSchema.Proofs.Compiled.Metadata
import PermissionSchema.Proofs.Export.Traversal
import PermissionSchema.Proofs.Text.Utf8
/-!
What an export makes of comments that were attached to a node. The payload of a comment has a tag
and the comment's length in front, and an export passes over the tag and one octet of the length. If
the length takes more than one octet, the others are read as text.
-/
namespace PermissionSchema.Export

open PermissionSchema.Compiled PermissionSchema.Text

def octetCount (comment : String) : Nat :=
  (Utf8.encode comment.toList).length

/-- What the octets of a comment's length but the first read as. -/
def leftover (comment : String) : List Char :=
  Utf8.decodeLossy ((Wire.varint (octetCount comment)).drop 1)

def joinLines (texts : List (List Char)) : String :=
  String.ofList (trim (texts.flatMap (· ++ ['\n'])))

def plainText (comments : List String) : String :=
  joinLines (comments.map fun comment => stripMarks comment.toList)

/-- A line for each comment, behind what is left of its length. -/
def framedText (comments : List String) : String :=
  joinLines (comments.map fun comment => stripMarks (leftover comment ++ comment.toList))

theorem octetCount_pos {comment : String} (nonempty : comment ≠ "") : 0 < octetCount comment := by
  cases letters : comment.toList with
  | nil => exact absurd (String.toList_eq_nil_iff.mp letters) nonempty
  | cons c rest =>
    have size : 0 < c.utf8Size := Char.utf8Size_pos c
    simp only [octetCount, letters, Utf8.encode, List.flatMap_cons, List.length_append,
      String.length_utf8EncodeChar]
    omega

theorem leftover_short {comment : String} (short : octetCount comment < 128) :
    leftover comment = [] := by
  rw [leftover, Wire.varint_short short]
  rfl

/-- What is left of a length of more than one octet ends in one character below 0x80, and that is
the only one. -/
theorem leftover_long {comment : String} (long : 128 ≤ octetCount comment) :
    ∃ before last, leftover comment = before ++ [last] ∧ ∀ c ∈ before, 0x80 ≤ c.toNat := by
  obtain ⟨octets, last, split, large, small⟩ := Wire.varint_tail_ends long
  obtain ⟨before, others, cut⟩ := Utf8.decodeLossy_large large small
  exact ⟨before, Char.ofNat last.toNat, by rw [leftover, split, cut]; rfl, others⟩

/-- The octets left of the length read apart from the comment behind them. -/
theorem decodeLossy_framed (comment : String) :
    Utf8.decodeLossy ((Wire.varint (octetCount comment)).drop 1 ++ Utf8.encode comment.toList) =
      leftover comment ++ comment.toList := by
  by_cases short : octetCount comment < 128
  · rw [leftover_short short, Wire.varint_short short]
    exact Utf8.decodeLossy_encode comment.toList
  · obtain ⟨octets, last, split, large, small⟩ := Wire.varint_tail_ends (Nat.le_of_not_lt short)
    obtain ⟨before, _, cut⟩ := Utf8.decodeLossy_large large small
    rw [leftover, split, List.append_assoc, List.singleton_append, cut, cut,
      Utf8.decodeLossy_encode, List.append_assoc]
    rfl

theorem commentLine_docComment {comment : String} (nonempty : comment ≠ "") :
    commentLine (MetadataEntry.docComment comment).value =
      stripMarks (leftover comment ++ comment.toList) ++ ['\n'] := by
  have some : (Utf8.encode comment.toList).isEmpty = false := by
    rw [List.isEmpty_eq_false_iff_exists_mem]
    exact List.exists_mem_of_length_pos (octetCount_pos nonempty)
  have payload : (MetadataEntry.docComment comment).value =
      0x0a :: (Wire.varint (octetCount comment) ++ Utf8.encode comment.toList) := by
    simp [MetadataEntry.docComment, CommentPayload.encode, some, octetCount]
  have long : ¬(MetadataEntry.docComment comment).value.length < framing := by
    have positive := octetCount_pos nonempty
    have length := Wire.varint_length_pos (octetCount comment)
    simp only [payload, framing, List.length_cons, List.length_append]
    omega
  have behind : (MetadataEntry.docComment comment).value.drop framing =
      (Wire.varint (octetCount comment)).drop 1 ++ Utf8.encode comment.toList := by
    rw [payload]
    exact List.drop_append_of_le_length (Wire.varint_length_pos _)
  rw [commentLine, if_neg long, behind, decodeLossy_framed]

theorem docComment_attached {metadata : Metadata} (without : metadata.ofType docCommentUrl = [])
    {comments : List String} (nonempty : ∀ comment ∈ comments, comment ≠ "") :
    docComment (metadata ++ comments.map MetadataEntry.docComment) docCommentUrl = framedText comments := by
  have entries : (metadata ++ comments.map MetadataEntry.docComment).ofType docCommentUrl =
      comments.map MetadataEntry.docComment := by
    unfold Metadata.ofType at without ⊢
    rw [List.filter_append, without, List.nil_append, List.filter_eq_self]
    intro entry attached
    obtain ⟨comment, _, same⟩ := List.mem_map.mp attached
    rw [← same]
    rfl
  rw [docComment, entries, framedText, joinLines, List.flatMap_map, List.flatMap_map]
  congr 2
  apply List.flatMap_congr
  intro comment attached
  exact commentLine_docComment (nonempty comment attached)

def Entry.withComment (comment : String) : Entry → Entry
  | .relation stored => .relation { stored with comment }
  | .permission computed => .permission { computed with comment }

/-- Attached to any node that has no comment yet, the comments are exported as a text: the node is
exported as it would be without them, but with that text for its comment. -/
structure Exports (comments : List String) (text : String) : Prop where
  definition : ∀ definition : Definition, definition.metadata.ofType docCommentUrl = [] →
    mapDefinition {} (comments.foldl Definition.withComment definition) =
      (fun exported => { exported with comment := text }) <$> mapDefinition {} definition
  declaration : ∀ owner (declaration : Declaration),
    declaration.metadata.ofType docCommentUrl = [] →
    mapDeclaration {} owner (comments.foldl Declaration.withComment declaration) =
      Entry.withComment text <$> mapDeclaration {} owner declaration
  caveat : ∀ caveat : Caveat, caveat.metadata.ofType docCommentUrl = [] →
    mapCaveat {} (comments.foldl Caveat.withComment caveat) =
      { mapCaveat {} caveat with comment := text }

theorem exports_framedText {comments : List String}
    (nonempty : ∀ comment ∈ comments, comment ≠ "") : Exports comments (framedText comments) where
  definition definition without := by
    have text := docComment_attached without nonempty
    rw [Definition.foldl_withComment]
    simp only [mapDefinition, text, map_bind, map_pure]
  declaration owner declaration without := by
    have text := docComment_attached without nonempty
    rw [Declaration.foldl_withComment]
    unfold mapDeclaration
    simp only [Metadata.kind_append_docComments]
    cases declaration.metadata.kind relationMetadataUrl with
    | unknown => rfl
    | relation =>
      simp only [mapRelation, text, map_pure, Entry.withComment]
    | permission =>
      simp only [mapPermission, text, map_bind, map_pure, Entry.withComment]
  caveat caveat without := by
    rw [Caveat.foldl_withComment, mapCaveat, docComment_attached without nonempty]
    rfl

theorem exports_iff {comments : List String} (nonempty : ∀ comment ∈ comments, comment ≠ "")
    (text : String) : Exports comments text ↔ text = framedText comments := by
  have framed := exports_framedText nonempty
  constructor
  · intro exported
    have same := (exported.caveat ⟨"", [], []⟩ rfl).symm.trans (framed.caveat ⟨"", [], []⟩ rfl)
    exact congrArg Document.Caveat.comment same
  · intro same
    exact same ▸ framed

end PermissionSchema.Export
