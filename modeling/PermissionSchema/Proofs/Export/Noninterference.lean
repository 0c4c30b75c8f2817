import PermissionSchema.Proofs.Export.Traversal
import Mathlib.Logic.Relation
/-!
How little of the metadata an export reads: the doc comments whose payload is long enough, and of
each declaration the kind. Schemas that agree in these, and in all but metadata, are exported alike,
and so are schemas of which one comes from the other by editing entries that are not read.
-/
namespace PermissionSchema.Compiled

structure Declaration.Varies (related : Metadata → Metadata → Prop)
    (first second : Declaration) : Prop where
  name : first.name = second.name
  rewrite : first.rewrite = second.rewrite
  allowed : first.allowed = second.allowed
  metadata : related first.metadata second.metadata

structure Caveat.Varies (related : Metadata → Metadata → Prop) (first second : Caveat) : Prop where
  name : first.name = second.name
  parameters : first.parameters = second.parameters
  metadata : related first.metadata second.metadata

/-- Definitions that are the same but for metadata. Those of the definitions are related in one way,
those of their declarations in another. -/
structure Definition.Varies (node declaration : Metadata → Metadata → Prop)
    (first second : Definition) : Prop where
  name : first.name = second.name
  declarations :
    List.Forall₂ (Declaration.Varies declaration) first.declarations second.declarations
  metadata : node first.metadata second.metadata

structure Schema.Varies (node declaration : Metadata → Metadata → Prop)
    (first second : Schema) : Prop where
  definitions :
    List.Forall₂ (Definition.Varies node declaration) first.definitions second.definitions
  caveats : List.Forall₂ (Caveat.Varies node) first.caveats second.caveats

section Relations

variable {node other declaration another : Metadata → Metadata → Prop}

theorem Definition.Varies.imp (nodes : ∀ first second, node first second → other first second)
    (declarations : ∀ first second, declaration first second → another first second)
    {first second : Definition} (varies : first.Varies node declaration second) :
    first.Varies other another second where
  name := varies.name
  declarations := varies.declarations.imp fun _ _ inner =>
    { inner with metadata := declarations _ _ inner.metadata }
  metadata := nodes _ _ varies.metadata

theorem Schema.Varies.imp (nodes : ∀ first second, node first second → other first second)
    (declarations : ∀ first second, declaration first second → another first second)
    {first second : Schema} (varies : first.Varies node declaration second) :
    first.Varies other another second where
  definitions := varies.definitions.imp fun _ _ => Definition.Varies.imp nodes declarations
  caveats := varies.caveats.imp fun _ _ inner =>
    { inner with metadata := nodes _ _ inner.metadata }

end Relations

inductive Metadata.Inserted (ignored : Metadata → MetadataEntry → Prop) :
    Metadata → Metadata → Prop where
  | entry {before after : Metadata} {entry : MetadataEntry} (allowed : ignored before entry) :
      Inserted ignored (before ++ after) (before ++ entry :: after)

/-- Metadata that come from one another by inserting and removing ignored entries, in any number and
order. -/
def Metadata.Edited (ignored : Metadata → MetadataEntry → Prop) : Metadata → Metadata → Prop :=
  Relation.EqvGen (Inserted ignored)

section Edits

variable {ignored : Metadata → MetadataEntry → Prop} {before between after : Metadata}
  {entry other : MetadataEntry}

/-- An entry is changed by removing it and inserting another one in its place. -/
theorem Metadata.Edited.change (removed : ignored before entry) (inserted : ignored before other) :
    Edited ignored (before ++ entry :: after) (before ++ other :: after) :=
  .trans _ (before ++ after) _ (.symm _ _ (.rel _ _ (.entry removed))) (.rel _ _ (.entry inserted))

/-- An entry is moved by removing it in one place and inserting it in another. -/
theorem Metadata.Edited.move (here : ignored before entry)
    (there : ignored (before ++ between) entry) :
    Edited ignored (before ++ entry :: (between ++ after)) (before ++ between ++ entry :: after) := by
  have removed : Edited ignored (before ++ entry :: (between ++ after))
      (before ++ (between ++ after)) := .symm _ _ (.rel _ _ (.entry here))
  rw [← List.append_assoc] at removed
  exact .trans _ _ _ removed (.rel _ _ (.entry there))

/-- What no single insertion changes, no edit changes. -/
theorem Metadata.Edited.congr {α : Type} (read : Metadata → α) {first second : Metadata}
    (edited : Edited ignored first second)
    (step : ∀ before after entry, ignored before entry →
      read (before ++ after) = read (before ++ entry :: after)) :
    read first = read second := by
  induction edited with
  | rel _ _ inserted =>
    cases inserted with
    | entry allowed => exact step _ _ _ allowed
  | refl _ => rfl
  | symm _ _ _ ih => exact ih.symm
  | trans _ _ _ _ _ ihFirst ihSecond => exact ihFirst.trans ihSecond

end Edits

theorem Metadata.kind_congr {first second : Metadata} {typeUrl : String}
    (head : (first.ofType typeUrl).head? = (second.ofType typeUrl).head?) :
    first.kind typeUrl = second.kind typeUrl := by
  unfold Metadata.kind
  cases one : first.ofType typeUrl with
  | nil =>
    rw [one, List.head?_nil, eq_comm, List.head?_eq_none_iff] at head
    rw [head]
  | cons entry rest =>
    rw [one, List.head?_cons, eq_comm, List.head?_eq_some_iff] at head
    obtain ⟨others, same⟩ := head
    rw [same]

theorem Metadata.head?_ofType_insert {before after : Metadata} {entry : MetadataEntry}
    {typeUrl : String}
    (later : entry.typeUrl = typeUrl → ∃ earlier ∈ before, earlier.typeUrl = typeUrl) :
    (Metadata.ofType (before ++ after) typeUrl).head? =
      (Metadata.ofType (before ++ entry :: after) typeUrl).head? := by
  simp only [Metadata.ofType, List.filter_append, List.head?_append]
  by_cases same : entry.typeUrl = typeUrl
  -- the first of the type is among the entries in front, on both sides
  · obtain ⟨earlier, member, tagged⟩ := later same
    have present : (before.filter (·.typeUrl = typeUrl)).head?.isSome := by
      rw [List.isSome_head?]
      exact List.ne_nil_of_mem (List.mem_filter.mpr ⟨member, decide_eq_true tagged⟩)
    rw [Option.or_of_isSome present, Option.or_of_isSome present]
  · simp [same]

end PermissionSchema.Compiled

namespace PermissionSchema.Export

open PermissionSchema.Compiled

def commentEntries (options : Options) (metadata : Metadata) : Metadata :=
  (metadata.ofType options.docCommentUrl).filter (framing ≤ ·.value.length)

def SameComments (options : Options) (first second : Metadata) : Prop :=
  commentEntries options first = commentEntries options second

structure SameReading (options : Options) (first second : Metadata) : Prop where
  comments : SameComments options first second
  kind : first.kind options.relationMetadataUrl = second.kind options.relationMetadataUrl

variable {options : Options}

theorem flatMap_commentLine_filter (entries : Metadata) :
    ((entries.filter (framing ≤ ·.value.length)).flatMap fun entry => commentLine entry.value) =
      entries.flatMap fun entry => commentLine entry.value := by
  induction entries with
  | nil => rfl
  | cons entry rest ih =>
    by_cases long : framing ≤ entry.value.length
    · rw [List.filter_cons_of_pos (by simp [long]), List.flatMap_cons, List.flatMap_cons, ih]
    · have silent : commentLine entry.value = [] := if_pos (Nat.lt_of_not_le long)
      rw [List.filter_cons_of_neg (by simp [long]), List.flatMap_cons, silent, List.nil_append, ih]

theorem docComment_congr {first second : Metadata} (same : SameComments options first second) :
    docComment first options.docCommentUrl = docComment second options.docCommentUrl := by
  have lines : ((first.ofType options.docCommentUrl).flatMap fun entry => commentLine entry.value) =
      (second.ofType options.docCommentUrl).flatMap fun entry => commentLine entry.value := by
    rw [← flatMap_commentLine_filter, ← flatMap_commentLine_filter (second.ofType _)]
    exact congrArg (List.flatMap _) same
  rw [docComment, docComment, lines]

theorem mapCaveat_varies {first second : Caveat}
    (varies : first.Varies (SameComments options) second) :
    mapCaveat options first = mapCaveat options second := by
  simp only [mapCaveat, varies.name, varies.parameters, docComment_congr varies.metadata]

theorem mapDeclaration_varies {owner : String} {first second : Declaration}
    (varies : first.Varies (SameReading options) second) :
    mapDeclaration options owner first = mapDeclaration options owner second := by
  simp only [mapDeclaration, mapRelation, mapPermission, varies.name, varies.rewrite,
    varies.allowed, varies.metadata.kind, docComment_congr varies.metadata.comments]

theorem mapDefinition_varies {first second : Definition}
    (varies : first.Varies (SameComments options) (SameReading options) second) :
    mapDefinition options first = mapDefinition options second := by
  have declarations : Traced.each (mapDeclaration options second.name) first.declarations =
      Traced.each (mapDeclaration options second.name) second.declarations :=
    Traced.each_congr (varies.declarations.imp fun _ _ => mapDeclaration_varies)
  simp only [mapDefinition, mapDeclarations_eq_each, varies.name, declarations,
    docComment_congr varies.metadata]

theorem mapSchema_varies {first second : Schema}
    (varies : first.Varies (SameComments options) (SameReading options) second) :
    mapSchema options first = mapSchema options second := by
  have definitions := Traced.each_congr (varies.definitions.imp fun _ _ => mapDefinition_varies)
  have caveats : first.caveats.map (mapCaveat options) = second.caveats.map (mapCaveat options) := by
    rw [← List.forall₂_eq_eq_eq, List.forall₂_map_left_iff, List.forall₂_map_right_iff]
    exact varies.caveats.imp fun _ _ => mapCaveat_varies
  simp only [mapSchema, mapDefinitions_eq_each, definitions, caveats]

def NoComment (options : Options) (_ : Metadata) (entry : MetadataEntry) : Prop :=
  entry.typeUrl = options.docCommentUrl → entry.value.length < framing

structure NotRead (options : Options) (before : Metadata) (entry : MetadataEntry) : Prop where
  comment : NoComment options before entry
  kind : entry.typeUrl = options.relationMetadataUrl →
    ∃ earlier ∈ before, earlier.typeUrl = options.relationMetadataUrl

theorem commentEntries_insert {before after : Metadata} {entry : MetadataEntry}
    (unread : NoComment options before entry) :
    commentEntries options (before ++ after) = commentEntries options (before ++ entry :: after) := by
  simp only [commentEntries, Metadata.ofType, List.filter_append]
  by_cases same : entry.typeUrl = options.docCommentUrl
  · have short : ¬framing ≤ entry.value.length := Nat.not_le_of_lt (unread same)
    simp [same, short]
  · simp [same]

theorem SameComments.of_edited {first second : Metadata}
    (edited : Metadata.Edited (NoComment options) first second) :
    SameComments options first second :=
  edited.congr (commentEntries options) fun _ _ _ => commentEntries_insert

theorem SameReading.of_edited {first second : Metadata}
    (edited : Metadata.Edited (NotRead options) first second) :
    SameReading options first second where
  comments := edited.congr (commentEntries options) fun _ _ _ unread =>
    commentEntries_insert unread.comment
  kind := edited.congr (·.kind options.relationMetadataUrl) fun _ _ _ unread =>
    Metadata.kind_congr (Metadata.head?_ofType_insert unread.kind)

/-- Schemas that differ in metadata only are exported alike, to the same document, failure and
events, if they have the same doc comments to read and their declarations tell the same kinds; and so
no edit of entries that are not read changes what an export comes to. -/
theorem mapSchema_noninterference (options : Options) (first second : Schema) :
    (first.Varies (SameComments options) (SameReading options) second →
      mapSchema options first = mapSchema options second) ∧
    (first.Varies (Metadata.Edited (NoComment options)) (Metadata.Edited (NotRead options)) second →
      mapSchema options first = mapSchema options second) := by
  refine ⟨mapSchema_varies, fun edited => mapSchema_varies ?_⟩
  exact edited.imp (fun _ _ => .of_edited) fun _ _ => .of_edited

def viewers (node declaration : Metadata) : Schema :=
  ⟨[⟨"document", [⟨"viewer", none, [.direct "user"], declaration⟩], node⟩],
    [⟨"weekday", ["day"], node⟩]⟩

theorem viewers_varies {node declaration : Metadata → Metadata → Prop}
    {first second one other : Metadata} (nodes : node first second)
    (declarations : declaration one other) :
    (viewers first one).Varies node declaration (viewers second other) where
  definitions := .cons ⟨rfl, .cons ⟨rfl, rfl, rfl, declarations⟩ .nil, nodes⟩ .nil
  caveats := .cons ⟨rfl, rfl, nodes⟩ .nil

/-- A kind on a definition, a comment too short to read and an entry of another type in front of a
kind change nothing, nor does it matter what a second kind says and where it stands behind the
first. -/
theorem mapSchema_noninterference_viewers :
    let kind : MetadataEntry := ⟨relationMetadataUrl, [0x08, 0x01]⟩
    let comment : MetadataEntry := ⟨docCommentUrl, [0x0a, 0x02, 0x68, 0x69]⟩
    let broken : MetadataEntry := ⟨relationMetadataUrl, [0xff]⟩
    mapSchema {} (viewers [comment] [kind, comment]) =
        mapSchema {} (viewers [kind, ⟨docCommentUrl, [0x0a]⟩, comment]
          [⟨"", [0x08, 0x02]⟩, kind, comment, broken]) ∧
      mapSchema {} (viewers [] [kind, broken, comment]) =
        mapSchema {} (viewers [] [kind, comment, .relationKind .permission]) := by
  intro kind comment broken
  have other : relationMetadataUrl ≠ docCommentUrl := by decide
  have unread (value : List UInt8) (between : Metadata) :
      NotRead {} ([kind] ++ between) ⟨relationMetadataUrl, value⟩ := by
    exact ⟨fun same => absurd same other, fun _ => ⟨kind, List.mem_cons_self, rfl⟩⟩
  have changed : Metadata.Edited (NotRead {}) ([kind] ++ broken :: ([comment] ++ []))
      ([kind] ++ .relationKind .permission :: ([comment] ++ [])) :=
    .change (unread _ []) (unread _ [])
  have moved : Metadata.Edited (NotRead {})
      ([kind] ++ .relationKind .permission :: ([comment] ++ []))
      ([kind] ++ [comment] ++ .relationKind .permission :: []) :=
    .move (unread _ []) (unread _ [comment])
  constructor
  · apply (mapSchema_noninterference {} _ _).1
    exact viewers_varies rfl ⟨rfl, rfl⟩
  · apply (mapSchema_noninterference {} _ _).2
    exact viewers_varies (.refl _) (.trans _ _ _ changed moved)

end PermissionSchema.Export
