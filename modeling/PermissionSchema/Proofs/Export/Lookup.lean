import PermissionSchema.Proofs.Document.QualifiedName
import PermissionSchema.Proofs.Export.Traversal
/-!
Finding exported definitions by name. A name leads to what the first compiled definition that answers
to it is exported as. That is the first definition of that name, unless one has the same name with a
slash in front: then the earlier of the two is found, and hides the other.
-/
namespace PermissionSchema.Export

open PermissionSchema.Compiled
open PermissionSchema.Document (Answers Rooted rejoined)

theorem qualifiedName_of_mapped {options : Options} {definition : Definition}
    {exported : Document.Definition}
    (mapped : (mapDefinition options definition).result = .ok exported) :
    exported.qualifiedName = rejoined definition.name := by
  obtain ⟨entries, _, same⟩ := (mapDefinition_ok_iff options definition exported).mp mapped
  rw [same]
  rfl

theorem find?_of_mapped {options : Options} {definitions : List Definition}
    {found : List Document.Definition}
    (mapped : List.Forall₂
      (fun definition exported => (mapDefinition options definition).result = .ok exported)
      definitions found) (asked : String) :
    (found.find? (·.qualifiedName = asked)).map Except.ok =
      (definitions.find? fun definition => Answers definition.name asked).map
        fun definition => (mapDefinition options definition).result := by
  induction mapped with
  | nil => rfl
  | @cons definition exported definitions found first rest ih =>
    have alike : exported.qualifiedName = asked ↔ Answers definition.name asked := by
      rw [qualifiedName_of_mapped first, Document.rejoined_eq_iff]
    by_cases answers : Answers definition.name asked
    · simp [alike, answers, first]
    · simp [alike, answers, ih]

structure FoundByName (options : Options) (schema : Schema) (document : Document.Schema) :
    Prop where
  /-- A name leads to what the first definition that answers to it is exported as, and to nothing
  if none answers. -/
  first (asked : String) :
    (document.definition? asked).map Except.ok =
      (schema.definitions.find? fun definition => Answers definition.name asked).map
        fun definition => (mapDefinition options definition).result
  /-- A definition keeps its qualified name exactly if there is no slash in front of it. -/
  kept : List.Forall₂
    (fun definition exported => exported.qualifiedName = definition.name ↔ ¬Rooted definition.name)
    schema.definitions document.definitions
  /-- Where no name has a slash in front, the first definition of every name is found by it. -/
  own (unrooted : ∀ definition ∈ schema.definitions, ¬Rooted definition.name)
    {before after : List Definition} {definition : Definition}
    (split : schema.definitions = before ++ definition :: after)
    (new : ∀ earlier ∈ before, earlier.name ≠ definition.name) :
    ∃ exported, (mapDefinition options definition).result = .ok exported ∧
      document.definition? definition.name = some exported
  /-- A definition with a slash in front of its name is found by the name behind the slash, and
  hides all later definitions of that name. -/
  rooted {before after : List Definition} {definition : Definition} {asked : String}
    (split : schema.definitions = before ++ definition :: after)
    (named : definition.name = "/" ++ asked)
    (new : ∀ earlier ∈ before, ¬Answers earlier.name asked) :
    ∃ exported, (mapDefinition options definition).result = .ok exported ∧
      document.definition? asked = some exported ∧
      ∀ other ∈ after, other.name = asked → document.definition? other.name = some exported

section Mapped

variable {options : Options} {schema : Schema} {document : Document.Schema}

theorem definition?_of_first_answer (mapped : (mapSchema options schema).result = .ok document)
    {before after : List Definition} {definition : Definition} {asked : String}
    (split : schema.definitions = before ++ definition :: after)
    (answers : Answers definition.name asked)
    (new : ∀ earlier ∈ before, ¬Answers earlier.name asked) :
    ∃ exported, (mapDefinition options definition).result = .ok exported ∧
      document.definition? asked = some exported := by
  obtain ⟨definitions, _⟩ := (mapSchema_ok_iff options schema document).mp mapped
  have found : schema.definitions.find? (fun one => Answers one.name asked) = some definition := by
    rw [List.find?_eq_some_iff_append]
    exact ⟨decide_eq_true answers, before, after, split, by simpa using new⟩
  have looked := find?_of_mapped definitions asked
  rw [found] at looked
  obtain ⟨exported, here, same⟩ := Option.map_eq_some_iff.mp looked
  exact ⟨exported, same.symm, here⟩

/-- In a mapped schema a definition is found by every name that it answers to before all others, and
its name is kept whole but for a slash in front. -/
theorem definition?_of_mapped (mapped : (mapSchema options schema).result = .ok document) :
    FoundByName options schema document ∧
      (∀ name, rejoined name = name ↔ ¬Rooted name) ∧
      ∀ asked, rejoined ("/" ++ asked) = asked := by
  obtain ⟨definitions, _⟩ := (mapSchema_ok_iff options schema document).mp mapped
  refine ⟨⟨find?_of_mapped definitions, ?_, ?_, ?_⟩, Document.rejoined_eq_self_iff,
    Document.rejoined_rooted⟩
  · apply definitions.imp
    intro definition exported single
    rw [qualifiedName_of_mapped single, Document.rejoined_eq_self_iff]
  · intro unrooted before after definition split new
    have member : definition ∈ schema.definitions := by simp [split]
    apply definition?_of_first_answer mapped split (Or.inr ⟨rfl, unrooted definition member⟩)
    intro earlier among answers
    rcases answers with slash | ⟨same, _⟩
    · have known : earlier ∈ schema.definitions := by simp [split, among]
      exact unrooted earlier known (slash ▸ Document.rooted_append definition.name)
    · exact new earlier among same
  · intro before after definition asked split named new
    obtain ⟨exported, here, found⟩ :=
      definition?_of_first_answer mapped split (Or.inl named) new
    exact ⟨exported, here, found, fun other _ same => same ▸ found⟩

end Mapped

def teamSchema (first : String) : Schema where
  definitions := [{ name := first }, { name := "acme/team" }, { name := "acme/team/lead" }]

def teamDocument (nameSpace name : String) : Document.Schema where
  definitions := [
    ⟨name, nameSpace, [], [], ""⟩, ⟨"team", "acme", [], [], ""⟩, ⟨"team/lead", "acme", [], [], ""⟩]
  caveats := []

theorem definition?_of_mapped_team :
    (mapSchema {} (teamSchema "/acme/team")).result = .ok (teamDocument "" "acme/team") ∧
      (teamDocument "" "acme/team").definition? "acme/team" =
        some ⟨"acme/team", "", [], [], ""⟩ ∧
      (mapSchema {} (teamSchema "acme/user")).result = .ok (teamDocument "acme" "user") ∧
      (teamDocument "acme" "user").definition? "acme/team" = some ⟨"team", "acme", [], [], ""⟩ := by
  have hidden : (mapSchema {} (teamSchema "/acme/team")).result =
      .ok (teamDocument "" "acme/team") := rfl
  have plain : (mapSchema {} (teamSchema "acme/user")).result =
      .ok (teamDocument "acme" "user") := rfl
  obtain ⟨hides, _⟩ := definition?_of_mapped hidden
  obtain ⟨keeps, _⟩ := definition?_of_mapped plain
  have atFront : (teamSchema "/acme/team").definitions =
      [] ++ { name := "/acme/team" } :: [{ name := "acme/team" }, { name := "acme/team/lead" }] :=
    rfl
  have between : (teamSchema "acme/user").definitions =
      [{ name := "acme/user" }] ++ { name := "acme/team" } :: [{ name := "acme/team/lead" }] := rfl
  have slash : "/acme/team" = "/" ++ "acme/team" := by decide
  obtain ⟨_, ⟨⟩, found, _⟩ := hides.rooted atFront slash nofun
  obtain ⟨_, ⟨⟩, own⟩ := keeps.own (by decide) between (by decide)
  exact ⟨hidden, found, plain, own⟩

end PermissionSchema.Export
