import PermissionSchema.Proofs.Export.Refusal
/-!
What mapping a schema tells on its way. The events account for every placeholder that is dropped and
for every permission without a rewrite, and they end where the mapping ends.
-/
namespace PermissionSchema

namespace Document.UserSet

mutual

def nodes : UserSet → Nat
  | .operation _ children => nodesOf children + 1
  | .arrow _ _ => 1
  | .relation _ => 1

def nodesOf : List UserSet → Nat
  | [] => 0
  | set :: rest => nodes set + nodesOf rest

end

end Document.UserSet

namespace Compiled

open Document

def Rewrite.nodes (rewrite : Rewrite) : Nat :=
  (Operand.walkAll rewrite.operands).length + 1

/-- Every operand is either a placeholder or a node of the user sets. -/
theorem Operand.nodesOf_userSets (operands : List Operand) :
    UserSet.nodesOf (userSets operands) + (placeholders operands).length =
      (walkAll operands).length := by
  induction operands using inductionOn with
  | empty => rfl
  | this rest ih | nil rest ih =>
    simp only [userSets_this, userSets_nil, placeholders_this, placeholders_nil, walkAll, walk,
      List.length_append, List.length_cons, List.length_nil]
    omega
  | computed relation rest ih =>
    simp only [userSets_computed, placeholders_computed, UserSet.nodesOf, UserSet.nodes, walkAll,
      walk, List.length_append, List.length_cons, List.length_nil]
    omega
  | arrow tupleset target rest ih =>
    simp only [userSets_arrow, placeholders_arrow, UserSet.nodesOf, UserSet.nodes, walkAll, walk,
      List.length_append, List.length_cons, List.length_nil]
    omega
  | nested operator inner rest ihInner ihRest =>
    simp only [userSets_nested, placeholders_nested, UserSet.nodesOf, UserSet.nodes, walkAll, walk,
      List.length_append, List.length_cons]
    omega

theorem Rewrite.nodes_userSet (rewrite : Rewrite) :
    rewrite.userSet.nodes + (Operand.placeholders rewrite.operands).length = rewrite.nodes := by
  have operands := Operand.nodesOf_userSets rewrite.operands
  simp only [userSet, UserSet.nodes, nodes]
  omega

end Compiled

namespace Export

open Compiled

def rewriteEvents (scope : Scope) (rewrite : Rewrite) : List Event :=
  if scope.strict then []
  else (Operand.placeholders rewrite.operands).map
    fun kind => .dropped scope.definition scope.relation kind.name

/-- What mapping a declaration tells: of the placeholders of a permission, or that it has no
rewrite. All other declarations pass in silence. -/
def declarationEvents (options : Options) (owner : String) (declaration : Declaration) :
    List Event :=
  match declaration.metadata.kind options.relationMetadataUrl, declaration.rewrite with
  | .permission, some rewrite => rewriteEvents ⟨owner, declaration.name, options.strict⟩ rewrite
  | .permission, none => [.withoutRewrite owner declaration.name]
  | .relation, _ => []
  | .unknown, _ => []

def definitionEvents (options : Options) (definition : Definition)
    (exported : Document.Definition) : List Event :=
  definition.declarations.flatMap (declarationEvents options definition.name) ++
    [.definitionMapped (Document.splitName definition.name).1
      (Document.splitName definition.name).2 exported.relations.length exported.permissions.length]

def definitionsEvents (options : Options) (definitions : List Definition)
    (exported : List Document.Definition) : List Event :=
  (List.zipWith (definitionEvents options) definitions exported).flatten

theorem mapRewrite_events (scope : Scope) (rewrite : Rewrite) :
    (mapRewrite scope rewrite).events = rewriteEvents scope rewrite := by
  have operands : (mapRewrite scope rewrite).events = (mapOperands scope rewrite.operands).events :=
    Traced.map_events (Document.UserSet.operation rewrite.operator) _
  rw [operands, rewriteEvents]
  by_cases strict : scope.strict = true
  · rw [mapOperands_strict strict, if_pos strict]
    cases (Operand.placeholders rewrite.operands).head? <;> rfl
  · rw [mapOperands_lenient (Bool.eq_false_iff.mpr strict), if_neg strict]

theorem mapDeclaration_events (options : Options) (owner : String) (declaration : Declaration) :
    (mapDeclaration options owner declaration).events =
      declarationEvents options owner declaration := by
  unfold mapDeclaration declarationEvents
  cases declaration.metadata.kind options.relationMetadataUrl with
  | unknown => rfl
  | relation => rfl
  | permission =>
    have expression : (mapPermission options owner declaration).events =
        (mapExpression ⟨owner, declaration.name, options.strict⟩ declaration.rewrite).events :=
      Traced.map_events (fun set => Document.Permission.mk declaration.name set _) _
    simp only [Traced.map_events, expression]
    cases declaration.rewrite with
    | none => rfl
    | some rewrite => simp only [mapExpression, Traced.map_events, mapRewrite_events]

theorem declarationEvents_of_refusal {options : Options} {owner : String}
    {declaration : Declaration} {error : SchemaError}
    (refusal : Refusal options owner declaration error) :
    declarationEvents options owner declaration = [] := by
  cases refusal with
  | unclassified unknown => simp [declarationEvents, unknown]
  | placeholder strict computed expression first =>
    simp [declarationEvents, computed, expression, rewriteEvents, strict]

/-- A node of the rewrite of a permission is exported or told of. -/
theorem mapDeclaration_conserves {options : Options} {owner : String} {declaration : Declaration}
    {rewrite : Rewrite} {permission : Document.Permission}
    (expression : declaration.rewrite = some rewrite)
    (mapped : (mapDeclaration options owner declaration).result = .ok (.permission permission)) :
    ∃ set, permission.userSet = some set ∧
      set.nodes + (mapDeclaration options owner declaration).events.length = rewrite.nodes := by
  rcases mapDeclaration_ok_iff.mp mapped with ⟨_, same⟩ | ⟨computed, free, same⟩
  · cases same
  · cases same
    refine ⟨rewrite.userSet, by simp [permissionOf, expression], ?_⟩
    rw [mapDeclaration_events, ← rewrite.nodes_userSet]
    simp only [declarationEvents, computed, expression, rewriteEvents]
    by_cases strict : options.strict = true
    · simp [strict, free rewrite expression strict]
    · simp [strict]

theorem relationsOf_permissionsOf_length (entries : List Entry) :
    (relationsOf entries).length + (permissionsOf entries).length = entries.length := by
  induction entries with
  | nil => rfl
  | cons entry rest ih =>
    simp only [relationsOf, permissionsOf] at ih ⊢
    cases entry with
    | relation relation =>
      simp only [List.filterMap_cons, List.length_cons]
      omega
    | permission permission =>
      simp only [List.filterMap_cons, List.length_cons]
      omega

theorem mapDefinition_counts {options : Options} {definition : Definition}
    {exported : Document.Definition}
    (mapped : (mapDefinition options definition).result = .ok exported) :
    exported.relations.length + exported.permissions.length = definition.declarations.length := by
  obtain ⟨entries, each, rfl⟩ := (mapDefinition_ok_iff options definition exported).mp mapped
  rw [each.length_eq]
  exact relationsOf_permissionsOf_length entries

theorem mapDefinition_events_of_ok {options : Options} {definition : Definition}
    {exported : Document.Definition}
    (mapped : (mapDefinition options definition).result = .ok exported) :
    (mapDefinition options definition).events = definitionEvents options definition exported := by
  obtain ⟨entries, each, rfl⟩ := (mapDefinition_ok_iff options definition exported).mp mapped
  have passed := (Traced.each_ok_iff (mapDeclaration options definition.name) _ _).mpr each
  rw [mapDefinition, mapDeclarations_eq_each, Traced.bind_ok passed, Traced.each_events_of_ok passed,
    definitionEvents]
  simp only [mapDeclaration_events]
  rfl

/-- A definition that fails tells what its declarations do up to the refused one, and no more. -/
theorem mapDefinition_events_of_refusal {options : Options} {definition : Definition}
    {before after : List Declaration} {declaration : Declaration} {error : SchemaError}
    (split : definition.declarations = before ++ declaration :: after)
    (free : ∀ one ∈ before, ¬Refused options one)
    (refusal : Refusal options definition.name declaration error) :
    (mapDefinition options definition).events =
      before.flatMap (declarationEvents options definition.name) := by
  have passed (one : Declaration) (member : one ∈ before) :
      ∃ entry, (mapDeclaration options definition.name one).result = .ok entry := by
    rw [← Traced.not_fails_iff, mapDeclaration_fails_iff]
    exact free one member
  have failed := mapDeclaration_error_iff.mpr refusal
  have stops : (Traced.each (mapDeclaration options definition.name)
      definition.declarations).result = .error error :=
    (Traced.each_error_iff _ _ error).mpr ⟨before, declaration, after, split, passed, failed⟩
  rw [mapDefinition, mapDeclarations_eq_each, Traced.bind_error stops, split,
    Traced.each_events_of_error passed failed]
  simp only [mapDeclaration_events, declarationEvents_of_refusal refusal, List.append_nil]

theorem flatMap_mapDefinition_events {options : Options} {definitions : List Definition}
    {exported : List Document.Definition}
    (mapped : List.Forall₂
      (fun definition result => (mapDefinition options definition).result = .ok result)
      definitions exported) :
    (definitions.flatMap fun definition => (mapDefinition options definition).events) =
      definitionsEvents options definitions exported := by
  induction mapped with
  | nil => rfl
  | cons first _ ih =>
    rw [List.flatMap_cons, mapDefinition_events_of_ok first, ih]
    rfl

theorem mapSchema_events_of_ok {options : Options} {schema : Schema} {document : Document.Schema}
    (mapped : (mapSchema options schema).result = .ok document) :
    (mapSchema options schema).events =
      definitionsEvents options schema.definitions document.definitions ++
        [.schemaMapped document.definitions.length (document.caveats.map (·.name))] := by
  obtain ⟨definitions, caveats⟩ := (mapSchema_ok_iff options schema document).mp mapped
  have passed := (Traced.each_ok_iff (mapDefinition options) _ _).mpr definitions
  rw [mapSchema, mapDefinitions_eq_each, Traced.bind_ok passed, Traced.each_events_of_ok passed,
    flatMap_mapDefinition_events definitions, caveats]
  rfl

/-- A schema that fails tells all that is before the refused declaration, and no more. -/
theorem mapSchema_events_of_refusal {options : Options} {schema : Schema}
    {earlier later : List Definition} {definition : Definition}
    {exported : List Document.Definition} {before after : List Declaration}
    {declaration : Declaration} {error : SchemaError}
    (split : schema.definitions = earlier ++ definition :: later)
    (inner : definition.declarations = before ++ declaration :: after)
    (mapped : List.Forall₂ (fun one result => (mapDefinition options one).result = .ok result)
      earlier exported)
    (free : ∀ one ∈ before, ¬Refused options one)
    (refusal : Refusal options definition.name declaration error) :
    (mapSchema options schema).events =
      definitionsEvents options earlier exported ++
        before.flatMap (declarationEvents options definition.name) := by
  have whole := (Traced.each_ok_iff (mapDefinition options) earlier exported).mpr mapped
  have passed := (Traced.each_passes_iff (mapDefinition options) earlier).mp ⟨exported, whole⟩
  have failed := (mapDefinition_error_iff options definition error).mpr
    ⟨before, declaration, after, inner, free, refusal⟩
  have stops : (Traced.each (mapDefinition options) schema.definitions).result = .error error :=
    (Traced.each_error_iff _ _ error).mpr ⟨earlier, definition, later, split, passed, failed⟩
  rw [mapSchema, mapDefinitions_eq_each, Traced.bind_error stops, split,
    Traced.each_events_of_error passed failed, flatMap_mapDefinition_events mapped,
    mapDefinition_events_of_refusal inner free refusal]

/-- Which events there are: of a placeholder, of a definition, of a permission without a rewrite, and
of a schema that is mapped, each at its level. -/
inductive Told (options : Options) (schema : Schema) : Event → Level → Prop where
  | dropped {definition : Definition} {declaration : Declaration} {rewrite : Rewrite}
      {kind : OperandKind} (owner : definition ∈ schema.definitions)
      (member : declaration ∈ definition.declarations)
      (lenient : options.strict = false)
      (computed : declaration.metadata.kind options.relationMetadataUrl = .permission)
      (expression : declaration.rewrite = some rewrite)
      (place : kind ∈ Operand.placeholders rewrite.operands) :
      Told options schema (.dropped definition.name declaration.name kind.name) .debug
  | withoutRewrite {definition : Definition} {declaration : Declaration}
      (owner : definition ∈ schema.definitions) (member : declaration ∈ definition.declarations)
      (computed : declaration.metadata.kind options.relationMetadataUrl = .permission)
      (absent : declaration.rewrite = none) :
      Told options schema (.withoutRewrite definition.name declaration.name) .warn
  | definitionMapped {definition : Definition} {exported : Document.Definition}
      (member : definition ∈ schema.definitions)
      (mapped : (mapDefinition options definition).result = .ok exported) :
      Told options schema (.definitionMapped (Document.splitName definition.name).1
        (Document.splitName definition.name).2 exported.relations.length
        exported.permissions.length) .debug
  | schemaMapped {document : Document.Schema}
      (mapped : (mapSchema options schema).result = .ok document) :
      Told options schema
        (.schemaMapped document.definitions.length (document.caveats.map (·.name))) .info

theorem told_of_declaration {options : Options} {schema : Schema} {definition : Definition}
    {declaration : Declaration} {event : Event} (owner : definition ∈ schema.definitions)
    (member : declaration ∈ definition.declarations)
    (told : event ∈ declarationEvents options definition.name declaration) :
    Told options schema event event.level := by
  unfold declarationEvents at told
  cases kind : declaration.metadata.kind options.relationMetadataUrl with
  | unknown => simp [kind] at told
  | relation => simp [kind] at told
  | permission =>
    cases expression : declaration.rewrite with
    | none =>
      simp only [kind, expression, List.mem_singleton] at told
      subst told
      exact .withoutRewrite owner member kind expression
    | some rewrite =>
      simp only [kind, expression, rewriteEvents] at told
      by_cases strict : options.strict = true
      · simp [strict] at told
      · simp only [strict, Bool.false_eq_true, if_false, List.mem_map] at told
        obtain ⟨found, place, rfl⟩ := told
        exact .dropped owner member (Bool.eq_false_iff.mpr strict) kind expression place

theorem told_of_definitions {options : Options} {schema : Schema} {definitions : List Definition}
    {exported : List Document.Definition} {event : Event}
    (mapped : List.Forall₂
      (fun definition result => (mapDefinition options definition).result = .ok result)
      definitions exported)
    (part : ∀ definition ∈ definitions, definition ∈ schema.definitions)
    (told : event ∈ definitionsEvents options definitions exported) :
    Told options schema event event.level := by
  rw [← flatMap_mapDefinition_events mapped, List.mem_flatMap] at told
  obtain ⟨definition, member, told⟩ := told
  have whole := (Traced.each_ok_iff (mapDefinition options) definitions exported).mpr mapped
  obtain ⟨result, passed⟩ := (Traced.each_passes_iff _ _).mp ⟨exported, whole⟩ definition member
  rw [mapDefinition_events_of_ok passed, definitionEvents, List.mem_append, List.mem_flatMap,
    List.mem_singleton] at told
  rcases told with ⟨declaration, inner, told⟩ | rfl
  · exact told_of_declaration (part definition member) inner told
  · exact .definitionMapped (part definition member) passed

/-- How far a mapping got that fails: up to a declaration that is refused. All that is before it is
mapped, and nothing else tells events. -/
inductive Stopped (options : Options) (schema : Schema) (error : SchemaError) : Prop where
  | refused {earlier later : List Definition} {definition : Definition}
      {exported : List Document.Definition} {before after : List Declaration}
      {declaration : Declaration}
      (split : schema.definitions = earlier ++ definition :: later)
      (inner : definition.declarations = before ++ declaration :: after)
      (mapped : List.Forall₂ (fun one result => (mapDefinition options one).result = .ok result)
        earlier exported)
      (free : ∀ one ∈ before, ¬Refused options one)
      (refusal : Refusal options definition.name declaration error)
      (events : (mapSchema options schema).events =
        definitionsEvents options earlier exported ++
          before.flatMap (declarationEvents options definition.name)) :
      Stopped options schema error

structure Accounted (options : Options) : Prop where
  /-- Every declaration tells what its kind and its rewrite say. -/
  declaration : ∀ owner declaration,
    (mapDeclaration options owner declaration).events = declarationEvents options owner declaration
  /-- Of a rewrite that is mapped, every node is exported or told of. -/
  conserved : ∀ owner declaration rewrite permission, declaration.rewrite = some rewrite →
    (mapDeclaration options owner declaration).result = .ok (.permission permission) →
    ∃ set, permission.userSet = some set ∧
      set.nodes + (mapDeclaration options owner declaration).events.length = rewrite.nodes
  /-- A definition that is mapped counts all its declarations. -/
  counted : ∀ definition exported, (mapDefinition options definition).result = .ok exported →
    exported.relations.length + exported.permissions.length = definition.declarations.length
  /-- A schema that is mapped tells of all its definitions in order, and last of itself. -/
  mapped : ∀ schema document, (mapSchema options schema).result = .ok document →
    List.Forall₂ (fun definition result => (mapDefinition options definition).result = .ok result)
      schema.definitions document.definitions ∧
    (mapSchema options schema).events =
      definitionsEvents options schema.definitions document.definitions ++
        [.schemaMapped document.definitions.length (document.caveats.map (·.name))]
  /-- A schema that fails tells of all definitions and declarations before the refused declaration,
  and of nothing else. -/
  failed : ∀ schema error, (mapSchema options schema).result = .error error →
    Stopped options schema error
  /-- There are no other events, and each has its level. -/
  told : ∀ schema, ∀ event ∈ (mapSchema options schema).events,
    Told options schema event event.level

theorem mapSchema_stopped {options : Options} {schema : Schema} {error : SchemaError}
    (failed : (mapSchema options schema).result = .error error) :
    Stopped options schema error := by
  obtain ⟨earlier, definition, later, before, declaration, after, split, inner, passes, free,
    refusal⟩ := (mapSchema_error_iff_first options schema error).mp failed
  obtain ⟨exported, whole⟩ := (Traced.each_passes_iff (mapDefinition options) earlier).mpr
    fun other member => (mapDefinition_passes_iff options other).mpr (passes other member)
  have mapped := (Traced.each_ok_iff _ _ _).mp whole
  exact .refused split inner mapped free refusal
    (mapSchema_events_of_refusal split inner mapped free refusal)

theorem mapSchema_told (options : Options) (schema : Schema) (event : Event)
    (told : event ∈ (mapSchema options schema).events) : Told options schema event event.level := by
  cases result : (mapSchema options schema).result with
  | ok document =>
    rw [mapSchema_events_of_ok result, List.mem_append, List.mem_singleton] at told
    rcases told with told | rfl
    · have mapped := ((mapSchema_ok_iff options schema document).mp result).1
      exact told_of_definitions mapped (fun _ member => member) told
    · exact .schemaMapped result
  | error error =>
    cases mapSchema_stopped result with
    | refused split inner mapped _ _ events =>
      rw [events, List.mem_append, List.mem_flatMap] at told
      rcases told with told | ⟨one, member, told⟩
      · refine told_of_definitions mapped (fun other member => ?_) told
        rw [split]
        exact List.mem_append_left _ member
      · refine told_of_declaration ?_ ?_ told
        · simp [split]
        · simp [inner, member]

/-- The events of mapping account for every schema, whether it is mapped or fails. -/
theorem mapSchema_accounted (options : Options) : Accounted options where
  declaration := mapDeclaration_events options
  conserved _ _ _ _ expression mapped := mapDeclaration_conserves expression mapped
  counted _ _ := mapDefinition_counts
  mapped schema document mapped :=
    ⟨((mapSchema_ok_iff options schema document).mp mapped).1, mapSchema_events_of_ok mapped⟩
  failed _ _ := mapSchema_stopped
  told := mapSchema_told options

/-- A lenient export tells of the placeholders in the order of the walk, and of nothing behind a
declaration that it refuses. -/
example :
    let nested : Rewrite :=
      ⟨.union, [.computed "viewer", .nested .exclusion [.arrow "parent" "view", .nil], .this]⟩
    let declarations : List Declaration :=
      [{ Declaration.relation "viewer" [] with rewrite := some nested },
        .permission "view" nested,
        { Declaration.relation "own" [] with metadata := [.relationKind .permission] }]
    (mapSchema {} ⟨[⟨"acme/document", declarations, []⟩,
      ⟨"folder", [.permission "view" nested, { name := "edit" }], []⟩], []⟩).events =
        [.dropped "acme/document" "view" "_nil", .dropped "acme/document" "view" "_this",
          .withoutRewrite "acme/document" "own", .definitionMapped "acme" "document" 1 2,
          .dropped "folder" "view" "_nil", .dropped "folder" "view" "_this"] := by
  simp only [Declaration.relation, Declaration.permission, MetadataEntry.relationKind_eq]
  rfl

end Export

end PermissionSchema
