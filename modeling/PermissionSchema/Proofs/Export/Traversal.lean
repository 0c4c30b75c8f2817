import PermissionSchema.Export.Mapping
import Mathlib.Data.List.Forall2
/-!
Going through a list of items, each of which may fail. The results of such a pass, and the failure
that ends it, are read off the results for single items.
-/
namespace PermissionSchema.Export

namespace Traced

variable {α β γ : Type}

theorem map_id (pass : Traced α) : id <$> pass = pass := by
  obtain ⟨events, result⟩ := pass
  cases result with
  | ok value => exact congrArg (Traced.mk · _) (List.append_nil events)
  | error error => rfl

theorem bind_assoc (first : Traced α) (next : α → Traced β) (last : β → Traced γ) :
    first >>= next >>= last = first >>= fun value => next value >>= last := by
  obtain ⟨events, result⟩ := first
  cases result with
  | ok value =>
    cases middle : (next value).result with
    | ok other => simp [middle, Bind.bind, bind]
    | error error => simp [middle, Bind.bind, bind]
  | error error => rfl

instance : LawfulMonad Traced :=
  LawfulMonad.mk' _ map_id (fun _ _ => rfl) bind_assoc

theorem bind_ok_iff {first : Traced α} {next : α → Traced β} {value : β} :
    (first >>= next).result = .ok value ↔
      ∃ middle, first.result = .ok middle ∧ (next middle).result = .ok value := by
  cases result : first.result with
  | ok middle => simp [bind_ok result]
  | error error => simp [bind_error result]

/-- A bind fails as the first of its parts that fails. -/
theorem bind_error_iff {first : Traced α} {next : α → Traced β} {error : SchemaError} :
    (first >>= next).result = .error error ↔
      first.result = .error error ∨
        ∃ middle, first.result = .ok middle ∧ (next middle).result = .error error := by
  cases result : first.result with
  | ok middle => simp [bind_ok result]
  | error error => simp [bind_error result]

theorem bind_result (first : Traced α) (next : α → Traced β) :
    (first >>= next).result = first.result >>= fun value => (next value).result := by
  cases result : first.result with
  | ok value => simp [bind_ok result]; rfl
  | error error => simp [bind_error result]; rfl

theorem map_ok_iff {first : Traced α} {change : α → β} {value : β} :
    (change <$> first).result = .ok value ↔
      ∃ middle, first.result = .ok middle ∧ change middle = value := by
  show (first >>= fun middle => pure (change middle)).result = _ ↔ _
  simp [bind_ok_iff, pure_eq]

theorem map_error_iff {first : Traced α} {change : α → β} {error : SchemaError} :
    (change <$> first).result = .error error ↔ first.result = .error error := by
  show (first >>= fun middle => pure (change middle)).result = _ ↔ _
  simp [bind_error_iff, pure_eq]

theorem map_events (change : α → β) (first : Traced α) : (change <$> first).events = first.events := by
  show (first >>= fun middle => pure (change middle)).events = _
  cases result : first.result with
  | ok middle => rw [bind_ok result, pure_eq, List.append_nil]
  | error error => rw [bind_error result]

def Fails (pass : Traced α) : Prop :=
  ∃ error, pass.result = .error error

theorem not_fails_iff {pass : Traced α} : ¬pass.Fails ↔ ∃ value, pass.result = .ok value := by
  unfold Fails
  cases pass.result with
  | ok value => simp
  | error error => simp

def each (act : α → Traced β) : List α → Traced (List β)
  | [] => pure []
  | item :: rest => do
    let value ← act item
    let values ← each act rest
    pure (value :: values)

theorem each_ok_iff (act : α → Traced β) (items : List α) (values : List β) :
    (each act items).result = .ok values ↔
      List.Forall₂ (fun item value => (act item).result = .ok value) items values := by
  induction items generalizing values with
  | nil =>
    rw [List.forall₂_nil_left_iff]
    simp only [each, pure_eq, Except.ok.injEq]
    exact eq_comm
  | cons item rest ih =>
    rw [List.forall₂_cons_left_iff]
    simp only [each, bind_ok_iff, pure_eq, ih, Except.ok.injEq]
    constructor
    · intro result
      obtain ⟨value, first, values, later, same⟩ := result
      exact ⟨value, values, first, later, same.symm⟩
    · intro shape
      obtain ⟨value, values, first, later, same⟩ := shape
      exact ⟨value, first, values, later, same.symm⟩

/-- A pass fails as the first item that fails; all items before it have values. -/
theorem each_error_iff (act : α → Traced β) (items : List α) (error : SchemaError) :
    (each act items).result = .error error ↔
      ∃ before item after, items = before ++ item :: after ∧
        (∀ earlier ∈ before, ∃ value, (act earlier).result = .ok value) ∧
        (act item).result = .error error := by
  induction items with
  | nil => simp [each, pure_eq]
  | cons item rest ih =>
    simp only [each, bind_error_iff, pure_eq, ih, reduceCtorEq, and_false, exists_false, or_false]
    constructor
    · intro fails
      rcases fails with failed | ⟨value, passed, before, later, after, split, earlier, failed⟩
      · exact ⟨[], item, rest, rfl, by simp, failed⟩
      · subst split
        refine ⟨item :: before, later, after, rfl, ?_, failed⟩
        intro other member
        rcases List.mem_cons.mp member with same | member
        · exact ⟨value, same ▸ passed⟩
        · exact earlier other member
    · intro shape
      obtain ⟨before, later, after, split, earlier, failed⟩ := shape
      cases before with
      | nil =>
        obtain ⟨rfl, rfl⟩ := List.cons.inj split
        exact Or.inl failed
      | cons first before =>
        obtain ⟨rfl, rfl⟩ := List.cons.inj split
        obtain ⟨value, passed⟩ := earlier item List.mem_cons_self
        exact Or.inr ⟨value, passed, before, later, after, rfl,
          fun other member => earlier other (List.mem_cons_of_mem _ member), failed⟩

theorem each_fails_iff (act : α → Traced β) (items : List α) :
    (each act items).Fails ↔ ∃ item ∈ items, (act item).Fails := by
  induction items with
  | nil => simp [Fails, each, pure_eq]
  | cons item rest ih =>
    have first : (each act (item :: rest)).Fails ↔
        (act item).Fails ∨ (∃ value, (act item).result = .ok value) ∧ (each act rest).Fails := by
      simp only [Fails, each, bind_error_iff, pure_eq, reduceCtorEq, and_false, exists_false,
        or_false, exists_or]
      exact or_congr_right ⟨fun ⟨error, value, passed, failed⟩ => ⟨⟨value, passed⟩, error, failed⟩,
        fun ⟨⟨value, passed⟩, error, failed⟩ => ⟨error, value, passed, failed⟩⟩
    rw [first, ih, ← not_fails_iff, List.exists_mem_cons_iff]
    by_cases failed : (act item).Fails
    · simp [failed]
    · simp [failed]

theorem each_passes_iff (act : α → Traced β) (items : List α) :
    (∃ values, (each act items).result = .ok values) ↔
      ∀ item ∈ items, ∃ value, (act item).result = .ok value := by
  simp only [← not_fails_iff, each_fails_iff, not_exists, not_and]

/-- A pass is told by what each of its items comes to. -/
theorem each_congr {act : α → Traced γ} {other : β → Traced γ} {items : List α} {others : List β}
    (same : List.Forall₂ (fun item value => act item = other value) items others) :
    each act items = each other others := by
  induction same with
  | nil => rfl
  | cons first _ ih => rw [each, each, first, ih]

theorem each_result_congr {act : α → Traced γ} {other : β → Traced γ} {items : List α}
    {others : List β}
    (same : List.Forall₂ (fun item value => (act item).result = (other value).result) items
      others) :
    (each act items).result = (each other others).result := by
  induction same with
  | nil => rfl
  | cons first _ ih => simp only [each, bind_result, first, ih, pure_eq]

/-- Items that have values tell their events in order before a pass goes on to the rest. -/
theorem each_append_events (act : α → Traced β) {before : List α} (rest : List α)
    (passed : ∀ item ∈ before, ∃ value, (act item).result = .ok value) :
    (each act (before ++ rest)).events =
      before.flatMap (fun item => (act item).events) ++ (each act rest).events := by
  induction before with
  | nil => rfl
  | cons item before ih =>
    obtain ⟨⟨value, first⟩, later⟩ := List.forall_mem_cons.mp passed
    have inner := ih later
    rw [List.cons_append, each, bind_ok first, List.flatMap_cons, List.append_assoc, ← inner]
    cases remaining : (each act (before ++ rest)).result with
    | ok values => rw [bind_ok remaining, pure_eq, List.append_nil]
    | error error => rw [bind_error remaining]

theorem each_events_of_ok {act : α → Traced β} {items : List α} {values : List β}
    (passed : (each act items).result = .ok values) :
    (each act items).events = items.flatMap fun item => (act item).events := by
  have single := (each_passes_iff act items).mp ⟨values, passed⟩
  have whole := each_append_events act [] single
  rwa [List.append_nil, each, pure_eq, List.append_nil] at whole

/-- A pass that fails tells no more than the item that it fails at. -/
theorem each_events_of_error {act : α → Traced β} {before after : List α} {item : α}
    {error : SchemaError} (passed : ∀ earlier ∈ before, ∃ value, (act earlier).result = .ok value)
    (failed : (act item).result = .error error) :
    (each act (before ++ item :: after)).events =
      before.flatMap (fun item => (act item).events) ++ (act item).events := by
  rw [each_append_events act _ passed, each, bind_error failed]

end Traced

open PermissionSchema.Compiled

theorem mapDeclarations_eq_each (options : Options) (owner : String)
    (declarations : List Declaration) :
    mapDeclarations options owner declarations =
      Traced.each (mapDeclaration options owner) declarations := by
  induction declarations with
  | nil => rfl
  | cons declaration rest ih => rw [mapDeclarations, Traced.each, ih]

theorem mapDefinitions_eq_each (options : Options) (definitions : List Definition) :
    mapDefinitions options definitions = Traced.each (mapDefinition options) definitions := by
  induction definitions with
  | nil => rfl
  | cons definition rest ih => rw [mapDefinitions, Traced.each, ih]

def definitionOf (options : Options) (definition : Definition) (entries : List Entry) :
    Document.Definition where
  name := (Document.splitName definition.name).2
  nameSpace := (Document.splitName definition.name).1
  relations := relationsOf entries
  permissions := permissionsOf entries
  comment := docComment definition.metadata options.docCommentUrl

theorem mapDefinition_result (options : Options) (definition : Definition) :
    (mapDefinition options definition).result = definitionOf options definition <$>
      (Traced.each (mapDeclaration options definition.name) definition.declarations).result := by
  simp only [mapDefinition, mapDeclarations_eq_each, Traced.bind_result, Traced.emit,
    Traced.pure_eq]
  rfl

def documentOf (options : Options) (schema : Schema) (definitions : List Document.Definition) :
    Document.Schema :=
  ⟨definitions, schema.caveats.map (mapCaveat options)⟩

theorem mapSchema_result (options : Options) (schema : Schema) :
    (mapSchema options schema).result = documentOf options schema <$>
      (Traced.each (mapDefinition options) schema.definitions).result := by
  simp only [mapSchema, mapDefinitions_eq_each, Traced.bind_result, Traced.emit, Traced.pure_eq]
  rfl

theorem mapDefinition_ok_iff (options : Options) (definition : Definition)
    (exported : Document.Definition) :
    (mapDefinition options definition).result = .ok exported ↔
      ∃ entries, List.Forall₂
          (fun declaration entry =>
            (mapDeclaration options definition.name declaration).result = .ok entry)
          definition.declarations entries ∧
        exported = definitionOf options definition entries := by
  simp only [mapDefinition_result, ← Traced.each_ok_iff]
  cases (Traced.each (mapDeclaration options definition.name) definition.declarations).result with
  | error error => simp
  | ok entries => simp [eq_comm]

theorem mapSchema_ok_iff (options : Options) (schema : Schema) (document : Document.Schema) :
    (mapSchema options schema).result = .ok document ↔
      List.Forall₂ (fun definition exported => (mapDefinition options definition).result = .ok exported)
          schema.definitions document.definitions ∧
        document.caveats = schema.caveats.map (mapCaveat options) := by
  rw [mapSchema_result, ← Traced.each_ok_iff]
  cases (Traced.each (mapDefinition options) schema.definitions).result with
  | error error => simp
  | ok definitions =>
    obtain ⟨mapped, caveats⟩ := document
    simp [documentOf, eq_comm]

/-- Mapping caveats takes no part in a failure. -/
theorem mapSchema_error_iff_definitions (options : Options) (schema : Schema)
    (error : SchemaError) :
    (mapSchema options schema).result = .error error ↔
      (Traced.each (mapDefinition options) schema.definitions).result = .error error := by
  rw [mapSchema_result]
  cases (Traced.each (mapDefinition options) schema.definitions).result <;> simp

end PermissionSchema.Export
