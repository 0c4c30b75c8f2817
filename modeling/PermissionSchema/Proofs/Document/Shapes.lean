import PermissionSchema.Document.UserSet
import PermissionSchema.Proofs.Json.Views
import Mathlib.Tactic.MkIffOfInductiveProp
/-!
The three shapes of user sets, each said of a JSON value through what stands under its names and how
that reads. A user set is read of a text as the first shape that fits, and of a text of no shape
none is read.
-/
namespace PermissionSchema

open PermissionSchema.Json
open PermissionSchema.Json.Reader (any)

theorem Operator.views : Operator.codec.Views Document.UserSet.operatorOfJson := by
  have named : Document.UserSet.operatorOfJson = Operator.variants.named? := by
    funext json
    unfold Document.UserSet.operatorOfJson Reader.Variants.named?
    rfl
  rw [named]
  exact views_choice (fun _ => rfl) _ _

namespace Document.UserSet

/-- An operation: an operator that reads, and operands that read, all of them. It may lack the list
of its operands, and then has none. -/
@[mk_iff]
structure IsOperation (json : Json) (operator : Operator) (operands : List UserSet) : Prop where
  operator : ∃ held ∈ json.under "operation", Operator.codec.ReadsAs held operator
  operands : json.under "children" = [] ∧ operands = [] ∨
    ∃ items, .array items ∈ json.under "children" ∧
      List.Forall₂ UserSet.codec.ReadsAs items operands

@[mk_iff]
structure IsArrow (json : Json) (through permission : String) : Prop where
  through : .string through ∈ json.under "relation"
  permission : .string permission ∈ json.under "permission"

def IsRelation (json : Json) (name : String) : Prop :=
  .string name ∈ json.under "relation"

theorem read_eq {depth : Nat} {input rest : List UInt8} {json : Json}
    (kept : any depth input = .ok (json, rest)) :
    UserSet.codec.read depth input =
      match ofJson json with
      | some set => .ok (set, rest)
      | none => .error ⟨.noShape "UserSet", none, rest⟩ := by
  refine (Reader.bind_ok kept).trans ?_
  cases ofJson json <;> rfl

theorem views : UserSet.codec.Views ofJson := by
  intro depth input set rest
  constructor
  · intro read
    obtain ⟨json, middle, kept, _⟩ := Reader.bind_eq_ok.mp read
    rw [read_eq kept] at read
    cases shape : ofJson json with
    | none => simp [shape] at read
    | some found =>
      simp only [shape, Except.ok.injEq, Prod.mk.injEq] at read
      obtain ⟨rfl, rfl⟩ := read
      exact ⟨json, kept, shape⟩
  · rintro ⟨json, kept, shape⟩
    rw [read_eq kept, shape]

theorem ofText_eq {text : String} {json : Json} (kept : keeping.ofText text = .ok json) :
    UserSet.codec.ofText text =
      match ofJson json with
      | some set => .ok set
      | none => .error (Fault.noShape "UserSet").message := by
  obtain ⟨rest, read, behind⟩ := Reader.ofText_eq_ok.mp kept
  have inPlace := read_eq read
  cases shape : ofJson json with
  | none =>
    rw [shape] at inPlace
    rw [Codec.ofText, Codec.ofOctets, Reader.readAll, inPlace]
    rfl
  | some set => exact Reader.ofText_eq_ok.mpr ⟨rest, views.mpr ⟨json, read, shape⟩, behind⟩

theorem membersOfJson_eq (members : List (String × Json)) :
    membersOfJson members =
      { operation := ((Json.object members).under "operation").map operatorOfJson
        children := ((Json.object members).under "children").map childrenOfJson
        relation := ((Json.object members).under "relation").map textOfJson
        permission := ((Json.object members).under "permission").map textOfJson } := by
  induction members with
  | nil => rfl
  | cons member rest ih =>
    obtain ⟨name, value⟩ := member
    rw [membersOfJson, ih]
    simp only [under, List.filter_cons]
    split_ifs <;> simp_all

theorem ofJson_eq (json : Json) :
    ofJson json = Members.userSet?
      { operation := (json.under "operation").map operatorOfJson
        children := (json.under "children").map childrenOfJson
        relation := (json.under "relation").map textOfJson
        permission := (json.under "permission").map textOfJson } := by
  cases json with
  | object members => rw [ofJson, membersOfJson_eq]
  | _ => rfl

theorem Members.userSet?_eq_operation {members : Members} {operator : Operator}
    {operands : List UserSet} :
    members.userSet? = some (.operation operator operands) ↔
      members.operation = [some operator] ∧
        (members.children = [] ∧ operands = [] ∨ members.children = [some operands]) := by
  unfold Members.userSet?
  split <;> grind

theorem Members.userSet?_eq_arrow {members : Members} {through permission : String} :
    members.userSet? = some (.arrow through permission) ↔
      (∀ operator operands, members.userSet? ≠ some (.operation operator operands)) ∧
        members.relation = [some through] ∧ members.permission = [some permission] := by
  unfold Members.userSet?
  split <;> grind

theorem Members.userSet?_eq_relation {members : Members} {name : String} :
    members.userSet? = some (.relation name) ↔
      (∀ operator operands, members.userSet? ≠ some (.operation operator operands)) ∧
        (∀ through permission, members.userSet? ≠ some (.arrow through permission)) ∧
        members.relation = [some name] := by
  unfold Members.userSet?
  split <;> grind

theorem childrenOfJson_eq_some {json : Json} {sets : List UserSet} :
    childrenOfJson json = some sets ↔
      ∃ items, json = .array items ∧ listOfJson items = some sets := by
  cases json <;> simp [childrenOfJson]

theorem textOfJson_eq_some {json : Json} {text : String} :
    textOfJson json = some text ↔ json = .string text := by
  cases json <;> simp [textOfJson]

theorem listOfJson_eq_some {items : List Json} {sets : List UserSet} :
    listOfJson items = some sets ↔
      List.Forall₂ (fun item set => ofJson item = some set) items sets := by
  induction items generalizing sets with
  | nil => simp [listOfJson, eq_comm]
  | cons item rest ih =>
    rw [listOfJson, List.forall₂_cons_left_iff]
    constructor
    · intro read
      split at read
      · rename_i set others first later
        cases read
        exact ⟨set, others, first, ih.mp later, rfl⟩
      · cases read
    · rintro ⟨set, others, first, later, rfl⟩
      rw [first, ih.mpr later]

theorem map_eq_single_iff {α β : Type} {values : List α} (few : values.length ≤ 1) {change : α → β}
    {result : β} :
    values.map change = [result] ↔ ∃ value ∈ values, change value = result := by
  match values, few with
  | [], _ => simp
  | [value], _ => simp

section Kept

variable {json : Json}

theorem operands_iff (readable : Readable json) (distinct : json.names.Nodup)
    {operands : List UserSet} :
    (json.under "children").map childrenOfJson = [some operands] ↔
      ∃ items, .array items ∈ json.under "children" ∧
        List.Forall₂ UserSet.codec.ReadsAs items operands := by
  rw [map_eq_single_iff (length_under_le distinct "children")]
  constructor
  · rintro ⟨held, among, read⟩
    obtain ⟨items, rfl, each⟩ := childrenOfJson_eq_some.mp read
    have parts := (readable.under _ among).item
    exact ⟨items, among, (views.forall₂_readsAs_iff parts).mpr (listOfJson_eq_some.mp each)⟩
  · rintro ⟨items, among, each⟩
    have parts := (readable.under _ among).item
    refine ⟨.array items, among, childrenOfJson_eq_some.mpr ⟨items, rfl, ?_⟩⟩
    exact listOfJson_eq_some.mpr ((views.forall₂_readsAs_iff parts).mp each)

theorem operator_iff (readable : Readable json) (distinct : json.names.Nodup)
    {operator : Operator} :
    (json.under "operation").map operatorOfJson = [some operator] ↔
      ∃ held ∈ json.under "operation", Operator.codec.ReadsAs held operator := by
  rw [map_eq_single_iff (length_under_le distinct "operation")]
  refine exists_congr fun held => and_congr_right fun among => ?_
  rw [Operator.views.readsAs_iff, and_iff_right (readable.under held among)]

theorem text_iff (distinct : json.names.Nodup) (name : String) {text : String} :
    (json.under name).map textOfJson = [some text] ↔ .string text ∈ json.under name := by
  rw [map_eq_single_iff (length_under_le distinct name)]
  simp only [textOfJson_eq_some, exists_eq_right]

theorem ofJson_eq_operation (readable : Readable json) (distinct : json.names.Nodup)
    {operator : Operator} {operands : List UserSet} :
    ofJson json = some (.operation operator operands) ↔ IsOperation json operator operands := by
  rw [ofJson_eq, Members.userSet?_eq_operation, operator_iff readable distinct,
    operands_iff readable distinct, List.map_eq_nil_iff, isOperation_iff]

theorem ofJson_ne_operation (readable : Readable json) (distinct : json.names.Nodup) :
    (∀ operator operands, ofJson json ≠ some (.operation operator operands)) ↔
      ¬∃ operator operands, IsOperation json operator operands := by
  simp only [← ofJson_eq_operation readable distinct, not_exists, ne_eq]

theorem ofJson_eq_arrow (readable : Readable json) (distinct : json.names.Nodup)
    {through permission : String} :
    ofJson json = some (.arrow through permission) ↔
      (¬∃ operator operands, IsOperation json operator operands) ∧
        IsArrow json through permission := by
  rw [ofJson_eq, Members.userSet?_eq_arrow, ← ofJson_eq, text_iff distinct, text_iff distinct,
    ofJson_ne_operation readable distinct, isArrow_iff]

theorem ofJson_eq_relation (readable : Readable json) (distinct : json.names.Nodup)
    {name : String} :
    ofJson json = some (.relation name) ↔
      (¬∃ operator operands, IsOperation json operator operands) ∧
        (¬∃ through permission, IsArrow json through permission) ∧ IsRelation json name := by
  rw [ofJson_eq, Members.userSet?_eq_relation, ← ofJson_eq, text_iff distinct,
    ofJson_ne_operation readable distinct]
  refine and_congr_right fun other => and_congr_left fun _ => ?_
  simp only [ne_eq, ofJson_eq_arrow readable distinct, other, not_false_eq_true, true_and,
    not_exists]

theorem ofJson_eq_none (readable : Readable json) (distinct : json.names.Nodup) :
    ofJson json = none ↔
      (¬∃ operator operands, IsOperation json operator operands) ∧
        (¬∃ through permission, IsArrow json through permission) ∧
        ¬∃ name, IsRelation json name := by
  constructor
  · intro none
    have operation : ¬∃ operator operands, IsOperation json operator operands := by
      rw [← ofJson_ne_operation readable distinct, none]
      exact fun _ _ => nofun
    have arrow : ¬∃ through permission, IsArrow json through permission := by
      rintro ⟨through, permission, fits⟩
      have read := (ofJson_eq_arrow readable distinct).mpr ⟨operation, fits⟩
      exact absurd (none.symm.trans read) nofun
    refine ⟨operation, arrow, ?_⟩
    rintro ⟨name, fits⟩
    have read := (ofJson_eq_relation readable distinct).mpr ⟨operation, arrow, fits⟩
    exact absurd (none.symm.trans read) nofun
  · rintro ⟨operation, arrow, relation⟩
    cases read : ofJson json with
    | none => rfl
    | some set =>
      cases set with
      | operation operator operands =>
        exact absurd ⟨_, _, (ofJson_eq_operation readable distinct).mp read⟩ operation
      | arrow through permission =>
        exact absurd ⟨_, _, ((ofJson_eq_arrow readable distinct).mp read).2⟩ arrow
      | relation name =>
        exact absurd ⟨_, ((ofJson_eq_relation readable distinct).mp read).2.2⟩ relation

end Kept

def shapeNames : List String := ["operation", "children", "relation", "permission"]

structure ReadByShape (text : String) (json : Json) : Prop where
  operation (operator : Operator) (operands : List UserSet) :
    UserSet.codec.ofText text = .ok (.operation operator operands) ↔
      IsOperation json operator operands
  arrow (through permission : String) :
    UserSet.codec.ofText text = .ok (.arrow through permission) ↔
      (¬∃ operator operands, IsOperation json operator operands) ∧ IsArrow json through permission
  relation (name : String) :
    UserSet.codec.ofText text = .ok (.relation name) ↔
      (¬∃ operator operands, IsOperation json operator operands) ∧
        (¬∃ through permission, IsArrow json through permission) ∧ IsRelation json name
  /-- What fits no shape is refused, and nothing else is. -/
  refused :
    UserSet.codec.ofText text = .error (Fault.noShape "UserSet").message ↔
      (¬∃ operator operands, IsOperation json operator operands) ∧
        (¬∃ through permission, IsArrow json through permission) ∧ ¬∃ name, IsRelation json name
  list (items : List Json) (listed : json = .array items) :
    UserSet.codec.ofText text = .error (Fault.noShape "UserSet").message
  /-- No member of another name matters, nor does the order of the members. -/
  others (other : String) (value : Json) (kept : keeping.ofText other = .ok value)
    (same : ∀ name ∈ shapeNames, value.under name = json.under name) :
    UserSet.codec.ofText other = UserSet.codec.ofText text

/-- Of every text that is JSON, and whose members have names of their own, a user set is read as the
first of the three shapes that fits; there are no other user sets. -/
theorem ofText_by_shape (text : String) (json : Json) (kept : keeping.ofText text = .ok json)
    (distinct : json.names.Nodup) : ReadByShape text json := by
  have readable := readable_of_ofText kept
  have told (set : UserSet) : UserSet.codec.ofText text = .ok set ↔ ofJson json = some set := by
    rw [ofText_eq kept]
    cases ofJson json <;> simp
  have refused : UserSet.codec.ofText text = .error (Fault.noShape "UserSet").message ↔
      ofJson json = none := by
    rw [ofText_eq kept]
    cases ofJson json <;> simp
  constructor
  case operation =>
    intro operator operands
    rw [told, ofJson_eq_operation readable distinct]
  case arrow =>
    intro through permission
    rw [told, ofJson_eq_arrow readable distinct]
  case relation =>
    intro name
    rw [told, ofJson_eq_relation readable distinct]
  case refused => rw [refused, ofJson_eq_none readable distinct]
  case list =>
    rintro items rfl
    exact refused.mpr rfl
  case others =>
    intro other value alike same
    simp only [shapeNames, List.forall_mem_cons] at same
    obtain ⟨operation, children, relation, permission, _⟩ := same
    rw [ofText_eq kept, ofText_eq alike, ofJson_eq value, ofJson_eq json, operation, children,
      relation, permission]

/-- A union of a number, which no user set is. -/
def brokenUnion : Json :=
  .object [("operation", .string "union"), ("children", .array [.natural 3])]

/-- A union of what is no user set either, beside the names of an arrow and one that nobody asks
for. -/
def fallenUnion : Json :=
  .object [
    ("operation", .string "union"), ("children", .array [brokenUnion]),
    ("relation", .string "parent"), ("note", .null), ("permission", .string "view")]

theorem ofText_by_shape_fallen :
    (keeping.ofText fallenUnion.text = .ok fallenUnion ∧ fallenUnion.names.Nodup) ∧
      ReadByShape fallenUnion.text fallenUnion ∧
      UserSet.codec.ofText fallenUnion.text = .ok (.arrow "parent" "view") := by
  have broken : brokenUnion.Exact := by
    refine .object ?_
    simp only [List.forall_mem_cons]
    exact ⟨.string _, .array (by simpa using Exact.natural (by decide)), List.forall_mem_nil _⟩
  have exact : fallenUnion.Exact := by
    refine .object ?_
    simp only [List.forall_mem_cons]
    exact ⟨.string _, .array (by simpa using broken), .string _, .null, .string _,
      List.forall_mem_nil _⟩
  have spells : Spells fallenUnion.tokens fallenUnion.text.toList := by
    rw [Json.text, String.toList_ofList]
    exact spells_compact exact
  have back : keeping.ReadsBack fallenUnion.text fallenUnion :=
    Takes.readsBack (Reader.takes_any exact) spells
  have kept := back.ok (by rw [nesting_of_spells spells]; decide)
  have distinct : fallenUnion.names.Nodup := by decide
  have shape := ofText_by_shape fallenUnion.text fallenUnion kept distinct
  refine ⟨⟨kept, distinct⟩, shape, (shape.arrow "parent" "view").mpr ⟨?_, ?_⟩⟩
  · rintro ⟨operator, operands, fits⟩
    rcases fits.operands with ⟨missing, _⟩ | ⟨items, among, each⟩
    · cases missing
    · cases List.mem_singleton.mp among
      obtain ⟨set, _, reads, _⟩ := List.forall₂_cons_left_iff.mp each
      have shape : ofJson brokenUnion = some set := (views.readsAs_iff.mp reads).2
      cases shape
  · exact ⟨List.mem_singleton.mpr rfl, List.mem_singleton.mpr rfl⟩

end Document.UserSet

end PermissionSchema
