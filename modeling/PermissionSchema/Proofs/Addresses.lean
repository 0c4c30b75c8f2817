import PermissionSchema.Service
import Mathlib.Data.List.DropRight
/-!
Addresses of endpoints, and the slashes at the end of a base. The path is put behind a base without
its slashes, but whether a base is complete is seen before they are dropped. So they change nothing
of the address, unless they stand behind a complete base: then the path comes a second time.
-/
namespace PermissionSchema.Service.Endpoint

structure Proper (endpoint : Endpoint) : Prop where
  rooted : endpoint.path.toList.head? = some '/'
  closed : endpoint.path.toList.getLast? ≠ some '/'

def Complete (endpoint : Endpoint) (base : List Char) : Prop :=
  endpoint.path.toList <:+ base

instance (endpoint : Endpoint) (base : List Char) : Decidable (endpoint.Complete base) :=
  inferInstanceAs (Decidable (endpoint.path.toList <:+ base))

def slashes (count : Nat) : List Char :=
  List.replicate count '/'

def bare (base : List Char) : List Char :=
  base.rdropWhile (· = '/')

variable {endpoint : Endpoint} {base : List Char}

theorem address_of_complete (complete : endpoint.Complete base) : endpoint.address base = base := by
  unfold address
  exact if_pos (List.isSuffixOf_iff_suffix.mpr complete)

theorem address_of_not_complete (incomplete : ¬endpoint.Complete base) :
    endpoint.address base = bare base ++ endpoint.path.toList := by
  unfold address
  exact if_neg fun ends => incomplete (List.isSuffixOf_iff_suffix.mp ends)

theorem complete_address (endpoint : Endpoint) (base : List Char) :
    endpoint.Complete (endpoint.address base) := by
  by_cases complete : endpoint.Complete base
  · rwa [address_of_complete complete]
  · rw [address_of_not_complete complete]
    exact List.suffix_append (bare base) endpoint.path.toList

theorem address_address (endpoint : Endpoint) (base : List Char) :
    endpoint.address (endpoint.address base) = endpoint.address base :=
  address_of_complete (complete_address endpoint base)

@[simp] theorem append_slashes_zero (base : List Char) : base ++ slashes 0 = base :=
  List.append_nil base

theorem slashes_succ (count : Nat) : slashes (count + 1) = slashes count ++ ['/'] :=
  List.replicate_succ'

theorem bare_append_slashes (base : List Char) (count : Nat) :
    bare (base ++ slashes count) = bare base := by
  induction count with
  | zero => rw [append_slashes_zero]
  | succ count ih =>
    rw [slashes_succ, ← List.append_assoc, bare, List.rdropWhile_concat_pos _ _ _ (by decide)]
    exact ih

theorem Proper.path_ne_nil (proper : endpoint.Proper) : endpoint.path.toList ≠ [] := by
  intro none
  have rooted := proper.rooted
  rw [none] at rooted
  cases rooted

theorem Proper.bare_of_complete (proper : endpoint.Proper) (complete : endpoint.Complete base) :
    bare base = base := by
  rw [bare, List.rdropWhile_eq_self_iff]
  intro some slash
  have last : endpoint.path.toList.getLast proper.path_ne_nil = base.getLast some :=
    complete.getLast proper.path_ne_nil
  apply proper.closed
  rw [List.getLast?_eq_some_getLast proper.path_ne_nil, last, of_decide_eq_true slash]

/-- With a slash behind it no base is complete, even if it was complete before. -/
theorem Proper.not_complete_append_slashes (proper : endpoint.Proper) (base : List Char)
    {count : Nat} (some : 0 < count) : ¬endpoint.Complete (base ++ slashes count) := by
  intro complete
  have whole : bare base = base ++ slashes count := by
    rw [← bare_append_slashes base count, proper.bare_of_complete complete]
  have shorter : (bare base).length ≤ base.length := (List.rdropWhile_prefix _ _).length_le
  rw [whole, List.length_append, slashes, List.length_replicate] at shorter
  omega

theorem Proper.address_append_slashes (proper : endpoint.Proper) (base : List Char) {count : Nat}
    (some : 0 < count) :
    endpoint.address (base ++ slashes count) = bare base ++ endpoint.path.toList := by
  rw [address_of_not_complete (proper.not_complete_append_slashes base some), bare_append_slashes]

theorem Proper.address_append_slashes_of_complete (proper : endpoint.Proper)
    (complete : endpoint.Complete base) {count : Nat} (some : 0 < count) :
    endpoint.address (base ++ slashes count) = base ++ endpoint.path.toList := by
  rw [proper.address_append_slashes base some, proper.bare_of_complete complete]

theorem Proper.address_append_slashes_of_not_complete (proper : endpoint.Proper)
    (incomplete : ¬endpoint.Complete base) (count : Nat) :
    endpoint.address (base ++ slashes count) = endpoint.address base := by
  rcases Nat.eq_zero_or_pos count with none | some
  · rw [none, append_slashes_zero]
  · rw [proper.address_append_slashes base some, address_of_not_complete incomplete]

/-- Slashes at the end of a base change nothing of the address exactly if the base does not already
end in the path. One that does is the address, and with slashes behind it gets the path again. -/
theorem address_append_slashes_eq_iff (proper : endpoint.Proper) (base : List Char) (count : Nat) :
    (endpoint.address (base ++ slashes count) = endpoint.address base ↔
        count = 0 ∨ ¬endpoint.Complete base) ∧
      (endpoint.Complete base → endpoint.address base = base ∧
        (0 < count →
          endpoint.address (base ++ slashes count) = base ++ endpoint.path.toList)) := by
  have ignored : endpoint.address (base ++ slashes count) = endpoint.address base ↔
      count = 0 ∨ ¬endpoint.Complete base := by
    constructor
    · intro same
      rcases Nat.eq_zero_or_pos count with none | some
      · exact Or.inl none
      · right
        intro complete
        rw [proper.address_append_slashes_of_complete complete some, address_of_complete complete,
          List.append_right_eq_self] at same
        exact proper.path_ne_nil same
    · intro harmless
      rcases harmless with none | incomplete
      · rw [none, append_slashes_zero]
      · exact proper.address_append_slashes_of_not_complete incomplete count
  refine ⟨ignored, fun complete => ⟨address_of_complete complete, fun some => ?_⟩⟩
  exact proper.address_append_slashes_of_complete complete some

theorem address_append_slashes_eq_iff_localhost :
    Proper {} ∧ ¬Complete {} "http://localhost:8443".toList ∧
      address {} ("http://localhost:8443".toList ++ slashes 3) =
        address {} "http://localhost:8443".toList ∧
      Complete {} "http://localhost:8443/v1/schema/read".toList ∧
      address {} ("http://localhost:8443/v1/schema/read".toList ++ slashes 2) =
        "http://localhost:8443/v1/schema/read".toList ++ defaultPath.toList := by
  have proper : Proper {} := ⟨by decide, by decide⟩
  have incomplete : ¬Complete {} "http://localhost:8443".toList := by decide
  have complete : Complete {} "http://localhost:8443/v1/schema/read".toList := by decide
  obtain ⟨host, _⟩ := address_append_slashes_eq_iff proper "http://localhost:8443".toList 3
  obtain ⟨_, again⟩ :=
    address_append_slashes_eq_iff proper "http://localhost:8443/v1/schema/read".toList 2
  exact ⟨proper, incomplete, host.mpr (Or.inr incomplete), complete,
    (again complete).2 (by decide)⟩

/-- One slash behind a complete base, and the path comes twice. -/
theorem address_complete_slash_localhost :
    Proper {} ∧
      address {} "http://localhost:8443/v1/schema/read".toList =
        "http://localhost:8443/v1/schema/read".toList ∧
      address {} ("http://localhost:8443/v1/schema/read".toList ++ slashes 1) =
        "http://localhost:8443/v1/schema/read/v1/schema/read".toList ∧
      address {} ("http://localhost:8443/v1/schema/read".toList ++ slashes 1) ≠
        address {} "http://localhost:8443/v1/schema/read".toList :=
  ⟨⟨by decide, by decide⟩, by decide, by decide, by decide⟩

end PermissionSchema.Service.Endpoint
