import Mathlib.Data.List.AList

/-!
# Filling a map from a list of keys
-/

namespace AList

variable {α β : Type} [DecidableEq α]

/-- A map filled with the values of a function, key by key. -/
theorem lookup_foldl_insert (value : α → β) (keys : List α) (start : AList fun _ : α => β)
    (key : α) :
    (keys.foldl (fun map key => map.insert key (value key)) start).lookup key =
      if key ∈ keys then some (value key) else start.lookup key := by
  induction keys generalizing start with
  | nil => simp
  | cons first keys ih =>
      rw [List.foldl_cons, ih]
      by_cases later : key ∈ keys
      · simp [later]
      · by_cases same : key = first
        · subst same
          simp [later]
        · simp [later, same, AList.lookup_insert_ne same]

end AList
