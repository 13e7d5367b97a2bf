import Mathlib.Data.List.Dedup
import Mathlib.Data.List.TakeDrop

/-!
# Least recently used

A cache that replaces what was used least recently. It holds the items that were used last, so a
smaller one holds a prefix of what a larger one holds.
-/

namespace VenomDb.Lru

variable {α : Type} [DecidableEq α] {item : α} {stack : List α}

/-- The items that were used, the one used last first. -/
def recency (uses : List α) : List α := uses.dedup.reverse

/-- An item is used: it goes to the front, and what the cache has no room for is dropped. -/
def touch (capacity : ℕ) (item : α) (cache : List α) : List α :=
  (item :: cache.erase item).take capacity

theorem nodup_recency (uses : List α) : (recency uses).Nodup :=
  List.nodup_reverse.mpr uses.nodup_dedup

theorem dedup_concat (uses : List α) (item : α) :
    (uses ++ [item]).dedup = uses.dedup.erase item ++ [item] := by
  induction uses with
  | nil => simp
  | cons other uses ih =>
      by_cases same : other = item
      · subst same
        rw [List.cons_append, List.dedup_cons_of_mem (by simp), ih]
        by_cases again : other ∈ uses
        · rw [List.dedup_cons_of_mem again]
        · rw [List.dedup_cons_of_notMem again, List.erase_cons_head,
            List.erase_of_not_mem (by simpa using again)]
      · by_cases again : other ∈ uses
        · rw [List.cons_append, List.dedup_cons_of_mem (by simp [again]), ih,
            List.dedup_cons_of_mem again]
        · rw [List.cons_append, List.dedup_cons_of_notMem (by simp [again, same]), ih,
            List.dedup_cons_of_notMem again, List.erase_cons_tail (by simpa using same),
            List.cons_append]

theorem recency_concat (uses : List α) (item : α) :
    recency (uses ++ [item]) = item :: (recency uses).erase item := by
  have nodup := uses.nodup_dedup
  rw [recency, recency, dedup_concat, List.reverse_append, List.reverse_singleton,
    List.singleton_append, nodup.erase_eq_filter, (List.nodup_reverse.mpr nodup).erase_eq_filter,
    List.filter_reverse]

theorem take_erase_take (capacity : ℕ) (item : α) (stack : List α) :
    ((stack.take (capacity + 1)).erase item).take capacity =
      (stack.erase item).take capacity := by
  induction stack generalizing capacity with
  | nil => simp
  | cons other stack ih =>
      by_cases same : other = item
      · subst same
        rw [List.take_succ_cons, List.erase_cons_head, List.erase_cons_head, List.take_take,
          Nat.min_self]
      · rw [List.take_succ_cons, List.erase_cons_tail (by simpa using same),
          List.erase_cons_tail (by simpa using same)]
        cases capacity with
        | zero => rfl
        | succ capacity => rw [List.take_succ_cons, List.take_succ_cons, ih]

/-- A cache sees of a use what is within its capacity. -/
theorem touch_take (capacity : ℕ) (item : α) (stack : List α) :
    touch capacity item (stack.take capacity) = (item :: stack.erase item).take capacity := by
  cases capacity with
  | zero => rfl
  | succ capacity => rw [touch, List.take_succ_cons, List.take_succ_cons, take_erase_take]

/-- A cache that holds what was used last does so after the next use. -/
theorem touch_recency (capacity : ℕ) (uses : List α) (item : α) :
    touch capacity item ((recency uses).take capacity) =
      (recency (uses ++ [item])).take capacity := by
  rw [touch_take, recency_concat]

/-- What is not in the cache costs the last item its place, if there is none free. -/
theorem touch_of_notMem {capacity : ℕ} {cache : List α} (missing : item ∉ cache) :
    touch (capacity + 1) item cache = item :: cache.take capacity := by
  rw [touch, List.erase_of_not_mem missing, List.take_succ_cons]

theorem touch_of_mem {capacity : ℕ} {cache : List α} (present : item ∈ cache)
    (fits : cache.length ≤ capacity) : touch capacity item cache = item :: cache.erase item := by
  refine List.take_of_length_le ?_
  rw [List.length_cons, List.length_erase_of_mem present]
  have := List.length_pos_of_mem present
  omega

end VenomDb.Lru
