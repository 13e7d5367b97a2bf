import Mathlib.Order.Lattice

/-!
# Stable sorting

What a stable sort of a list is, for a test that need not be an order on all items but
agrees with the order of a key on those of the list.
-/

namespace List

variable {α K : Type} {inOrder : α → α → Bool} {items : List α}

/-- The items in order, those that may stand in either order as they were. -/
structure IsStableSort (inOrder : α → α → Bool) (items sorted : List α) : Prop where
  perm : sorted.Perm items
  ordered : sorted.Pairwise fun first second => inOrder first second
  stable : ∀ part : List α, part.Pairwise (fun first second => inOrder first second) →
    part.Sublist items → part.Sublist sorted

variable [LinearOrder K] {key : α → K}

/-- The test compares the keys of the items. -/
def ComparesKeys (inOrder : α → α → Bool) (key : α → K) (items : List α) : Prop :=
  ∀ first ∈ items, ∀ second ∈ items, (inOrder first second = true ↔ key first ≤ key second)

theorem ComparesKeys.mergeSort_eq (compares : ComparesKeys inOrder key items) :
    items.mergeSort inOrder =
      items.mergeSort fun first second => decide (key first ≤ key second) := by
  have same := map_mergeSort (f := id) (r := inOrder) (l := items)
    (s := fun first second => decide (key first ≤ key second))
      fun first isFirst second isSecond => by
      rw [Bool.eq_iff_iff, compares first isFirst second isSecond]
      simp
  simpa using same

theorem ComparesKeys.isStableSort (key : α → K) (compares : ComparesKeys inOrder key items) :
    IsStableSort inOrder items (items.mergeSort inOrder) := by
  have transitive : ∀ first second third, decide (key first ≤ key second) = true →
      decide (key second ≤ key third) = true → decide (key first ≤ key third) = true := by
    intro first second third isFirst isSecond
    simp only [decide_eq_true_eq] at isFirst isSecond ⊢
    exact isFirst.trans isSecond
  have total : ∀ first second,
      (decide (key first ≤ key second) || decide (key second ≤ key first)) = true := by
    intro first second
    simpa using le_total (key first) (key second)
  refine ⟨mergeSort_perm _ _, ?_, ?_⟩
  · have sorted := pairwise_mergeSort transitive total items
    rw [compares.mergeSort_eq]
    refine sorted.imp_of_mem fun {first second} isFirst isSecond ordered => ?_
    rw [mem_mergeSort] at isFirst isSecond
    exact (compares first isFirst second isSecond).mpr (by simpa using ordered)
  · intro part ordered sublist
    rw [compares.mergeSort_eq]
    refine sublist_mergeSort transitive total ?_ sublist
    refine ordered.imp_of_mem fun {first second} isFirst isSecond inOrder => ?_
    have compared := compares first (sublist.subset isFirst) second (sublist.subset isSecond)
    simpa using compared.mp inOrder

/-- Sorting the front of a sorted list once more changes nothing. -/
theorem IsStableSort.mergeSort_take {sorted : List α} (isSort : IsStableSort inOrder items sorted)
    (count : ℕ) : (sorted.take count).mergeSort inOrder = sorted.take count :=
  mergeSort_of_pairwise (isSort.ordered.sublist (take_sublist count sorted))

end List
