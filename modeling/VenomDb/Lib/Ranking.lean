import Mathlib.Data.List.NodupEquivFin
import Mathlib.Tactic

/-!
# Lists ranked by a key

A list is ranked if the keys of its elements increase strictly. A further element falls between
a front and a back of the list; what this does to the first and to the other elements, and how
a ranked list compares position by position with one that has more elements.
-/

namespace Ranking

variable {α κ : Type} [LinearOrder κ] {key : α → κ} {front back : List α} {x : α}

/-- The keys increase strictly. -/
def Increasing (key : α → κ) (items : List α) : Prop :=
  items.Pairwise fun first second => key first < key second

/-- Where a further element belongs. -/
structure Between (key : α → κ) (front : List α) (x : α) (back : List α) : Prop where
  before : ∀ item ∈ front, key item < key x
  behind : ∀ item ∈ back, key x < key item

theorem exists_between {items : List α} (ranked : Increasing key items)
    (other : ∀ item ∈ items, key item ≠ key x) :
    ∃ front back, items = front ++ back ∧ Between key front x back := by
  induction items with
  | nil => exact ⟨[], [], rfl, by simp, by simp⟩
  | cons first items ih =>
      rcases List.pairwise_cons.mp ranked with ⟨least, rest⟩
      rcases lt_or_gt_of_ne (other first (by simp)) with smaller | larger
      · rcases ih rest fun item inside => other item (by simp [inside]) with
          ⟨front, back, rfl, between⟩
        refine ⟨first :: front, back, rfl, ?_, between.behind⟩
        intro item inside
        rcases List.mem_cons.mp inside with rfl | inside
        · exact smaller
        · exact between.before item inside
      · refine ⟨[], first :: items, rfl, by simp, ?_⟩
        intro item inside
        rcases List.mem_cons.mp inside with rfl | inside
        · exact larger
        · exact larger.trans (least item inside)

theorem Between.ranked (between : Between key front x back)
    (ranked : Increasing key (front ++ back)) :
    Increasing key (front ++ x :: back) := by
  rcases List.pairwise_append.mp ranked with ⟨first, second, apart⟩
  refine List.pairwise_append.mpr ⟨first, ?_, ?_⟩
  · exact List.pairwise_cons.mpr ⟨between.behind, second⟩
  · intro item inside later member
    rcases List.mem_cons.mp member with rfl | member
    · exact between.before item inside
    · exact apart item inside later member

/-- Two elements of a ranked list with the same key are the same. -/
theorem Increasing.eq_of_key {items : List α} (ranked : Increasing key items) {first second : α}
    (isFirst : first ∈ items) (isSecond : second ∈ items) (same : key first = key second) :
    first = second := by
  by_contra ne
  have apart : items.Pairwise fun first second => key first ≠ key second :=
    List.Pairwise.imp (fun less => less.ne) ranked
  have symmetric : Std.Symm fun first second => key first ≠ key second :=
    ⟨fun _ _ differ => differ.symm⟩
  exact apart.forall isFirst isSecond ne same

/-- A sorted list is the ranked list with the same elements. -/
theorem Increasing.eq_of_perm {sorted items : List α} (ranked : Increasing key items)
    (order : sorted.Pairwise fun first second => key first ≤ key second)
    (same : sorted.Perm items) : sorted = items := by
  have order' : items.Pairwise fun first second => key first ≤ key second :=
    List.Pairwise.imp (fun less => less.le) ranked
  refine List.Perm.eq_of_pairwise ?_ order order' same
  intro first second isFirst isSecond le ge
  exact ranked.eq_of_key (same.mem_iff.mp isFirst) isSecond (le_antisymm le ge)

section Take

variable (front back x)

/-- The first elements are found among the first elements of the old list and the new one. -/
theorem take_middle (count : ℕ) :
    (front.take count ++ x :: back.take (count - front.length)).take count =
      (front ++ x :: back).take count := by
  rw [List.take_append, List.take_append, List.take_take, Nat.min_self, List.length_take]
  congr 1
  rcases Nat.le_total count front.length with few | many
  · have none : count - front.length = 0 := by omega
    have none' : count - min count front.length = 0 := by omega
    rw [none, none']
    rfl
  · have all : count - min count front.length = count - front.length := by omega
    rw [all]
    rcases count - front.length with _ | rest
    · rfl
    · simp [List.take_take]

/-- An element behind the first ones stays behind them. -/
theorem mem_drop_middle {count : ℕ} {item : α} (behind : item ∈ (front ++ back).drop count) :
    item ∈ (front ++ x :: back).drop count := by
  rw [List.drop_append] at behind ⊢
  rcases List.mem_append.mp behind with inside | inside
  · exact List.mem_append_left _ inside
  · apply List.mem_append_right
    generalize count - front.length = rest at inside ⊢
    cases rest with
    | zero => exact List.mem_cons_of_mem _ inside
    | succ rest =>
      rw [List.drop_succ_cons]
      exact List.drop_subset_drop_left back (Nat.le_succ rest) inside

end Take

/-- With more elements, no position gets a larger key. -/
theorem Increasing.getElem_le {items others : List α} (ranked : Increasing key items)
    (ranked' : Increasing key others) (more : ∀ item ∈ items, item ∈ others) {index : ℕ}
    (inside : index < items.length) :
    ∃ inside' : index < others.length, key others[index] ≤ key items[index] := by
  have irreflexive : Std.Irrefl fun first second => key first < key second :=
    ⟨fun _ => lt_irrefl _⟩
  have antisymmetric : Std.Antisymm fun first second => key first < key second :=
    ⟨fun _ _ less greater => absurd (less.trans greater) (lt_irrefl _)⟩
  have sublist : items.Sublist others :=
    List.sublist_of_subperm_of_pairwise (List.subperm_of_subset ranked.nodup more) ranked ranked'
  rcases List.sublist_iff_exists_orderEmbedding_getElem?_eq.mp sublist with ⟨place, found⟩
  have later : index ≤ place index := place.strictMono.le_apply
  have there := found index
  rw [List.getElem?_eq_getElem inside] at there
  rcases List.getElem?_eq_some_iff.mp there.symm with ⟨bound, same⟩
  refine ⟨lt_of_le_of_lt later bound, ?_⟩
  rw [← same]
  rcases later.eq_or_lt with here | further
  · exact le_of_eq (by congr)
  · exact (List.pairwise_iff_getElem.mp ranked' _ _ _ _ further).le

end Ranking
