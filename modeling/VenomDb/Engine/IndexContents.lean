import VenomDb.Engine.IndexManager
import VenomDb.Index.FiniteMap

/-!
# What an index holds

An index is exact for a function from record ids to keys if it has one entry for
each record id with a key and no other. Maintaining a row changes the function at
the record id of the row.
-/

namespace VenomDb

namespace IndexManager

variable {manager : IndexManager} {table column : String} {keyAt : Rid → Option Int64}
  {key : Int64} {rid : Rid}

/-- The index on a column has exactly the entries that a function gives. -/
def IsExact (manager : IndexManager) (table column : String) (keyAt : Rid → Option Int64) : Prop :=
  ∃ tree content, manager.indexes.lookup (table, column) = some tree ∧ tree.Denotes content ∧
    ∀ key rid, (key, rid) ∈ content ↔ keyAt rid = some key

theorem IsExact.congr {manager' : IndexManager} (isExact : manager.IsExact table column keyAt)
    (same : manager'.indexes.lookup (table, column) = manager.indexes.lookup (table, column)) :
    manager'.IsExact table column keyAt := by
  rcases isExact with ⟨tree, content, found, denotes, entries⟩
  exact ⟨tree, content, same.trans found, denotes, entries⟩

theorem IsExact.mem (isExact : manager.IsExact table column keyAt) :
    (table, column) ∈ manager.indexes := by
  rcases isExact with ⟨tree, content, found, -, -⟩
  exact AList.lookup_isSome.mp (by simp [found])

theorem IsExact.search (isExact : manager.IsExact table column keyAt) :
    manager.search table column key = some rid ↔ keyAt rid = some key := by
  rcases isExact with ⟨tree, content, found, denotes, entries⟩
  rw [IndexManager.search, found, Option.bind_some, denotes.search, entries]

theorem IsExact.missing (isExact : manager.IsExact table column keyAt)
    (missing : (manager.search table column key).isSome = false) (rid : Rid) :
    keyAt rid ≠ some key := by
  intro here
  rw [isExact.search.mpr here] at missing
  simp at missing

/-- No key has two record ids. -/
theorem IsExact.injective (isExact : manager.IsExact table column keyAt) {other : Rid}
    (here : keyAt rid = some key) (there : keyAt other = some key) : rid = other := by
  rcases isExact with ⟨tree, content, -, denotes, entries⟩
  exact denotes.unique ((entries key rid).mpr here) ((entries key other).mpr there)

/-- A range scan finds the record ids with a key in the range. -/
theorem IsExact.mem_rangeScan (isExact : manager.IsExact table column keyAt) {first last : Int64} :
    rid ∈ manager.rangeScan table column first last ↔
      ∃ key, keyAt rid = some key ∧ first.toInt ≤ key.toInt ∧ key.toInt ≤ last.toInt := by
  rcases isExact with ⟨tree, content, found, denotes, entries⟩
  rw [rangeScan, found, Option.map_some, Option.getD_some, denotes.rangeScan, Index.inRange]
  simp only [List.mem_map, List.mem_filter, decide_eq_true_eq, Prod.exists, exists_eq_right,
    entries]
  exact Iff.rfl

theorem IsExact.nodup_rangeScan (isExact : manager.IsExact table column keyAt)
    (first last : Int64) : (manager.rangeScan table column first last).Nodup := by
  rcases isExact with ⟨tree, content, found, denotes, entries⟩
  rw [rangeScan, found, Option.map_some, Option.getD_some, denotes.rangeScan, Index.inRange]
  refine List.Nodup.map_on ?_ (List.Nodup.filter _ (denotes.sorted.imp fun less same => ?_))
  · rintro ⟨key, rid⟩ inside ⟨key', rid'⟩ inside' same
    obtain rfl : rid = rid' := same
    have here := (entries key rid).mp (List.mem_filter.mp inside).1
    have here' := (entries key' rid).mp (List.mem_filter.mp inside').1
    simpa using here.symm.trans here'
  · exact absurd less (by rw [same]; exact lt_irrefl _)

section OnIndex

variable {change : ColumnIndex → ColumnIndex}

theorem lookup_onIndex_self {tree : ColumnIndex}
    (found : manager.indexes.lookup (table, column) = some tree) :
    (manager.onIndex table column change).indexes.lookup (table, column) = some (change tree) := by
  simp [onIndex, found]

theorem lookup_onIndex_ne {other otherColumn : String}
    (apart : (other, otherColumn) ≠ (table, column)) :
    (manager.onIndex table column change).indexes.lookup (other, otherColumn) =
      manager.indexes.lookup (other, otherColumn) := by
  rw [onIndex]
  cases manager.indexes.lookup (table, column) with
  | none => rfl
  | some tree => exact AList.lookup_insert_ne apart

/-- Changing an index neither adds nor removes one. -/
theorem mem_onIndex (index : String × String) :
    index ∈ (manager.onIndex table column change).indexes ↔ index ∈ manager.indexes := by
  rw [onIndex]
  cases found : manager.indexes.lookup (table, column) with
  | none => rfl
  | some tree =>
      have present : (table, column) ∈ manager.indexes := AList.lookup_isSome.mp (by simp [found])
      rw [AList.mem_insert]
      refine ⟨?_, .inr⟩
      rintro (rfl | inside)
      · exact present
      · exact inside

end OnIndex

theorem IsExact.delete (isExact : manager.IsExact table column keyAt)
    (here : keyAt rid = some key) :
    (manager.delete table column key).IsExact table column (Function.update keyAt rid none) := by
  have alone {other : Rid} (there : keyAt other = some key) : other = rid :=
    isExact.injective there here
  rcases isExact with ⟨tree, content, found, denotes, entries⟩
  refine ⟨_, _, lookup_onIndex_self found, denotes.delete key, ?_⟩
  intro key' rid'
  rw [List.mem_filter, entries]
  by_cases same : rid' = rid
  · subst same
    rw [Function.update_self, here]
    simp only [Option.some.injEq, reduceCtorEq, iff_false, not_and]
    rintro rfl
    simp
  · rw [Function.update_of_ne same]
    refine ⟨fun inside => inside.1, fun there => ⟨there, ?_⟩⟩
    refine (@decide_eq_true_iff _ (_)).mpr ?_
    rintro rfl
    exact same (alone there)

theorem IsExact.insert (isExact : manager.IsExact table column keyAt) (vacant : keyAt rid = none)
    (missing : ∀ other, keyAt other ≠ some key) :
    (manager.insert table column key rid).IsExact table column
      (Function.update keyAt rid (some key)) := by
  rcases isExact with ⟨tree, content, found, denotes, entries⟩
  rcases denotes.insert rid fun other inside => missing other ((entries key other).mp inside) with
    ⟨content', denotes', perm⟩
  refine ⟨_, content', lookup_onIndex_self found, denotes', ?_⟩
  intro key' rid'
  rw [perm.mem_iff, List.mem_cons, entries]
  by_cases same : rid' = rid
  · subst same
    rw [Function.update_self, vacant]
    simp [eq_comm]
  · rw [Function.update_of_ne same]
    simp [same]

section Maintain

variable {old new : Option Int64} {cells : List (String × Option Int64 × Option Int64)}

theorem maintain_append (table : String) (rid : Rid)
    (front back : List (String × Option Int64 × Option Int64)) (manager : IndexManager) :
    manager.maintain table rid (front ++ back) =
      (manager.maintain table rid front).maintain table rid back := by
  induction front generalizing manager with
  | nil => rfl
  | cons cell front ih => exact ih _

/-- What maintaining a row does not touch: the indexes of other tables and columns. -/
theorem lookup_maintain_ne {other otherColumn : String}
    (apart : ∀ cell ∈ cells, (other, otherColumn) ≠ (table, cell.1)) :
    (manager.maintain table rid cells).indexes.lookup (other, otherColumn) =
      manager.indexes.lookup (other, otherColumn) := by
  induction cells generalizing manager with
  | nil => rfl
  | cons cell cells ih =>
      rcases cell with ⟨column, old, new⟩
      have here := apart (column, old, new) (by simp)
      rw [maintain, ih fun cell inside => apart cell (by simp [inside])]
      split_ifs
      · cases old <;> cases new <;>
          simp [IndexManager.insert, IndexManager.delete, lookup_onIndex_ne here]
      · rfl

theorem mem_maintain (index : String × String) :
    index ∈ (manager.maintain table rid cells).indexes ↔ index ∈ manager.indexes := by
  induction cells generalizing manager with
  | nil => rfl
  | cons cell cells ih =>
      rcases cell with ⟨column, old, new⟩
      rw [maintain, ih]
      split_ifs
      · cases old <;> cases new <;> simp [IndexManager.insert, IndexManager.delete, mem_onIndex]
      · rfl

/-- One cell: the old key is taken out and the new one put in. -/
theorem IsExact.maintain_cell (isExact : manager.IsExact table column keyAt)
    (here : keyAt rid = old) (fresh : ∀ key ∈ new, ∀ other, other ≠ rid → keyAt other ≠ some key) :
    (manager.maintain table rid [(column, old, new)]).IsExact table column
      (Function.update keyAt rid new) := by
  have present : manager.hasIndex table column = true := AList.lookup_isSome.mpr isExact.mem
  have emptied : (old.elim manager fun key => manager.delete table column key).IsExact table column
      (Function.update keyAt rid none) := by
    cases old with
    | none =>
        have unchanged : Function.update keyAt rid none = keyAt := by
          rw [← here, Function.update_eq_self]
        rw [unchanged]
        exact isExact
    | some key => exact isExact.delete here
  rw [maintain, if_pos present, maintain]
  cases new with
  | none => exact emptied
  | some key =>
      have missing : ∀ other, Function.update keyAt rid none other ≠ some key := by
        intro other
        by_cases same : other = rid
        · subst same
          simp
        · rw [Function.update_of_ne same]
          exact fresh key rfl other same
      have inserted := emptied.insert (Function.update_self rid none keyAt) missing
      rwa [Function.update_idem] at inserted

/-- A row whose cells name the column once. -/
theorem IsExact.maintain {index : ℕ} (isExact : manager.IsExact table column keyAt)
    (cell : cells[index]? = some (column, old, new))
    (once : ∀ {other cell}, cells[other]? = some cell → cell.1 = column → other = index)
    (here : keyAt rid = old) (fresh : ∀ key ∈ new, ∀ other, other ≠ rid → keyAt other ≠ some key) :
    (manager.maintain table rid cells).IsExact table column (Function.update keyAt rid new) := by
  rcases List.getElem?_eq_some_iff.mp cell with ⟨bound, isCell⟩
  have split : cells = cells.take index ++ [(column, old, new)] ++ cells.drop (index + 1) := by
    rw [← isCell, List.append_assoc, List.singleton_append, List.getElem_cons_drop,
      List.take_append_drop]
  have before : ∀ cell ∈ cells.take index, (table, column) ≠ (table, cell.1) := by
    intro other inside same
    rcases List.mem_iff_getElem?.mp inside with ⟨position, found⟩
    rw [List.getElem?_take] at found
    split_ifs at found with early
    exact absurd (once found (Prod.mk.inj same).2.symm) (by omega)
  have after : ∀ cell ∈ cells.drop (index + 1), (table, column) ≠ (table, cell.1) := by
    intro other inside same
    rcases List.mem_iff_getElem?.mp inside with ⟨position, found⟩
    rw [List.getElem?_drop] at found
    exact absurd (once found (Prod.mk.inj same).2.symm) (by omega)
  have front : (manager.maintain table rid (cells.take index)).IsExact table column keyAt :=
    isExact.congr (lookup_maintain_ne before)
  rw [split, maintain_append, maintain_append]
  exact (front.maintain_cell here fresh).congr (lookup_maintain_ne after)

end Maintain

theorem isExact_createIndex (missing : (table, column) ∉ manager.indexes) :
    (manager.createIndex table column).IsExact table column fun _ => none := by
  refine ⟨Index.BTree.new, [], ?_, Index.BTree.denotes_new, by simp⟩
  rw [createIndex, if_neg missing]
  exact AList.lookup_insert _

theorem IsExact.createIndex (isExact : manager.IsExact table column keyAt)
    (other otherColumn : String) :
    (manager.createIndex other otherColumn).IsExact table column keyAt := by
  apply isExact.congr
  rw [IndexManager.createIndex]
  split_ifs with present
  · rfl
  · apply AList.lookup_insert_ne
    rintro same
    exact present (same ▸ isExact.mem)

theorem mem_createIndex (index : String × String) :
    index ∈ (manager.createIndex table column).indexes ↔
      index = (table, column) ∨ index ∈ manager.indexes := by
  rw [createIndex]
  split_ifs with present
  · refine ⟨.inr, ?_⟩
    rintro (rfl | inside)
    · exact present
    · exact inside
  · exact AList.mem_insert _

end IndexManager

end VenomDb
