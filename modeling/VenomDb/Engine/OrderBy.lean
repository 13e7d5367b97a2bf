import Mathlib.Data.String.Basic
import VenomDb.Engine.Survival
import VenomDb.Lib.StableSort

/-!
# `ORDER BY` and `LIMIT`

The values of an INT or TEXT column are compared by an order with NULL at its end, so the
sort is a stable sort and doing it twice makes no difference. It starts from the rows in the
order in which they were found. That is the order of the scan, unless an index gave them.
-/

namespace VenomDb

/-- NULL, or a value of a type. -/
def Value.HasType : Value → DataType → Prop
  | .null, _ => True
  | .int _, ty => ty = .int
  | .text _, ty => ty = .text
  | .float _, ty => ty = .float

namespace Schema

theorem hasType_of_deserializeField {column : ColumnDef} {tag : UInt8} {buffer rest : Bytes}
    {value : Value} (decoded : deserializeField column tag buffer = .ok (value, rest)) :
    value.HasType column.ty := by
  rw [deserializeField] at decoded
  split_ifs at decoded with isNull isInt isFloat isText
  · obtain ⟨rfl, -⟩ := Prod.mk.inj (Except.ok.inj decoded)
    trivial
  · rcases Fallible.except_bind_eq_ok decoded with ⟨⟨bytes, after⟩, -, made⟩
    obtain ⟨rfl, -⟩ := Prod.mk.inj (Except.ok.inj made)
    exact isInt.2
  · rcases Fallible.except_bind_eq_ok decoded with ⟨⟨bytes, after⟩, -, made⟩
    obtain ⟨rfl, -⟩ := Prod.mk.inj (Except.ok.inj made)
    exact isFloat.2
  · rcases Fallible.except_bind_eq_ok decoded with ⟨⟨bytes, after⟩, -, made⟩
    rcases Fallible.except_bind_eq_ok made with ⟨⟨text, after⟩, -, made⟩
    dsimp only at made
    split at made
    · obtain ⟨rfl, -⟩ := Prod.mk.inj (Except.ok.inj made)
      exact isText.2
    · simp at made

/-- A row that is read from bytes has values of the types of its columns. -/
theorem hasType_of_deserializeFields {columns : List ColumnDef} {buffer : Bytes}
    {values : List Value} (decoded : deserializeFields columns buffer = .ok values) {index : ℕ}
    {column : ColumnDef} {value : Value} (isColumn : columns[index]? = some column)
    (isValue : values[index]? = some value) : value.HasType column.ty := by
  induction columns generalizing buffer values index with
  | nil => simp at isColumn
  | cons first columns ih =>
      rcases buffer with _ | ⟨tag, buffer⟩
      · simp [deserializeFields] at decoded
      · rw [deserializeFields] at decoded
        rcases Fallible.except_bind_eq_ok decoded with ⟨⟨own, rest⟩, ownDecoded, decoded⟩
        rcases Fallible.except_bind_eq_ok decoded with ⟨others, othersDecoded, made⟩
        obtain rfl : own :: others = values := Except.ok.inj made
        cases index with
        | zero =>
            obtain rfl : first = column := by simpa using isColumn
            obtain rfl : own = value := by simpa using isValue
            exact hasType_of_deserializeField ownDecoded
        | succ index => exact ih othersDecoded (by simpa using isColumn) (by simpa using isValue)

end Schema

namespace Executor

section Compare

/-- The order of `ORDER BY` on integers, with NULL last. -/
def intSortKey : Value → WithTop ℤ
  | .int n => n.toInt
  | _ => ⊤

/-- The order of `ORDER BY` on texts, with NULL last. -/
def textSortKey : Value → WithTop String
  | .text s => s
  | _ => ⊤

theorem compareValues_int {left right : Value} (isLeft : left.HasType .int)
    (isRight : right.HasType .int) :
    (compareValues left right ≠ .gt ↔ intSortKey left ≤ intSortKey right) ∧
    (compareValues left right ≠ .lt ↔ intSortKey right ≤ intSortKey left) := by
  rcases left with n | _ | _ | _
  · rcases right with m | _ | _ | _
    · simp [compareValues, Value.partialCmp, intSortKey, compare_gt_iff_gt, compare_lt_iff_lt]
    · simp [Value.HasType] at isRight
    · simp [Value.HasType] at isRight
    · simp [compareValues, intSortKey]
  · simp [Value.HasType] at isLeft
  · simp [Value.HasType] at isLeft
  · rcases right with m | _ | _ | _ <;> simp_all [compareValues, intSortKey, Value.HasType]

theorem compareValues_text {left right : Value} (isLeft : left.HasType .text)
    (isRight : right.HasType .text) :
    (compareValues left right ≠ .gt ↔ textSortKey left ≤ textSortKey right) ∧
    (compareValues left right ≠ .lt ↔ textSortKey right ≤ textSortKey left) := by
  rcases left with _ | _ | s | _
  · simp [Value.HasType] at isLeft
  · simp [Value.HasType] at isLeft
  · rcases right with _ | _ | t | _
    · simp [Value.HasType] at isRight
    · simp [Value.HasType] at isRight
    · have isGreater : compare s t = .gt ↔ t < s := compare_gt_iff_gt
      have isLess : compare s t = .lt ↔ s < t := compare_lt_iff_lt
      simp only [compareValues, Value.partialCmp, textSortKey, Option.getD_some, ne_eq, isGreater,
        isLess, not_lt, WithTop.coe_le_coe, and_self]
    · simp [compareValues, textSortKey]
  · rcases right with _ | _ | t | _ <;> simp_all [compareValues, textSortKey, Value.HasType]

/-- `compare_values` is a total preorder on some values, and reversing it exchanges its
arguments. -/
structure ComparesAs (Cell : Value → Prop) : Prop where
  total : ∀ left right, Cell left → Cell right →
    compareValues left right ≠ .gt ∨ compareValues right left ≠ .gt
  trans : ∀ left middle right, Cell left → Cell middle → Cell right →
    compareValues left middle ≠ .gt → compareValues middle right ≠ .gt →
    compareValues left right ≠ .gt
  swap : ∀ left right, Cell left → Cell right →
    compareValues right left = (compareValues left right).swap

theorem comparesAs_of_key {K : Type} [LinearOrder K] {Cell : Value → Prop} (key : Value → K)
    (compares : ∀ left right, Cell left → Cell right →
      (compareValues left right ≠ .gt ↔ key left ≤ key right) ∧
      (compareValues left right ≠ .lt ↔ key right ≤ key left)) : ComparesAs Cell where
  total := fun left right isLeft isRight =>
    (le_total (key left) (key right)).imp (compares left right isLeft isRight).1.mpr
      (compares right left isRight isLeft).1.mpr
  trans := by
    intro left middle right isLeft isMiddle isRight first second
    rw [(compares _ _ isLeft isMiddle).1] at first
    rw [(compares _ _ isMiddle isRight).1] at second
    rw [(compares _ _ isLeft isRight).1]
    exact first.trans second
  swap := by
    intro left right isLeft isRight
    have forth := compares left right isLeft isRight
    have back := compares right left isRight isLeft
    rw [← forth.1, ← forth.2] at back
    generalize compareValues left right = ordering at back ⊢
    generalize compareValues right left = reversed at back ⊢
    revert back
    cases ordering <;> cases reversed <;> simp

theorem comparesAs_hasType {ty : DataType} (sortable : ty = .int ∨ ty = .text) :
    ComparesAs fun value => value.HasType ty := by
  rcases sortable with rfl | rfl
  · exact comparesAs_of_key intSortKey fun _ _ => compareValues_int
  · exact comparesAs_of_key textSortKey fun _ _ => compareValues_text

end Compare

section Sorting

variable {ty : DataType} {index : ℕ} {direction : OrderDir} {rows : List Row}

/-- The test of the sort compares keys, in one direction or the other. -/
theorem isStableSort_of_key {K : Type} [LinearOrder K] {Cell : Value → Prop} (key : Value → K)
    (compares : ∀ left right, Cell left → Cell right →
      (compareValues left right ≠ .gt ↔ key left ≤ key right) ∧
      (compareValues left right ≠ .lt ↔ key right ≤ key left))
    (cells : ∀ row ∈ rows, Cell (row.getD index .null)) :
    List.IsStableSort (inOrder index direction) rows
      (rows.mergeSort (inOrder index direction)) := by
  cases direction with
  | asc =>
      refine List.ComparesKeys.isStableSort (fun row : Row => key (row.getD index .null)) ?_
      intro first isFirst second isSecond
      have compared := compares _ _ (cells first isFirst) (cells second isSecond)
      simpa [inOrder] using compared.1
  | desc =>
      refine List.ComparesKeys.isStableSort
        (fun row : Row => OrderDual.toDual (key (row.getD index .null))) ?_
      intro first isFirst second isSecond
      have compared := compares _ _ (cells first isFirst) (cells second isSecond)
      simpa [inOrder] using compared.2

theorem isStableSort_inOrder (sortable : ty = .int ∨ ty = .text)
    (cells : ∀ row ∈ rows, (row.getD index .null).HasType ty) :
    List.IsStableSort (inOrder index direction) rows
      (rows.mergeSort (inOrder index direction)) := by
  rcases sortable with rfl | rfl
  · exact isStableSort_of_key intSortKey (fun _ _ => compareValues_int) cells
  · exact isStableSort_of_key textSortKey (fun _ _ => compareValues_text) cells

/-- The rows that `LIMIT` leaves. -/
def limited (limit : Option UInt64) (rows : List Row) : List Row :=
  limit.elim rows fun count => rows.take count.toNat

theorem limited_limited (limit : Option UInt64) (rows : List Row) :
    limited limit (limited limit rows) = limited limit rows := by
  cases limit with
  | none => rfl
  | some count => simp [limited]

theorem sortAndLimit_eq {schema : Schema} {columns : SelectColumns} {column : String}
    (output : sortIndex schema columns column = .ok index) (limit : Option UInt64)
    (rows : List Row) :
    sortAndLimit schema columns (some (column, direction)) limit rows =
      .ok (limited limit (rows.mergeSort (inOrder index direction))) := by
  simp only [sortAndLimit, output, bind, Except.bind, pure, Except.pure]
  cases limit with
  | none => rfl
  | some count => rfl

/-- The second sort and truncation changes nothing. -/
theorem sortAndLimit_again {schema : Schema} {columns : SelectColumns} {column : String}
    {sorted : List Row} (output : sortIndex schema columns column = .ok index)
    (isSort : List.IsStableSort (inOrder index direction) rows sorted) (limit : Option UInt64) :
    sortAndLimit schema columns (some (column, direction)) limit (limited limit sorted) =
      .ok (limited limit sorted) := by
  have again : (limited limit sorted).mergeSort (inOrder index direction) =
      limited limit sorted := by
    cases limit with
    | none => exact List.mergeSort_of_pairwise isSort.ordered
    | some count => exact isSort.mergeSort_take count.toNat
  rw [sortAndLimit_eq output, again, limited_limited]

end Sorting

section Found

variable {schema : Schema} {columns : SelectColumns} {filter : Option Expr} {column : String}
  {definition : ColumnDef} {position index : ℕ}

theorem getElem?_of_mapM {α : Type} {names : List α} {values : List Value}
    {value : α → Except Failure Value} (mapped : names.mapM value = .ok values) {name : α}
    (isName : names[index]? = some name) :
    ∃ found, values[index]? = some found ∧ value name = .ok found := by
  induction names generalizing values index with
  | nil => simp at isName
  | cons first names ih =>
      rw [List.mapM_cons] at mapped
      rcases Fallible.except_bind_eq_ok mapped with ⟨own, isOwn, mapped⟩
      rcases Fallible.except_bind_eq_ok mapped with ⟨others, areOthers, made⟩
      obtain rfl : own :: others = values := Except.ok.inj made
      cases index with
      | zero =>
          obtain rfl : first = name := by simpa using isName
          exact ⟨own, rfl, isOwn⟩
      | succ index =>
          rcases ih areOthers (by simpa using isName) with ⟨found, isFound, isValue⟩
          exact ⟨found, by simpa using isFound, isValue⟩

/-- A row that `SELECT` returns has a cell of the type of the `ORDER BY` column at its place. -/
theorem hasType_of_selectRow {tuple : Bytes} {row : Row}
    (here : schema.colIndex column = some position)
    (isDefinition : schema.columns[position]? = some definition)
    (output : sortIndex schema columns column = .ok index)
    (selected : selectRow schema columns filter tuple = .ok (some row)) :
    (row.getD index .null).HasType definition.ty := by
  rw [selectRow] at selected
  rcases Fallible.except_bind_eq_ok selected with ⟨stored, decoded, selected⟩
  rcases Fallible.except_bind_eq_ok selected with ⟨_ | _, -, selected⟩
  · simp [pure, Except.pure] at selected
  rcases Fallible.except_bind_eq_ok selected with ⟨projected, isProjected, made⟩
  obtain rfl : projected = row := Option.some.inj (Except.ok.inj made)
  have typed : ∀ value, stored[position]? = some value → value.HasType definition.ty :=
    fun value isValue => Schema.hasType_of_deserializeFields decoded isDefinition isValue
  suffices ∀ value, projected[index]? = some value → value.HasType definition.ty by
    rw [List.getD_eq_getElem?_getD]
    rcases found : projected[index]? with _ | value
    · trivial
    · exact this value found
  intro value isValue
  cases columns with
  | star =>
      obtain rfl : position = index := by simpa [sortIndex, here] using output
      obtain rfl : stored = projected := Except.ok.inj isProjected
      exact typed value isValue
  | named names =>
      simp only [sortIndex] at output
      split at output
      · next found =>
          obtain rfl := Except.ok.inj output
          rw [List.findIdx?_eq_some_iff_getElem] at found
          rcases found with ⟨bound, isColumn, -⟩
          rcases getElem?_of_mapM isProjected (List.getElem?_eq_getElem bound) with
            ⟨other, isOther, projects⟩
          obtain rfl : other = value := Option.some.inj (isOther.symm.trans isValue)
          rw [projectColumn, of_decide_eq_true isColumn, here] at projects
          simp only [Row.cell] at projects
          split at projects
          · next isStored =>
              obtain rfl := Except.ok.inj projects
              exact typed _ isStored
          · simp at projects
      · simp at output

/-- What a scan keeps true of its result. -/
theorem yields_scanSlots {α : Type} {Kept : α → Prop} {frameId : FrameId}
    {body : UInt16 → Bool → Bytes → α → Action (Bool × α)}
    (step : ∀ slotId dirty tuple result, Kept result →
      Fallible.Yields (body slotId dirty tuple result) fun out => Kept out.2)
    (slotIds : List UInt16) (dirty : Bool) {result : α} (kept : Kept result) :
    Fallible.Yields (scanSlots frameId body slotIds dirty result) fun out => Kept out.2 := by
  induction slotIds generalizing dirty result with
  | nil => exact Fallible.yields_pure kept
  | cons slotId slotIds ih =>
      refine Fallible.yields_bind fun tuple => ?_
      cases tuple with
      | none => exact ih dirty kept
      | some tuple =>
          exact (step slotId dirty tuple result kept).bind fun out kept => ih (dirty || out.1) kept

theorem yields_scanPages [Crc32] {α : Type} {Kept : α → Prop}
    {body : UInt32 → FrameId → UInt16 → Bool → Bytes → α → Action (Bool × α)}
    (step : ∀ pageId frameId slotId dirty tuple result, Kept result →
      Fallible.Yields (body pageId frameId slotId dirty tuple result) fun out => Kept out.2)
    (pageIds : List UInt32) {result : α} (kept : Kept result) :
    Fallible.Yields (scanPages body pageIds result) fun out => Kept out.2 := by
  induction pageIds generalizing result with
  | nil => exact Fallible.yields_pure kept
  | cons pageId pageIds ih =>
      refine Fallible.yields_bind fun frameId => Fallible.yields_bind fun slotIds => ?_
      refine (yields_scanSlots (step pageId frameId) slotIds false kept).bind fun out kept => ?_
      refine Fallible.yields_bind fun _ => ?_
      exact (ih kept).bind fun rest kept => Fallible.yields_pure kept

/-- Every row is what `SELECT` makes of a tuple. -/
def Selected (schema : Schema) (columns : SelectColumns) (filter : Option Expr)
    (rows : List Row) : Prop :=
  ∀ row ∈ rows, ∃ tuple, selectRow schema columns filter tuple = .ok (some row)

theorem selected_nil : Selected schema columns filter [] := by simp [Selected]

theorem Selected.append {rows : List Row} {tuple : Bytes} {row : Option Row}
    (selected : Selected schema columns filter rows)
    (made : selectRow schema columns filter tuple = .ok row) :
    Selected schema columns filter (rows ++ row.toList) := by
  intro other isOther
  rcases List.mem_append.mp isOther with isOld | isNew
  · exact selected other isOld
  · rw [Option.mem_toList] at isNew
    exact ⟨tuple, isNew ▸ made⟩

variable [Crc32]

theorem yields_seqScan (pageIds : List UInt32) :
    Fallible.Yields (seqScan schema columns filter pageIds)
      (Selected schema columns filter) := by
  refine (yields_scanPages ?_ pageIds selected_nil).bind fun out kept =>
    Fallible.yields_pure kept
  intro pageId frameId slotId dirty tuple rows selected
  refine (Fallible.yields_ofExcept fun row made => made).bind fun row made => ?_
  exact Fallible.yields_pure (selected.append made)

theorem yields_selectRids {expr : Expr} (pageIds : List UInt32) (rids : List Rid)
    {results : List Row} (selected : Selected schema columns (some expr) results) :
    Fallible.Yields (selectRids schema columns expr pageIds rids results)
      (Selected schema columns (some expr)) := by
  induction rids generalizing results with
  | nil => exact Fallible.yields_pure selected
  | cons rid rids ih =>
      rw [selectRids]
      split
      · refine Fallible.yields_bind fun frameId => Fallible.yields_bind fun tuple =>
          Fallible.yields_bind fun _ => ?_
        cases tuple with
        | none => exact ih selected
        | some tuple =>
            refine (Fallible.yields_ofExcept fun row made => made).bind fun row made => ?_
            exact ih (selected.append made)
      · exact ih selected

theorem yields_tryIndexSelect [Build] (table : String) (expr : Expr) (pageIds : List UInt32) :
    Fallible.Yields (tryIndexSelect table schema expr columns pageIds)
      fun found => ∀ rows ∈ found, Selected schema columns (some expr) rows := by
  refine Fallible.yields_bind fun executor => Fallible.yields_bind fun rids => ?_
  cases rids with
  | none => exact Fallible.yields_pure (by simp)
  | some rids =>
      refine (yields_selectRids pageIds rids selected_nil).bind fun rows selected => ?_
      exact Fallible.yields_pure (by simpa using selected)

theorem yields_findRows [Build] (table : String) (pageIds : List UInt32) :
    Fallible.Yields (findRows table schema columns filter pageIds)
      (Selected schema columns filter) := by
  cases filter with
  | none => exact (yields_seqScan pageIds : Fallible.Yields (seqScan schema columns none pageIds) _)
  | some expr =>
      refine (yields_tryIndexSelect table expr pageIds).bind fun found selected => ?_
      cases found with
      | some rows => exact Fallible.yields_pure (selected rows rfl)
      | none => exact yields_seqScan pageIds

end Found

section Select

variable [Crc32] [Build] {table column : String} {schema : Schema} {definition : ColumnDef}
  {columns : SelectColumns} {filter : Option Expr} {direction : OrderDir}
  {executor executor' : Executor} {pageIds : List UInt32} {rows : List Row} {position index : ℕ}

theorem execSelect_eq (known : executor.catalog.get table = some schema)
    (listed : executor.tablePages.lookup table = some pageIds)
    (orderBy : Option (String × OrderDir)) (limit : Option UInt64) :
    execSelect table columns filter orderBy limit executor =
      (findRows table schema columns filter pageIds >>= fun results =>
        Fallible.ofExcept ((sortAndLimit schema columns orderBy limit results).bind
          (sortAndLimit schema columns orderBy limit))) executor := by
  have hasSchema := schemaOf_of_known known
  have hasPages := pagesOf_of_listed listed
  rw [execSelect, Fallible.bind_ok hasSchema, Fallible.bind_ok hasPages]
  simp only [Fallible.ofExcept_bind]

theorem findRows_of_execSelect (known : executor.catalog.get table = some schema)
    (listed : executor.tablePages.lookup table = some pageIds)
    (found : execSelect table columns filter none none executor = (.ok rows, executor')) :
    findRows table schema columns filter pageIds executor = (.ok rows, executor') := by
  rw [execSelect_eq known listed] at found
  rcases Fallible.bind_eq_ok found with ⟨results, between, run, made⟩
  obtain ⟨same, rfl⟩ := Prod.mk.inj made
  obtain rfl : results = rows := Except.ok.inj same
  exact run

theorem execSelect_listed (known : executor.catalog.get table = some schema)
    (found : execSelect table columns filter none none executor = (.ok rows, executor')) :
    ∃ pageIds, executor.tablePages.lookup table = some pageIds := by
  have hasSchema := schemaOf_of_known known
  rw [execSelect, Fallible.bind_ok hasSchema] at found
  rcases listed : executor.tablePages.lookup table with _ | pageIds
  · have unlisted := pagesOf_of_unlisted listed
    rw [Fallible.bind_error unlisted] at found
    simp at found
  · exact ⟨pageIds, rfl⟩

/-- No index answers the `WHERE` clause. -/
def Unrouted (executor : Executor) (table : String) (filter : Option Expr) : Prop :=
  ∀ expr ∈ filter, indexRids executor.indexManager table expr = .ok none

theorem findRows_unrouted (unrouted : executor.Unrouted table filter) :
    findRows table schema columns filter pageIds executor =
      seqScan schema columns filter pageIds executor := by
  cases filter with
  | none => rfl
  | some expr =>
      have routed : tryIndexSelect table schema expr columns pageIds executor =
          (.ok none, executor) := by
        rw [tryIndexSelect, Fallible.get_bind, unrouted expr rfl]
        rfl
      rw [findRows, Fallible.bind_ok routed]

/-- A scan of a reachable state goes through the tuples of the pages in order. -/
theorem Reachable.seqScan_eq (reachable : Reachable IsSpared executor)
    (listed : executor.tablePages.lookup table = some pageIds)
    (run : seqScan schema columns filter pageIds executor = (.ok rows, executor')) :
    Logical.selectRows schema columns filter (executor.tuplesOf pageIds) = .ok rows := by
  rcases reachable.follows with ⟨logical, rests, follows⟩
  have usable := (follows.sound id).usable
  rw [rests.reflects.tablePages_eq] at listed
  rw [rests.reflects.tuplesOf (usable.present listed)]
  rcases seqScan_ends schema columns filter rests.reflects (usable.nodup listed)
    (usable.present listed) with ends | noFrame | overpins
  · rw [run] at ends
    exact ends.1.symm
  · rcases noFrame with ⟨⟨failure, failed⟩, -⟩
    rw [run] at failed
    simp at failed
  · have failed := overpins.failed
    rw [run] at failed
    simp at failed

/-- `ORDER BY` a column of INT or TEXT and `LIMIT`. The rows that the same `SELECT` returns
without these two clauses are sorted stably and truncated, and the second round of both
changes nothing. Without an index on the `WHERE` clause they stand in the order of the scan. -/
theorem execSelect_orderBy (known : executor.catalog.get table = some schema)
    (here : schema.colIndex column = some position)
    (isDefinition : schema.columns[position]? = some definition)
    (sortable : definition.ty = .int ∨ definition.ty = .text)
    (output : sortIndex schema columns column = .ok index) (limit : Option UInt64)
    (found : execSelect table columns filter none none executor = (.ok rows, executor')) :
    (∃ sorted, List.IsStableSort (inOrder index direction) rows sorted ∧
      sortAndLimit schema columns (some (column, direction)) limit rows =
        .ok (limited limit sorted) ∧
      sortAndLimit schema columns (some (column, direction)) limit (limited limit sorted) =
        .ok (limited limit sorted) ∧
      execSelect table columns filter (some (column, direction)) limit executor =
        (.ok (limited limit sorted), executor')) ∧
    ComparesAs (fun value => value.HasType definition.ty) ∧
    (∀ row ∈ rows, (row.getD index .null).HasType definition.ty) ∧
    ∀ pageIds, executor.tablePages.lookup table = some pageIds → executor.Unrouted table filter →
      seqScan schema columns filter pageIds executor = (.ok rows, executor') ∧
      (Reachable IsSpared executor →
        Logical.selectRows schema columns filter (executor.tuplesOf pageIds) = .ok rows) := by
  rcases execSelect_listed known found with ⟨pageIds, listed⟩
  have run := findRows_of_execSelect known listed found
  have cells : ∀ row ∈ rows, (row.getD index .null).HasType definition.ty := by
    intro row isRow
    rcases yields_findRows table pageIds executor rows executor' run row isRow with
      ⟨tuple, selected⟩
    exact hasType_of_selectRow here isDefinition output selected
  have isSort : List.IsStableSort (inOrder index direction) rows _ :=
    isStableSort_inOrder sortable cells
  have once : sortAndLimit schema columns (some (column, direction)) limit rows = .ok _ :=
    sortAndLimit_eq output limit rows
  have again := sortAndLimit_again output isSort limit
  refine ⟨⟨_, isSort, once, again, ?_⟩, comparesAs_hasType sortable, cells, ?_⟩
  · rw [execSelect_eq known listed, Fallible.bind_ok run, once]
    exact Prod.ext again rfl
  · intro pageIds' listed' unrouted
    obtain rfl : pageIds = pageIds' := Option.some.inj (listed.symm.trans listed')
    rw [findRows_unrouted unrouted] at run
    exact ⟨run, fun reachable => reachable.seqScan_eq listed run⟩

theorem Reflects.execSelect_of_ready {logical : Logical}
    (reflects : Reflects executor logical none) (usable : logical.Usable) (ready : executor.Ready)
    (orderBy : Option (String × OrderDir)) (limit : Option UInt64) :
    (execSelect table columns filter orderBy limit executor).1 =
      logical.execSelect table columns filter orderBy limit := by
  rcases execSelect_ends table columns filter orderBy limit reflects usable with
    ends | noFrame | overpins
  · exact ends.1
  · exact absurd noFrame.full ready.not_full
  · exact absurd overpins.overpinned ready.not_overpinned

end Select

end Executor

namespace Sample

attribute [local instance] Crc32.ieee Build.debug

open Executor

/-- `SELECT * FROM t ORDER BY a DESC LIMIT 1` on a table with a NULL. -/
theorem execSelect_orderBy_insertedTwo :
    ∃ (executor executor' : Executor) (sorted : List Row), Reachable Succeeds executor ∧
      List.IsStableSort (inOrder 1 .desc) [[.int 1, .int 7], [.int 2, .null]] sorted ∧
      execSelect "t" .star none (some ("a", .desc)) (some 1) executor =
        (.ok (limited (some 1) sorted), executor') := by
  rcases attains_insertedTwo with ⟨executor, session, rests, follows, idle⟩
  have known : executor.catalog.get "t" =
      some (Schema.new "t" [⟨"id", .int, true⟩, ⟨"a", .int, false⟩]) := by
    rw [rests.reflects.catalog_eq]
    rfl
  have answer : (execSelect "t" .star none none none executor).1 =
      .ok [[.int 1, .int 7], [.int 2, .null]] := by
    rw [rests.reflects.execSelect_of_ready (follows.sound .inl).usable idle.ready]
    rfl
  have found : execSelect "t" .star none none none executor =
      (.ok [[.int 1, .int 7], [.int 2, .null]], _) := Prod.ext answer rfl
  have here : (Schema.new "t" [⟨"id", .int, true⟩, ⟨"a", .int, false⟩]).colIndex "a" = some 1 := rfl
  rcases execSelect_orderBy known here rfl (.inl rfl) rfl (some 1) found with
    ⟨⟨sorted, isSort, -, -, selected⟩, -⟩
  exact ⟨executor, _, sorted, session.reachable, isSort, selected⟩

/-- `INSERT INTO t VALUES (2, 7)` -/
def insertLater : Statement := .insert "t" [.int 2, .int 7]

def insertedLater : Logical := (created.execute .ofInsertion insertLater).state

def insertedBack : Logical := (insertedLater.execute .ofInsertion insertSeven).state

theorem attains_insertedBack : Attains [create, insertLater, insertSeven] insertedBack := by
  have started : Attains [] opened := attains_start .ofInsertion
  have first := started.execute .ofInsertion create ⟨by decide, by decide⟩ rfl
  have second := first.execute .ofInsertion insertLater ⟨by decide, by decide⟩ rfl
  exact second.execute .ofInsertion insertSeven ⟨by decide, by decide⟩ rfl

/-- `WHERE id > 0` -/
def idAboveZero : Expr := ⟨"id", .gt, .int 0⟩

/-- The index gives the rows by key, and `ORDER BY a` keeps them so although the scan has them
the other way round. -/
theorem execSelect_orderBy_unstable :
    ∃ (executor : Executor) (schema : Schema) (pageIds : List UInt32) (scanned answer : List Row),
      Reachable Succeeds executor ∧ executor.catalog.get "t" = some schema ∧
      schema.columns = [⟨"id", .int, true⟩, ⟨"a", .int, false⟩] ∧
      executor.tablePages.lookup "t" = some pageIds ∧
      (seqScan schema .star (some idAboveZero) pageIds executor).1 = .ok scanned ∧
      (execSelect "t" .star (some idAboveZero) (some ("a", .asc)) none executor).1 = .ok answer ∧
      ¬List.IsStableSort (inOrder 1 .asc) scanned answer := by
  rcases attains_insertedBack with ⟨executor, session, rests, follows, idle⟩
  have usable := (follows.sound .inl).usable
  have known : executor.catalog.get "t" =
      some (Schema.new "t" [⟨"id", .int, true⟩, ⟨"a", .int, false⟩]) := by
    rw [rests.reflects.catalog_eq]
    rfl
  have listed : insertedBack.tablePages.lookup "t" = some [0] := rfl
  have listed' : executor.tablePages.lookup "t" = some [0] := by
    rw [rests.reflects.tablePages_eq]
    rfl
  have collected : insertedBack.execSelect "t" .star (some idAboveZero) (some ("a", .asc)) none =
      (sortAndLimit (Schema.new "t" [⟨"id", .int, true⟩, ⟨"a", .int, false⟩]) .star
        (some ("a", .asc)) none [[.int 1, .int 7], [.int 2, .int 7]]).bind
      (sortAndLimit (Schema.new "t" [⟨"id", .int, true⟩, ⟨"a", .int, false⟩]) .star
        (some ("a", .asc)) none) := rfl
  have output : sortIndex (Schema.new "t" [⟨"id", .int, true⟩, ⟨"a", .int, false⟩]) .star "a" =
      .ok 1 := rfl
  have sorted : sortAndLimit (Schema.new "t" [⟨"id", .int, true⟩, ⟨"a", .int, false⟩]) .star
      (some ("a", .asc)) none [[.int 1, .int 7], [.int 2, .int 7]] =
      .ok [[.int 1, .int 7], [.int 2, .int 7]] := by
    rw [sortAndLimit_eq output, List.mergeSort_of_pairwise (by decide)]
    rfl
  refine ⟨executor, _, [0], [[.int 2, .int 7], [.int 1, .int 7]],
    [[.int 1, .int 7], [.int 2, .int 7]],
    session.reachable, known, rfl, listed', ?_, ?_, ?_⟩
  · rcases seqScan_ends (Schema.new "t" [⟨"id", .int, true⟩, ⟨"a", .int, false⟩]) .star
      (some idAboveZero) rests.reflects (usable.nodup listed) (usable.present listed) with
      ends | noFrame | overpins
    · rw [ends.1]
      rfl
    · exact absurd noFrame.full idle.ready.not_full
    · exact absurd overpins.overpinned idle.ready.not_overpinned
  · rw [rests.reflects.execSelect_of_ready usable idle.ready, collected, sorted]
    exact sorted
  · intro isSort
    have kept := isSort.stable [[.int 2, .int 7], [.int 1, .int 7]] (by decide)
      (List.Sublist.refl _)
    revert kept
    decide

end Sample

end VenomDb
