import VenomDb.Engine.Effects
import VenomDb.Engine.IndexContents
import VenomDb.Engine.KeyColumn

/-!
# Primary keys and their indexes

The index on an INT primary key has one entry for each live row of the table, and no
primary key is NULL. Every row that a statement changes keeps this, so it holds however
a statement ends.
-/

namespace VenomDb

namespace Logical

variable {logical before after : Logical} {table : String} {schema : Schema}
  {pageIds : List UInt32} {index : ℕ} {column : ColumnDef} {rid : Rid} {row : Row}
  {old new : Option Row}

/-- The row at a record id, on some pages. -/
def rowAt (logical : Logical) (schema : Schema) (pageIds : List UInt32) (rid : Rid) : Option Row :=
  if rid.pageId ∈ pageIds then
    (logical.heap.get rid).bind fun tuple => (schema.deserializeRow tuple).toOption
  else none

/-- The integer in a column of the row at a record id. -/
def keyAt (logical : Logical) (schema : Schema) (pageIds : List UInt32) (index : ℕ) (rid : Rid) :
    Option Int64 :=
  ((logical.rowAt schema pageIds rid).bind fun row => row[index]?).bind Value.intKey

theorem rowAt_eq_some : logical.rowAt schema pageIds rid = some row ↔
    rid.pageId ∈ pageIds ∧
      ∃ tuple, logical.heap.get rid = some tuple ∧ schema.deserializeRow tuple = .ok row := by
  rw [rowAt]
  split_ifs with inside
  · simp only [Option.bind_eq_some_iff, inside, true_and]
    refine exists_congr fun tuple => and_congr_right fun _ => ?_
    cases schema.deserializeRow tuple <;> simp [Except.toOption]
  · simp [inside]

/-- A live tuple of a table is a row of it. -/
theorem Tidy.rowAt_of_live {tuple : Bytes} (tidy : Tidy logical)
    (known : logical.catalog.get table = some schema)
    (listed : logical.tablePages.lookup table = some pageIds) (inside : rid.pageId ∈ pageIds)
    (live : logical.heap.get rid = some tuple) :
    ∃ row, schema.deserializeRow tuple = .ok row ∧ logical.rowAt schema pageIds rid = some row := by
  rcases tidy.typed.row known listed inside live with ⟨⟨row, encodes⟩, short⟩
  have decoded := encodes.deserializeRow short
  exact ⟨row, decoded, rowAt_eq_some.mpr ⟨inside, tuple, live, decoded⟩⟩

/-- A row of a table has a value of the right type in every column. -/
theorem Tidy.suits (tidy : Tidy logical) (known : logical.catalog.get table = some schema)
    (listed : logical.tablePages.lookup table = some pageIds)
    (here : logical.rowAt schema pageIds rid = some row)
    (isColumn : schema.columns[index]? = some column) :
    ∃ value, row[index]? = some value ∧ Schema.Suits value column.ty := by
  rcases rowAt_eq_some.mp here with ⟨inside, tuple, live, decoded⟩
  rcases tidy.typed.row known listed inside live with ⟨⟨row', encodes⟩, short⟩
  obtain rfl : row' = row := by simpa [encodes.deserializeRow short] using decoded
  rcases encodes with ⟨bytes, rest, -, encoded⟩
  exact Schema.suits_of_serializeRow encoded isColumn

structure Keyed (logical : Logical) : Prop where
  known : ∀ {table column}, (table, column) ∈ logical.indexManager.indexes →
    (logical.catalog.get table).isSome
  indexed : ∀ {table schema pageIds index column}, logical.catalog.get table = some schema →
    logical.tablePages.lookup table = some pageIds → schema.KeyColumn index column →
    column.ty = .int →
    logical.indexManager.IsExact table column.name (logical.keyAt schema pageIds index)
  present : ∀ {table schema pageIds index column rid row}, logical.catalog.get table = some schema →
    logical.tablePages.lookup table = some pageIds → schema.KeyColumn index column →
    logical.rowAt schema pageIds rid = some row → row[index]? ≠ some .null

/-- One row of a table came, went or was replaced, and the indexes were maintained for it. -/
structure RowChange (table : String) (schema : Schema) (rid : Rid) (old new : Option Row)
    (before after : Logical) : Prop where
  catalog : after.catalog = before.catalog
  known : before.catalog.get table = some schema
  indexManager : after.indexManager =
    before.indexManager.maintain table rid (Executor.indexCells schema old new)
  others : ∀ {other pageIds}, other ≠ table → after.tablePages.lookup other = some pageIds →
    before.tablePages.lookup other = some pageIds ∧
      ∀ schema, after.rowAt schema pageIds = before.rowAt schema pageIds
  here : ∀ {pageIds'}, after.tablePages.lookup table = some pageIds' →
    ∃ pageIds, before.tablePages.lookup table = some pageIds ∧
      before.rowAt schema pageIds rid = old ∧
      after.rowAt schema pageIds' = Function.update (before.rowAt schema pageIds) rid new

theorem getElem?_indexCells (isColumn : schema.columns[index]? = some column)
    (old new : Option Row) :
    (Executor.indexCells schema old new)[index]? =
      some (column.name, (old.bind fun row => row[index]?).bind Value.intKey,
        (new.bind fun row => row[index]?).bind Value.intKey) := by
  simp [Executor.indexCells, isColumn]

theorem name_of_indexCells {position : ℕ} {cell : String × Option Int64 × Option Int64}
    (found : (Executor.indexCells schema old new)[position]? = some cell) :
    ∃ column, schema.columns[position]? = some column ∧ column.name = cell.1 := by
  simp only [Executor.indexCells, List.getElem?_map, List.getElem?_zipIdx, Option.map_map,
    Option.map_eq_some_iff] at found
  rcases found with ⟨column, isColumn, rfl⟩
  exact ⟨column, isColumn, rfl⟩

/-- A row that passed the checks keeps the indexes exact and the keys present. -/
theorem Keyed.change (keyed : Keyed before)
    (change : RowChange table schema rid old new before after)
    (checked : ∀ {index column row value}, schema.KeyColumn index column → new = some row →
      row[index]? = some value → value ≠ .null ∧
        ((old.bind fun row => row[index]?) = some value ∨
          Executor.Admissible before.indexManager table column.name value)) : Keyed after where
  known := by
    intro other column inside
    rw [change.indexManager, IndexManager.mem_maintain] at inside
    rw [change.catalog]
    exact keyed.known inside
  indexed := by
    intro other otherSchema pageIds index column known listed keyColumn ty
    rw [change.catalog] at known
    rw [change.indexManager]
    by_cases same : other = table
    · subst same
      obtain rfl : schema = otherSchema := by simpa using change.known.symm.trans known
      rcases change.here listed with ⟨pageIds', listed', isOld, isNew⟩
      have isExact := keyed.indexed known listed' keyColumn ty
      have keys : after.keyAt schema pageIds index =
          Function.update (before.keyAt schema pageIds' index) rid
            ((new.bind fun row => row[index]?).bind Value.intKey) := by
        funext rid'
        by_cases sameRid : rid' = rid
        · subst sameRid
          simp [keyAt, isNew]
        · simp [keyAt, isNew, sameRid]
      rw [keys]
      refine isExact.maintain (getElem?_indexCells keyColumn.here old new)
        (fun found named => ?_) ?_ ?_
      · rcases name_of_indexCells found with ⟨column', isColumn, sameName⟩
        exact keyColumn.once isColumn (sameName.trans named)
      · simp [keyAt, isOld]
      · intro key isKey other apart there
        rw [Option.mem_def, Option.bind_eq_some_iff] at isKey
        rcases isKey with ⟨value, isValue, isInt⟩
        obtain rfl : value = .int key := by cases value <;> simp_all [Value.intKey]
        rcases Option.bind_eq_some_iff.mp isValue with ⟨row, isRow, cell⟩
        rcases (checked keyColumn isRow cell).2 with unchanged | admissible
        · refine apart (isExact.injective there ?_)
          rw [keyAt, isOld, unchanged]
          rfl
        · exact isExact.missing (admissible.2 key rfl) other there
    · rcases change.others same listed with ⟨listed', rows⟩
      have isExact := keyed.indexed known listed' keyColumn ty
      rw [show after.keyAt otherSchema pageIds index = before.keyAt otherSchema pageIds index by
        funext rid'
        simp [keyAt, rows]]
      exact isExact.congr (IndexManager.lookup_maintain_ne fun cell _ => by simp [same])
  present := by
    intro other otherSchema pageIds index column rid' row known listed keyColumn here
    rw [change.catalog] at known
    by_cases same : other = table
    · subst same
      obtain rfl : schema = otherSchema := by simpa using change.known.symm.trans known
      rcases change.here listed with ⟨pageIds', listed', isOld, isNew⟩
      rw [isNew] at here
      by_cases sameRid : rid' = rid
      · subst sameRid
        rw [Function.update_self] at here
        intro isNull
        exact (checked keyColumn here isNull).1 rfl
      · rw [Function.update_of_ne sameRid] at here
        exact keyed.present known listed' keyColumn here
    · rcases change.others same listed with ⟨listed', rows⟩
      rw [rows] at here
      exact keyed.present known listed' keyColumn here

section Rows

variable {txnId : UInt32} {tuple : Bytes}

/-- A change of one tuple on the pages of a table. -/
theorem Tidy.rowChange (tidy : Tidy before) (catalog : after.catalog = before.catalog)
    (tablePages : after.tablePages = before.tablePages)
    (known : before.catalog.get table = some schema)
    (listed : before.tablePages.lookup table = some pageIds) (inside : rid.pageId ∈ pageIds)
    (touches : Heap.Touches rid before.heap after.heap)
    (indexManager : after.indexManager =
      before.indexManager.maintain table rid (Executor.indexCells schema old new))
    (isOld : before.rowAt schema pageIds rid = old) (isNew : after.rowAt schema pageIds rid = new) :
    RowChange table schema rid old new before after where
  catalog := catalog
  known := known
  indexManager := indexManager
  others := by
    intro other otherIds apart otherListed
    rw [tablePages] at otherListed
    refine ⟨otherListed, fun otherSchema => ?_⟩
    funext rid'
    rw [rowAt, rowAt]
    split_ifs with otherInside
    · rw [touches.get]
      rintro rfl
      exact apart (tidy.filed.apart otherListed listed otherInside inside)
    · rfl
  here := by
    intro pageIds' listed'
    rw [tablePages] at listed'
    obtain rfl : pageIds = pageIds' := by simpa using listed.symm.trans listed'
    refine ⟨pageIds, listed, isOld, ?_⟩
    funext rid'
    by_cases same : rid' = rid
    · subst same
      rw [Function.update_self, isNew]
    · rw [Function.update_of_ne same, rowAt, rowAt, touches.get same]

theorem Tidy.rowChange_delete (tidy : Tidy logical)
    (known : logical.catalog.get table = some schema)
    (listed : logical.tablePages.lookup table = some pageIds) (inside : rid.pageId ∈ pageIds)
    (live : logical.heap.get rid = some tuple) (decoded : schema.deserializeRow tuple = .ok row)
    (txnId : UInt32) :
    RowChange table schema rid (some row) none logical
      (logical.deleteRow table schema txnId rid row) := by
  refine tidy.rowChange rfl rfl known listed inside (touches_deleteRow rid row logical) rfl
    (rowAt_eq_some.mpr ⟨inside, tuple, live, decoded⟩) ?_
  have gone : (logical.deleteRow table schema txnId rid row).heap.get rid = none :=
    get_delete logical.heap rid
  rw [rowAt, gone]
  simp

theorem Tidy.rowChange_update {oldBytes newBytes : Bytes} {oldRow : Row} (tidy : Tidy logical)
    (known : logical.catalog.get table = some schema)
    (listed : logical.tablePages.lookup table = some pageIds) (inside : rid.pageId ∈ pageIds)
    (live : logical.heap.get rid = some oldBytes)
    (decoded : schema.deserializeRow oldBytes = .ok oldRow)
    (encoded : schema.serializeRow row = .ok newBytes) (fits : newBytes.length ≤ oldBytes.length)
    (txnId : UInt32) :
    RowChange table schema rid (some oldRow) (some row) logical
      (logical.updateRow table schema txnId rid oldBytes newBytes oldRow row) := by
  refine tidy.rowChange rfl rfl known listed inside
    (touches_updateRow rid oldBytes newBytes oldRow row logical) rfl
    (rowAt_eq_some.mpr ⟨inside, oldBytes, live, decoded⟩) ?_
  have short := (tidy.typed.row known listed inside live).2
  refine rowAt_eq_some.mpr ⟨inside, _, get_overwrite live newBytes, ?_⟩
  exact Schema.deserializeRow_of_serializeRow encoded (by omega) _

theorem Inserted.rowChange {values : Row} {rowBytes : Bytes}
    (inserted : Inserted table schema values rowBytes rid before after) (tidy : Tidy before)
    (tidy' : Tidy after) :
    RowChange table schema rid none (some values) before after where
  catalog := inserted.chosen.catalog
  known := inserted.known
  indexManager := inserted.indexManager
  others := by
    intro other otherIds apart otherListed
    have listed' := inserted.chosen.tables other apart
    refine ⟨listed'.symm.trans otherListed, fun otherSchema => ?_⟩
    rcases inserted.chosen.pages with ⟨pageIds, pageIds', -, listed, mem⟩
    funext rid'
    rw [rowAt, rowAt, inserted.get]
    split_ifs with otherInside same
    · subst same
      exact absurd (tidy'.filed.apart otherListed listed otherInside ((mem _).mpr (.inr rfl))) apart
    · rfl
    · rfl
  here := by
    intro otherIds otherListed
    rcases inserted.chosen.pages with ⟨pageIds, pageIds', listed, listed', mem⟩
    obtain rfl : pageIds' = otherIds := by simpa using listed'.symm.trans otherListed
    refine ⟨pageIds, listed, ?_, ?_⟩
    · rw [rowAt, inserted.vacant]
      simp
    · funext rid'
      by_cases same : rid' = rid
      · subst same
        rw [Function.update_self]
        refine rowAt_eq_some.mpr ⟨(mem _).mpr (.inr rfl), rowBytes, by simp [inserted.get], ?_⟩
        have short := inserted.short
        simpa using Schema.deserializeRow_of_serializeRow inserted.encoded (by omega) []
      · rw [Function.update_of_ne same, rowAt, rowAt, inserted.get, if_neg same]
        by_cases inside : rid'.pageId ∈ pageIds
        · rw [if_pos inside, if_pos ((mem _).mpr (.inl inside))]
        -- a page that was not listed before held nothing
        · rw [if_neg inside]
          split_ifs with inside'
          · have missing : before.heap rid'.pageId = none := by
              rw [← Option.not_isSome_iff_eq_none, tidy.owned]
              rintro ⟨owner, ownIds, owned, among⟩
              by_cases isTable : owner = table
              · subst isTable
                obtain rfl : pageIds = ownIds := by simpa using listed.symm.trans owned
                exact inside among
              · have owned' := (inserted.chosen.tables owner isTable).trans owned
                exact isTable (tidy'.filed.apart owned' listed' among inside')
            rw [Heap.get, missing]
            rfl
          · rfl

end Rows

section Steps

variable {start : Logical} {txnId : UInt32} {tuple : Bytes} {filter : Option Expr}

theorem selectRow_star {selected : Row}
    (chosen : Executor.selectRow schema .star filter tuple = .ok (some selected)) :
    schema.deserializeRow tuple = .ok selected ∧
      Executor.selects schema filter selected = .ok true := by
  rw [Executor.selectRow] at chosen
  rcases decoded : schema.deserializeRow tuple with failure | row
  · simp [decoded, bind, Except.bind] at chosen
  · rcases answered : Executor.selects schema filter row with failure | (_ | _)
    · simp [decoded, answered, bind, Except.bind] at chosen
    · simp [decoded, answered, bind, Except.bind, pure, Except.pure] at chosen
    · obtain rfl : row = selected := by
        simpa [decoded, answered, bind, Except.bind, pure, Except.pure,
          Executor.project] using chosen
      exact ⟨rfl, answered⟩

theorem Keyed.beginTxn (keyed : Keyed logical) : Keyed logical.beginTxn :=
  ⟨keyed.known, keyed.indexed, keyed.present⟩

theorem Keyed.commit (keyed : Keyed logical) (txnId : UInt32) : Keyed (logical.commit txnId) :=
  ⟨keyed.known, keyed.indexed, keyed.present⟩

theorem Keyed.refuseRow (keyed : Keyed logical) (txnId : UInt32) (rid : Rid)
    (oldBytes newBytes : Bytes) : Keyed (logical.refuseRow txnId rid oldBytes newBytes) :=
  ⟨keyed.known, keyed.indexed, keyed.present⟩

/-- The key that `UPDATE` gives a row is the old one, or passed the checks. -/
theorem Keyed.checked_rewrite {oldRow : Row} {bytes : Bytes} {assignments : List Assignment}
    {value : Value} (keyed : Keyed logical) (known : logical.catalog.get table = some schema)
    (listed : logical.tablePages.lookup table = some pageIds)
    (here : logical.rowAt schema pageIds rid = some oldRow)
    (rewritten : Executor.rewriteRow schema logical.indexManager table assignments oldRow =
      .ok (row, bytes))
    (keyColumn : schema.KeyColumn index column) (cell : row[index]? = some value) :
    value ≠ .null ∧ (oldRow[index]? = some value ∨
      Executor.Admissible logical.indexManager table column.name value) := by
  rcases rewriteRow_eq_ok rewritten with ⟨checked, applied, -⟩
  rw [(Executor.applyAssignments_cell keyColumn applied).1, Option.map_eq_some_iff] at cell
  rcases cell with ⟨oldValue, isOld, same⟩
  cases given : Executor.assigned column.name assignments with
  | none =>
      obtain rfl : oldValue = value := by simpa [given] using same
      refine ⟨?_, .inl isOld⟩
      rintro rfl
      exact keyed.present known listed keyColumn here isOld
  | some newValue =>
      obtain rfl : newValue = value := by simpa [given] using same
      exact Executor.checkUpdateKey_assigned keyColumn checked given

/-- Between two rows of a scan that keeps the keys. -/
structure KeyedAmid (start logical : Logical) : Prop extends Amid start logical where
  keyed : Keyed logical

theorem KeyedAmid.deleteStep (amid : KeyedAmid start logical)
    (known : start.catalog.get table = some schema)
    (listed : start.tablePages.lookup table = some pageIds) (inside : rid.pageId ∈ pageIds)
    (live : logical.heap.get rid = some tuple) (filter : Option Expr) (txnId : UInt32) :
    KeyedAmid start (deleteStep table schema filter txnId rid tuple () logical).2 := by
  refine ⟨amid.toAmid.deleteStep table schema filter txnId rid tuple, ?_⟩
  rw [← amid.catalog] at known
  rw [← amid.tablePages] at listed
  rcases deleteStep_cases table schema filter txnId rid tuple logical with
    ⟨failure, -, run⟩ | ⟨-, run⟩ | ⟨row, selected, run⟩
  · exact run ▸ amid.keyed
  · exact run ▸ amid.keyed
  · rw [run]
    apply amid.keyed.change
      (amid.tidy.rowChange_delete known listed inside live (selectRow_star selected).1 txnId)
    intro index column row value _ isNew
    simp at isNew

theorem KeyedAmid.updateStep (amid : KeyedAmid start logical)
    (known : start.catalog.get table = some schema)
    (listed : start.tablePages.lookup table = some pageIds) (inside : rid.pageId ∈ pageIds)
    (live : logical.heap.get rid = some tuple) (assignments : List Assignment)
    (filter : Option Expr) (txnId : UInt32) :
    KeyedAmid start (updateStep table schema assignments filter txnId rid tuple () logical).2 := by
  refine ⟨amid.toAmid.updateStep known listed inside live assignments filter txnId, ?_⟩
  rw [← amid.catalog] at known
  rw [← amid.tablePages] at listed
  rcases updateStep_cases table schema assignments filter txnId rid tuple logical with
    ⟨failure, run, -⟩ | ⟨-, run⟩ |
      ⟨oldRow, row, newBytes, selected, rewritten, ⟨fits, run⟩ | ⟨larger, run⟩⟩
  · exact run ▸ amid.keyed
  · exact run ▸ amid.keyed
  · rcases rewriteRow_eq_ok rewritten with ⟨-, -, encoded⟩
    have decoded := (selectRow_star selected).1
    rw [run]
    apply amid.keyed.change
      (amid.tidy.rowChange_update known listed inside live decoded encoded fits txnId)
    intro index column row' value keyColumn isNew cell
    obtain rfl : row = row' := by simpa using isNew
    exact amid.keyed.checked_rewrite known listed
      (rowAt_eq_some.mpr ⟨inside, tuple, live, decoded⟩) rewritten keyColumn cell
  · exact run ▸ amid.keyed.refuseRow txnId rid tuple newBytes

end Steps

section Statements

theorem KeyedAmid.transact
    {step : UInt32 → Rid → Bytes → Unit → Fallible Failure Logical (Bool × Unit)}
    (scanned : KeyedAmid logical
      (logical.beginTxn.scan (step logical.nextTxnId) (logical.heap.live pageIds) ()).state) :
    KeyedAmid logical (logical.transact step pageIds).state := by
  refine transact_preserves (KeyedAmid logical) (fun txnId amid => ?_) scanned
  exact ⟨⟨amid.tidy.commit _, amid.catalog, amid.tablePages⟩, amid.keyed.commit _⟩

theorem Keyed.transact_delete (keyed : Keyed logical) (tidy : Tidy logical)
    (known : logical.catalog.get table = some schema)
    (listed : logical.tablePages.lookup table = some pageIds) (filter : Option Expr) :
    KeyedAmid logical (logical.transact (deleteStep table schema filter) pageIds).state := by
  apply KeyedAmid.transact
  refine scan_preserves_live isLocal_deleteStep (KeyedAmid logical) (tidy.nodup_live listed) ?_ ()
    (fun _ inside => (Heap.mem_live.mp inside).2) ⟨⟨tidy.beginTxn, rfl, rfl⟩, keyed.beginTxn⟩
  intro entry inside _ _ amid live
  exact amid.deleteStep known listed (Heap.mem_live.mp inside).1 live filter _

theorem Keyed.transact_update (keyed : Keyed logical) (tidy : Tidy logical)
    (known : logical.catalog.get table = some schema)
    (listed : logical.tablePages.lookup table = some pageIds) (assignments : List Assignment)
    (filter : Option Expr) :
    KeyedAmid logical
      (logical.transact (updateStep table schema assignments filter) pageIds).state := by
  apply KeyedAmid.transact
  refine scan_preserves_live isLocal_updateStep (KeyedAmid logical) (tidy.nodup_live listed) ?_ ()
    (fun _ inside => (Heap.mem_live.mp inside).2) ⟨⟨tidy.beginTxn, rfl, rfl⟩, keyed.beginTxn⟩
  intro entry inside _ _ amid live
  exact amid.updateStep known listed (Heap.mem_live.mp inside).1 live assignments filter _

theorem mem_createIndexOf (schema : Schema) (table column : String) :
    (table, column) ∈ (logical.createIndexOf schema).indexManager.indexes ↔
      (table = schema.name ∧ schema.primaryKey = some column) ∨
        (table, column) ∈ logical.indexManager.indexes := by
  rw [createIndexOf]
  cases primary : schema.primaryKey with
  | none => simp
  | some name => simp [IndexManager.mem_createIndex, eq_comm]

theorem isExact_createIndexOf {keys : Rid → Option Int64} {name : String}
    (isExact : logical.indexManager.IsExact table name keys) (schema : Schema) :
    (logical.createIndexOf schema).indexManager.IsExact table name keys := by
  rw [createIndexOf]
  cases schema.primaryKey with
  | none => exact isExact
  | some column => exact isExact.createIndex _ _

/-- A refused `CREATE TABLE` may leave an index on another column of the table behind. -/
theorem Keyed.createIndexOf (keyed : Keyed logical)
    (taken : (logical.catalog.get schema.name).isSome) : Keyed (logical.createIndexOf schema) where
  known := by
    intro table column inside
    rcases (mem_createIndexOf schema table column).mp inside with ⟨rfl, -⟩ | inside
    · exact taken
    · exact keyed.known inside
  indexed := fun known listed keyColumn ty =>
    isExact_createIndexOf (keyed.indexed known listed keyColumn ty) schema
  present := keyed.present

theorem Keyed.addTable (keyed : Keyed logical) (missing : logical.catalog.get schema.name = none)
    (order : HashOrder) : Keyed ((logical.createIndexOf schema).addTable order schema) := by
  have absent (column : String) : (schema.name, column) ∉ logical.indexManager.indexes := by
    intro inside
    have present := keyed.known inside
    rw [missing] at present
    simp at present
  refine ⟨?_, ?_, ?_⟩
  · intro table column inside
    rw [get_addTable]
    split_ifs with same
    · rfl
    · rcases (mem_createIndexOf schema table column).mp inside with ⟨rfl, -⟩ | inside
      · exact absurd rfl same
      · exact keyed.known inside
  · intro table found pageIds index column known listed keyColumn ty
    rw [get_addTable] at known
    rw [lookup_addTable] at listed
    split_ifs at known listed with same
    · subst same
      obtain rfl : schema = found := by simpa using known
      obtain rfl : [] = pageIds := by simpa using listed
      have created : (logical.createIndexOf schema).indexManager =
          logical.indexManager.createIndex schema.name column.name := by
        rw [Logical.createIndexOf, keyColumn.primary]
        rfl
      have empty : ((logical.createIndexOf schema).addTable order schema).keyAt schema [] index =
          fun _ => none := by
        funext rid
        simp [keyAt, rowAt]
      rw [empty, show ((logical.createIndexOf schema).addTable order schema).indexManager = _ from
        created]
      exact IndexManager.isExact_createIndex (absent _)
    · exact isExact_createIndexOf (keyed.indexed known listed keyColumn ty) schema
  · intro table found pageIds index column rid row known listed keyColumn here
    rw [get_addTable] at known
    rw [lookup_addTable] at listed
    split_ifs at known listed with same
    · obtain rfl : [] = pageIds := by simpa using listed
      simp [rowAt] at here
    · exact keyed.present known listed keyColumn here

theorem Keyed.execInsert (keyed : Keyed logical) (tidy : Tidy logical) (bounded : Bounded logical)
    (table : String) (values : List Value) : Keyed (logical.execInsert table values).state := by
  rcases ended : (logical.execInsert table values).result with failure | rows
  · rcases execInsert_fails ended with ⟨catalog, tablePages, indexManager, heap⟩
    have rows (schema : Schema) (pageIds : List UInt32) :
        (logical.execInsert table values).state.rowAt schema pageIds =
          logical.rowAt schema pageIds := by
      funext rid
      rw [rowAt, rowAt, heap]
    refine ⟨?_, ?_, ?_⟩
    · rw [catalog, indexManager]
      exact keyed.known
    · intro other schema pageIds index column
      have keys : (logical.execInsert table values).state.keyAt schema pageIds index =
          logical.keyAt schema pageIds index := by
        funext rid
        rw [keyAt, keyAt, rows]
      rw [catalog, tablePages, indexManager, keys]
      exact keyed.indexed
    · intro table schema pageIds index column rid row
      rw [catalog, tablePages, rows]
      exact keyed.present
  · rcases tidy.inserted bounded ended with ⟨schema, rowBytes, rid, inserted⟩
    apply keyed.change (inserted.rowChange tidy (tidy.execInsert bounded table values))
    intro index column row value keyColumn isNew cell
    obtain rfl : values = row := by simpa using isNew
    have admissible :=
      Executor.admissible_of_checkInsertKey keyColumn cell inserted.checked
    exact ⟨admissible.1, .inr admissible⟩

/-- However a statement ends, the tables stay tidy and the keys indexed. -/
theorem Keyed.execute [Build] (keyed : Keyed logical) (tidy : Tidy logical)
    (bounded : Bounded logical) (order : HashOrder) (stmt : Statement) :
    Tidy (logical.execute order stmt).state ∧ Keyed (logical.execute order stmt).state := by
  cases stmt with
  | createTable table columns =>
      simp only [Logical.execute, execCreateTable]
      split_ifs with taken
      · refine ⟨tidy.withIndexes _, keyed.createIndexOf ?_⟩
        exact AList.lookup_isSome.mpr taken
      · have missing : logical.catalog.get table = none := AList.lookup_eq_none.mpr taken
        exact ⟨Tidy.addTable (tidy.withIndexes _) order missing rfl, keyed.addTable missing order⟩
  | insert table values =>
      exact ⟨tidy.execInsert bounded table values, keyed.execInsert tidy bounded table values⟩
  | select table columns filter orderBy limit => exact ⟨tidy, keyed⟩
  | delete table filter =>
      rw [Logical.execute, execDelete]
      cases known : logical.catalog.get table with
      | none => exact ⟨tidy, keyed⟩
      | some schema =>
          cases listed : logical.tablePages.lookup table with
          | none => exact ⟨tidy, keyed⟩
          | some pageIds =>
              have amid := keyed.transact_delete tidy known listed filter
              exact ⟨amid.tidy, amid.keyed⟩
  | update table assignments filter =>
      rw [Logical.execute, execUpdate]
      cases known : logical.catalog.get table with
      | none => exact ⟨tidy, keyed⟩
      | some schema =>
          cases listed : logical.tablePages.lookup table with
          | none => exact ⟨tidy, keyed⟩
          | some pageIds =>
              have amid := keyed.transact_update tidy known listed assignments filter
              exact ⟨amid.tidy, amid.keyed⟩

end Statements

end Logical

end VenomDb
