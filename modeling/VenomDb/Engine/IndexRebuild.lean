import VenomDb.Engine.Keys
import VenomDb.Engine.Runs

/-!
# Rebuilding the indexes

A restart creates the indexes that the catalog lists and enters the rows of every table.
The keys were distinct before, so the indexes are exact again.
-/

namespace VenomDb

namespace Logical

variable {logical before after : Logical} {table : String} {schema : Schema}
  {pageIds : List UInt32} {index : ℕ} {column : ColumnDef} {rid : Rid} {row : Row}

section Restart

variable {manager : IndexManager} {keys all : Rid → Option Int64} {name : String}

theorem mem_foldl_createIndex (defs : List (String × String)) (manager : IndexManager)
    (index : String × String) :
    index ∈ (defs.foldl (fun manager (table, column) => manager.createIndex table column)
      manager).indexes ↔ index ∈ defs ∨ index ∈ manager.indexes := by
  induction defs generalizing manager with
  | nil => simp
  | cons first defs ih =>
      rw [List.foldl_cons, ih, IndexManager.mem_createIndex, List.mem_cons]
      tauto

theorem isExact_foldl_createIndex {defs : List (String × String)} (inside : (table, name) ∈ defs)
    (missing : (table, name) ∉ manager.indexes) :
    (defs.foldl (fun manager (table, column) => manager.createIndex table column)
      manager).IsExact table name fun _ => none := by
  have kept {manager : IndexManager} (defs : List (String × String))
      (isExact : manager.IsExact table name fun _ => none) :
      (defs.foldl (fun manager (table, column) => manager.createIndex table column)
        manager).IsExact table name fun _ => none := by
    induction defs generalizing manager with
    | nil => exact isExact
    | cons first defs ih => exact ih (isExact.createIndex _ _)
  induction defs generalizing manager with
  | nil => simp at inside
  | cons first defs ih =>
      by_cases same : first = (table, name)
      · subst same
        exact kept defs (IndexManager.isExact_createIndex missing)
      · apply ih
        · simpa [Ne.symm same] using inside
        · rw [IndexManager.mem_createIndex, not_or]
          exact ⟨Ne.symm same, missing⟩

theorem getElem?_rebuildCells (keyColumn : schema.KeyColumn index column) (row : Row) :
    (Executor.rebuildCells schema row)[index]? =
      some (column.name, none, (row[index]?).bind Value.intKey) := by
  simp [Executor.rebuildCells, keyColumn.here, keyColumn.colIndex]

theorem name_of_rebuildCells {position : ℕ} {cell : String × Option Int64 × Option Int64}
    (found : (Executor.rebuildCells schema row)[position]? = some cell) :
    ∃ column, schema.columns[position]? = some column ∧ column.name = cell.1 := by
  simp only [Executor.rebuildCells, List.getElem?_map, Option.map_eq_some_iff] at found
  rcases found with ⟨column, isColumn, rfl⟩
  exact ⟨column, isColumn, rfl⟩

theorem mem_rebuild (table : String) (schema : Schema) (entries : List (Rid × Bytes))
    (manager : IndexManager) (index : String × String) :
    index ∈ (rebuild table schema entries manager).indexes ↔ index ∈ manager.indexes := by
  rw [rebuild]
  induction entries generalizing manager with
  | nil => rfl
  | cons entry entries ih =>
      rcases entry with ⟨rid, tuple⟩
      rw [List.foldl_cons, ih]
      dsimp only
      cases schema.deserializeRow tuple with
      | error failure => rfl
      | ok row => exact IndexManager.mem_maintain index

theorem lookup_rebuild_ne {other : String} (apart : table ≠ other) (schema : Schema)
    (entries : List (Rid × Bytes)) (manager : IndexManager) :
    (rebuild other schema entries manager).indexes.lookup (table, name) =
      manager.indexes.lookup (table, name) := by
  rw [rebuild]
  induction entries generalizing manager with
  | nil => rfl
  | cons entry entries ih =>
      rcases entry with ⟨rid, tuple⟩
      rw [List.foldl_cons, ih]
      dsimp only
      cases schema.deserializeRow tuple with
      | error failure => rfl
      | ok row => exact IndexManager.lookup_maintain_ne fun cell _ => by simp [apart]

/-- Entering rows one by one makes the index exact for all of them. -/
theorem isExact_rebuild (keyColumn : schema.KeyColumn index column) {entries : List (Rid × Bytes)}
    (nodup : (entries.map Prod.fst).Nodup)
    (decoded : ∀ entry ∈ entries, ∃ row, schema.deserializeRow entry.2 = .ok row ∧
      (row[index]?).bind Value.intKey = all entry.1)
    (injective : ∀ {rid other key}, all rid = some key → all other = some key → rid = other)
    (isExact : manager.IsExact table column.name keys)
    (below : ∀ {rid key}, keys rid = some key → all rid = some key)
    (vacant : ∀ entry ∈ entries, keys entry.1 = none) :
    (rebuild table schema entries manager).IsExact table column.name fun rid =>
      if rid ∈ entries.map Prod.fst then all rid else keys rid := by
  induction entries generalizing manager keys with
  | nil => simpa [rebuild] using isExact
  | cons entry entries ih =>
      rcases entry with ⟨rid, tuple⟩
      rcases List.nodup_cons.mp nodup with ⟨apart, nodup⟩
      rcases decoded (rid, tuple) (by simp) with ⟨row, read, isKey⟩
      dsimp only at read isKey apart
      have entered : (manager.maintain table rid (Executor.rebuildCells schema row)).IsExact
          table column.name (Function.update keys rid (all rid)) := by
        rw [← isKey]
        refine isExact.maintain (getElem?_rebuildCells keyColumn row) (fun found named => ?_)
          (vacant (rid, tuple) (by simp)) ?_
        · rcases name_of_rebuildCells found with ⟨column', isColumn, sameName⟩
          exact keyColumn.once isColumn (sameName.trans named)
        · intro key isNew other otherRid there
          rw [isKey] at isNew
          exact otherRid (injective (below there) isNew)
      have rest := ih nodup (fun other inside => decoded other (by simp [inside])) entered ?_ ?_
      · have step : rebuild table schema ((rid, tuple) :: entries) manager =
          rebuild table schema entries
            (manager.maintain table rid (Executor.rebuildCells schema row)) := by
          rw [rebuild, List.foldl_cons]
          simp only [read]
          rfl
        rw [step]
        convert rest using 1
        funext other
        by_cases same : other = rid
        · subst same
          simp [apart]
        · rw [Function.update_of_ne same, List.map_cons]
          simp only [List.mem_cons, same, false_or]
      · intro other key here
        by_cases same : other = rid
        · subst same
          simpa using here
        · rw [Function.update_of_ne same] at here
          exact below here
      · intro other inside
        have ne : other.1 ≠ rid := fun same => apart (same ▸ List.mem_map_of_mem inside)
        rw [Function.update_of_ne ne]
        exact vacant other (by simp [inside])

/-- The rebuild of all tables: only the table's own pass matters to its index. -/
theorem isExact_rebuildTables {tables : List String} (nodup : tables.Nodup)
    (inside : table ∈ tables)
    (own : ∀ {manager : IndexManager}, manager.IsExact table name (fun _ => none) →
      (logical.rebuildTable manager table).IsExact table name all)
    (isExact : manager.IsExact table name fun _ => none) :
    (tables.foldl logical.rebuildTable manager).IsExact table name all := by
  have others {manager : IndexManager} {other : String} (apart : table ≠ other) :
      (logical.rebuildTable manager other).indexes.lookup (table, name) =
        manager.indexes.lookup (table, name) := by
    rw [rebuildTable]
    cases logical.catalog.get other with
    | none => rfl
    | some schema => exact lookup_rebuild_ne apart schema _ manager
  have kept {manager : IndexManager} {tables : List String} (outside : table ∉ tables)
      (isExact : manager.IsExact table name all) :
      (tables.foldl logical.rebuildTable manager).IsExact table name all := by
    induction tables generalizing manager with
    | nil => exact isExact
    | cons first tables ih =>
        rw [List.mem_cons, not_or] at outside
        exact ih outside.2 (isExact.congr (others outside.1))
  induction tables generalizing manager with
  | nil => simp at inside
  | cons first tables ih =>
      rcases List.nodup_cons.mp nodup with ⟨apart, nodup⟩
      by_cases same : first = table
      · subst same
        rw [List.foldl_cons]
        exact kept apart (own isExact)
      · exact ih nodup (by simpa [Ne.symm same] using inside)
          (isExact.congr (others (Ne.symm same)))

theorem mem_rebuildTables (tables : List String) (manager : IndexManager)
    (index : String × String) :
    index ∈ (tables.foldl logical.rebuildTable manager).indexes ↔ index ∈ manager.indexes := by
  induction tables generalizing manager with
  | nil => rfl
  | cons first tables ih =>
      rw [List.foldl_cons, ih, rebuildTable]
      cases logical.catalog.get first with
      | none => rfl
      | some schema => exact mem_rebuild first schema _ manager index

/-- The indexes are those of the primary keys, and the catalog lists them. -/
structure Defined (logical : Logical) : Prop where
  defs : ∀ {table column}, (table, column) ∈ logical.catalog.indexDefs ↔
    ∃ schema, logical.catalog.get table = some schema ∧ schema.primaryKey = some column
  created : ∀ {table column}, (table, column) ∈ logical.indexManager.indexes →
    (table, column) ∈ logical.catalog.indexDefs

theorem mem_restart (order : HashOrder) (numPages : ℕ) (index : String × String) :
    index ∈ (logical.restart order numPages).indexManager.indexes ↔
      index ∈ (logical.restart order numPages).catalog.indexDefs := by
  rw [Logical.restart, mem_rebuildTables, reopened, mem_foldl_createIndex]
  simp [IndexManager.new]

section Reopen

variable {numPages : ℕ}

theorem rowAt_restart
    (stored : ∀ {pageId}, (logical.heap pageId).isSome → pageId.toNat < numPages)
    (order : HashOrder) (schema : Schema) (pageIds : List UInt32) :
    (logical.restart order numPages).rowAt schema pageIds = logical.rowAt schema pageIds := by
  have heap : (logical.restart order numPages).heap = logical.heap := Heap.below_eq stored
  funext rid
  rw [rowAt, rowAt, heap]

/-- A restart rebuilds the indexes of the primary keys. -/
theorem Keyed.restart (keyed : Keyed logical) (defined : Defined logical)
    (sound : Sound none logical)
    (stored : ∀ {pageId}, (logical.heap pageId).isSome → pageId.toNat < numPages)
    (order : HashOrder) :
    Keyed (logical.restart order numPages) ∧ Defined (logical.restart order numPages) := by
  have get (table : String) : (logical.restart order numPages).catalog.get table =
      logical.catalog.get table := sound.filed.loaded table
  have lookup (table : String) : (logical.restart order numPages).tablePages.lookup table =
      logical.tablePages.lookup table := lookup_reopened sound.replayable numPages table
  have indexDefs : (logical.restart order numPages).catalog.indexDefs = logical.catalog.indexDefs :=
    sound.filed.indexDefs
  have rows := rowAt_restart stored order
  refine ⟨⟨?_, ?_, ?_⟩, ⟨?_, ?_⟩⟩
  · intro table column inside
    rw [mem_restart, indexDefs, defined.defs] at inside
    rcases inside with ⟨schema, known, -⟩
    rw [get, known]
    rfl
  · intro table schema pageIds index column known listed keyColumn ty
    rw [get] at known
    rw [lookup] at listed
    have isExact := keyed.indexed known listed keyColumn ty
    have same : (logical.restart order numPages).keyAt schema pageIds index =
        logical.keyAt schema pageIds index := by
      funext rid
      rw [keyAt, keyAt, rows]
    rw [same, Logical.restart]
    refine isExact_rebuildTables ?_ ?_ (fun {manager} empty => ?_) ?_
    · exact (order.tables_perm _).nodup_iff.mpr (AList.keys_nodup _)
    · rw [(order.tables_perm _).mem_iff, ← AList.mem_keys, ← AList.lookup_isSome,
        lookup_reopened sound.replayable, listed]
      rfl
    · have heap : (logical.reopened numPages).heap = logical.heap := Heap.below_eq stored
      have known' : (logical.reopened numPages).catalog.get table = some schema :=
        (get table).trans known
      have whole : logical.keyAt schema pageIds index = fun rid =>
          if rid ∈ (logical.heap.live pageIds).map Prod.fst then logical.keyAt schema pageIds index
            rid
          else none := by
        funext rid
        split_ifs with live
        · rfl
        · cases here : logical.rowAt schema pageIds rid with
          | none => simp [keyAt, here]
          | some row =>
              rcases rowAt_eq_some.mp here with ⟨inside, tuple, isLive, -⟩
              have entry : (rid, tuple) ∈ logical.heap.live pageIds :=
                Heap.mem_live.mpr ⟨inside, isLive⟩
              exact absurd (List.mem_map_of_mem entry) live
      rw [rebuildTable, known', lookup_reopened sound.replayable, listed, heap, whole]
      refine isExact_rebuild keyColumn (sound.nodup_live listed) ?_ isExact.injective empty
        (by simp) (by simp)
      rintro ⟨rid, tuple⟩ inside
      rcases Heap.mem_live.mp inside with ⟨among, live⟩
      rcases sound.tidy.rowAt_of_live known listed among live with ⟨row, decoded, here⟩
      exact ⟨row, decoded, by simp [keyAt, here]⟩
    · refine isExact_foldl_createIndex ?_ (by simp [IndexManager.new])
      rw [show (CatalogFile.load logical.catalogFile).indexDefs = _ from sound.filed.indexDefs,
        defined.defs]
      exact ⟨schema, known, keyColumn.primary⟩
  · intro table schema pageIds index column rid row known listed keyColumn
    rw [get] at known
    rw [lookup] at listed
    rw [rows]
    exact keyed.present known listed keyColumn
  · intro table column
    rw [indexDefs, defined.defs]
    simp only [get]
  · intro table column inside
    exact (mem_restart order numPages _).mp inside

end Reopen

end Restart

section Defined

variable {start : Logical}

/-- The catalog and the set of indexes are those of another state. -/
structure SameIndexes (before after : Logical) : Prop where
  catalog : after.catalog = before.catalog
  indexes : ∀ index, index ∈ after.indexManager.indexes ↔ index ∈ before.indexManager.indexes

theorem SameIndexes.defined (same : SameIndexes before after) (defined : Defined before) :
    Defined after := by
  refine ⟨?_, ?_⟩
  · rw [same.catalog]
    exact defined.defs
  · intro table column inside
    rw [same.catalog]
    exact defined.created ((same.indexes _).mp inside)

theorem SameIndexes.maintain (same : SameIndexes start before)
    {cells : List (String × Option Int64 × Option Int64)} (catalog : after.catalog = before.catalog)
    (maintained : after.indexManager = before.indexManager.maintain table rid cells) :
    SameIndexes start after := by
  refine ⟨catalog.trans same.catalog, fun index => ?_⟩
  rw [maintained, IndexManager.mem_maintain]
  exact same.indexes index

theorem SameIndexes.deleteStep (same : SameIndexes start logical) (table : String) (schema : Schema)
    (filter : Option Expr) (txnId : UInt32) (rid : Rid) (tuple : Bytes) :
    SameIndexes start (deleteStep table schema filter txnId rid tuple () logical).2 := by
  rcases deleteStep_cases table schema filter txnId rid tuple logical with
    ⟨failure, -, run⟩ | ⟨-, run⟩ | ⟨row, -, run⟩
  · exact run ▸ same
  · exact run ▸ same
  · exact run ▸ same.maintain rfl rfl

theorem SameIndexes.updateStep (same : SameIndexes start logical) (table : String) (schema : Schema)
    (assignments : List Assignment) (filter : Option Expr) (txnId : UInt32) (rid : Rid)
    (tuple : Bytes) :
    SameIndexes start (updateStep table schema assignments filter txnId rid tuple ()
      logical).2 := by
  rcases updateStep_cases table schema assignments filter txnId rid tuple logical with
    ⟨failure, run, -⟩ | ⟨-, run⟩ | ⟨oldRow, row, newBytes, -, -, ⟨-, run⟩ | ⟨-, run⟩⟩
  · exact run ▸ same
  · exact run ▸ same
  · exact run ▸ same.maintain rfl rfl
  · exact run ▸ ⟨same.catalog, same.indexes⟩

theorem sameIndexes_transact
    {step : UInt32 → Rid → Bytes → Unit → Fallible Failure Logical (Bool × Unit)}
    (steps : ∀ txnId rid tuple logical', SameIndexes logical logical' →
      SameIndexes logical (step txnId rid tuple () logical').2) (pageIds : List UInt32) :
    SameIndexes logical (logical.transact step pageIds).state := by
  have scanned : SameIndexes logical
      (logical.beginTxn.scan (step logical.nextTxnId) (logical.heap.live pageIds) ()).state :=
    scan_preserves (SameIndexes logical)
      (fun entry _ _ logical' same => steps _ entry.1 entry.2 logical' same) ()
      ⟨rfl, fun _ => Iff.rfl⟩
  exact transact_preserves (SameIndexes logical) (fun _ same => ⟨same.catalog, same.indexes⟩)
    scanned

theorem sameIndexes_execInsert (tidy : Tidy logical) (bounded : Bounded logical) (table : String)
    (values : List Value) : SameIndexes logical (logical.execInsert table values).state := by
  rcases ended : (logical.execInsert table values).result with failure | rows
  · rcases execInsert_fails ended with ⟨catalog, -, indexManager, -⟩
    exact ⟨catalog, fun index => by rw [indexManager]⟩
  · rcases tidy.inserted bounded ended with ⟨schema, rowBytes, rid, inserted⟩
    have here : SameIndexes logical logical := ⟨rfl, fun _ => Iff.rfl⟩
    exact here.maintain inserted.chosen.catalog inserted.indexManager

theorem Defined.addTable (defined : Defined logical)
    (missing : logical.catalog.get schema.name = none) (order : HashOrder) :
    Defined ((logical.createIndexOf schema).addTable order schema) := by
  have indexDefs : ((logical.createIndexOf schema).addTable order schema).catalog.indexDefs =
      logical.catalog.indexDefs ++ schema.primaryKey.toList.map fun column =>
        (schema.name, column) := rfl
  have mem (table column : String) :
      (table, column) ∈ ((logical.createIndexOf schema).addTable order schema).catalog.indexDefs ↔
        (table, column) ∈ logical.catalog.indexDefs ∨
          (table = schema.name ∧ schema.primaryKey = some column) := by
    rw [indexDefs, List.mem_append]
    simp [eq_comm, and_comm]
  refine ⟨?_, ?_⟩
  · intro table column
    rw [mem, defined.defs, get_addTable]
    split_ifs with same
    · subst same
      simp [missing]
    · simp [same, show (logical.createIndexOf schema).catalog = logical.catalog from rfl]
  · intro table column inside
    rw [mem]
    rcases (mem_createIndexOf schema table column).mp inside with isNew | old
    · exact .inr isNew
    · exact .inl (defined.created old)

theorem Defined.execute [Build] {rows : List Row} (defined : Defined logical) (tidy : Tidy logical)
    (bounded : Bounded logical) (order : HashOrder) (stmt : Statement)
    (done : (logical.execute order stmt).result = .ok rows) :
    Defined (logical.execute order stmt).state := by
  cases stmt with
  | createTable table columns =>
      simp only [Logical.execute, execCreateTable] at done ⊢
      split_ifs at done ⊢ with taken
      · simp [fail] at done
      · exact defined.addTable (AList.lookup_eq_none.mpr taken) order
  | insert table values => exact (sameIndexes_execInsert tidy bounded table values).defined defined
  | select table columns filter orderBy limit => exact defined
  | delete table filter =>
      rw [Logical.execute, execDelete]
      cases logical.catalog.get table with
      | none => exact defined
      | some schema =>
          cases logical.tablePages.lookup table with
          | none => exact defined
          | some pageIds =>
              exact (sameIndexes_transact (fun txnId rid tuple logical' same =>
                same.deleteStep table schema filter txnId rid tuple) pageIds).defined defined
  | update table assignments filter =>
      rw [Logical.execute, execUpdate]
      cases logical.catalog.get table with
      | none => exact defined
      | some schema =>
          cases logical.tablePages.lookup table with
          | none => exact defined
          | some pageIds =>
              exact (sameIndexes_transact (fun txnId rid tuple logical' same =>
                same.updateStep table schema assignments filter txnId rid tuple) pageIds).defined
                defined

end Defined

theorem keyed_initial : Keyed initial := by
  refine ⟨?_, ?_, ?_⟩
  · simp [initial, IndexManager.new]
  · simp [initial, Catalog.new, Catalog.get]
  · simp [initial, Catalog.new, Catalog.get]

theorem defined_initial : Defined initial := by
  refine ⟨?_, ?_⟩
  · simp [initial, Catalog.new, Catalog.get]
  · simp [initial, IndexManager.new]

/-- Statements that succeed and clean restarts keep the primary keys indexed. -/
theorem Run.keyed [Build] (run : Run Done logical) : Keyed logical ∧ Defined logical := by
  induction run with
  | start order =>
      exact keyed_initial.restart defined_initial sound_initial (by simp [initial, Heap.empty])
        order
  | execute before bounded order stmt ended ih =>
      have tidy := (before.sound .inl).tidy
      rcases ended with ⟨rows, done⟩
      exact ⟨(ih.1.execute tidy bounded order stmt).2,
        ih.2.execute tidy bounded order stmt done⟩
  | beginTxn before ih => exact ⟨ih.1.beginTxn, ⟨ih.2.defs, ih.2.created⟩⟩
  | restart before stored order ih =>
      exact ih.1.restart ih.2 (before.sound .inl) stored order

end Logical

end VenomDb
