import VenomDb.Engine.IndexRebuild

/-!
# Indexes that stay empty

An index is created for every primary key, but only integers are entered. If no column of
that name is an INT column, nothing ever is.
-/

namespace VenomDb

namespace Schema

variable {schema : Schema} {row : Row}

/-- No INT column has this name. -/
def NoInt (schema : Schema) (name : String) : Prop :=
  ∀ column ∈ schema.columns, column.name = name → column.ty ≠ .int

/-- The cells of a row have the types of their columns. -/
def RowSuits (schema : Schema) (row : Row) : Prop :=
  ∀ (index : ℕ) (column : ColumnDef) (value : Value), schema.columns[index]? = some column →
    row[index]? = some value → Suits value column.ty

theorem rowSuits_of_serializeRow {bytes : Bytes} (encoded : schema.serializeRow row = .ok bytes) :
    schema.RowSuits row := by
  intro index column value isColumn cell
  rcases suits_of_serializeRow encoded isColumn with ⟨found, isFound, suits⟩
  obtain rfl : value = found := Option.some.inj (cell.symm.trans isFound)
  exact suits

theorem suits_of_deserializeField {column : ColumnDef} {tag : UInt8} {buffer rest : Bytes}
    {value : Value} (decoded : deserializeField column tag buffer = .ok (value, rest)) :
    Suits value column.ty := by
  rw [deserializeField] at decoded
  split_ifs at decoded with isNull isInt isFloat isText
  · obtain ⟨rfl, -⟩ := Prod.mk.inj (Except.ok.inj decoded)
    trivial
  · rcases taken : takeSlice buffer 8 with failure | ⟨bytes, left⟩
    · simp [taken, bind, Except.bind] at decoded
    · simp only [taken, bind, Except.bind, pure, Except.pure] at decoded
      obtain ⟨rfl, -⟩ := Prod.mk.inj (Except.ok.inj decoded)
      exact isInt.2
  · rcases taken : takeSlice buffer 8 with failure | ⟨bytes, left⟩
    · simp [taken, bind, Except.bind] at decoded
    · simp only [taken, bind, Except.bind, pure, Except.pure] at decoded
      obtain ⟨rfl, -⟩ := Prod.mk.inj (Except.ok.inj decoded)
      exact isFloat.2
  · rcases taken : takeSlice buffer 4 with failure | ⟨bytes, left⟩
    · simp [taken, bind, Except.bind] at decoded
    · rcases text : takeSlice left (Bytes.ofLe bytes) with failure | ⟨textBytes, left'⟩
      · simp [taken, text, bind, Except.bind] at decoded
      · rcases read : String.fromUTF8? ⟨textBytes.toArray⟩ with _ | s
        · simp [taken, text, read, bind, Except.bind] at decoded
        · simp only [taken, text, read, bind, Except.bind, pure, Except.pure] at decoded
          obtain ⟨rfl, -⟩ := Prod.mk.inj (Except.ok.inj decoded)
          exact isText.2

theorem deserializeFields_cons_eq_ok {column : ColumnDef} {columns : List ColumnDef}
    {buffer : Bytes} {values : List Value}
    (decoded : deserializeFields (column :: columns) buffer = .ok values) :
    ∃ tag bytes value rest others, deserializeField column tag bytes = .ok (value, rest) ∧
      deserializeFields columns rest = .ok others ∧ values = value :: others := by
  cases buffer with
  | nil => simp [deserializeFields] at decoded
  | cons tag bytes =>
      rcases field : deserializeField column tag bytes with failure | ⟨value, rest⟩
      · simp [deserializeFields, field, bind, Except.bind] at decoded
      · rcases tail : deserializeFields columns rest with failure | others
        · simp [deserializeFields, field, tail, bind, Except.bind] at decoded
        · simp only [deserializeFields, field, tail, bind, Except.bind, pure, Except.pure]
            at decoded
          exact ⟨tag, bytes, value, rest, others, field, tail, (Except.ok.inj decoded).symm⟩

theorem length_of_deserializeFields {columns : List ColumnDef} {buffer : Bytes}
    {values : List Value} (decoded : deserializeFields columns buffer = .ok values) :
    values.length = columns.length := by
  induction columns generalizing buffer values with
  | nil =>
      obtain rfl := Except.ok.inj decoded
      rfl
  | cons first columns ih =>
      rcases deserializeFields_cons_eq_ok decoded with ⟨-, -, value, rest, others, -, tail, rfl⟩
      rw [List.length_cons, List.length_cons, ih tail]

theorem suits_of_deserializeFields {columns : List ColumnDef} {buffer : Bytes} {values : List Value}
    (decoded : deserializeFields columns buffer = .ok values) {index : ℕ} {column : ColumnDef}
    {value : Value} (isColumn : columns[index]? = some column)
    (cell : values[index]? = some value) : Suits value column.ty := by
  induction columns generalizing buffer values index with
  | nil => simp at isColumn
  | cons first columns ih =>
      rcases deserializeFields_cons_eq_ok decoded with
        ⟨tag, bytes, head, rest, others, field, tail, rfl⟩
      cases index with
      | zero =>
          obtain rfl : first = column := by simpa using isColumn
          obtain rfl : head = value := by simpa using cell
          exact suits_of_deserializeField field
      | succ index => exact ih tail (by simpa using isColumn) (by simpa using cell)

/-- Whatever a tuple decodes to has the types of the schema. -/
theorem rowSuits_of_deserializeRow {tuple : Bytes}
    (decoded : schema.deserializeRow tuple = .ok row) :
    schema.RowSuits row :=
  fun _ _ _ isColumn cell => suits_of_deserializeFields decoded isColumn cell

/-- A cell under such a name has no key. -/
theorem NoInt.intKey {name : String} (noInt : schema.NoInt name) (suits : schema.RowSuits row)
    {index : ℕ} {column : ColumnDef} (isColumn : schema.columns[index]? = some column)
    (named : column.name = name) : (row[index]?).bind Value.intKey = none := by
  rcases cell : row[index]? with _ | value
  · rfl
  · have isSuited := suits index column value isColumn cell
    have notInt := noInt column (List.mem_of_getElem? isColumn) named
    cases value with
    | int key => exact absurd isSuited notInt
    | _ => rfl

end Schema

namespace IndexManager

/-- Cells without keys leave the index on their column alone. -/
theorem lookup_maintain_idle {manager : IndexManager} {table name : String} {rid : Rid}
    {cells : List (String × Option Int64 × Option Int64)}
    (idle : ∀ cell ∈ cells, cell.1 = name → cell.2 = (none, none)) :
    (manager.maintain table rid cells).indexes.lookup (table, name) =
      manager.indexes.lookup (table, name) := by
  induction cells generalizing manager with
  | nil => rfl
  | cons cell cells ih =>
      rcases cell with ⟨column, old, new⟩
      rw [← List.singleton_append, maintain_append,
        ih fun other inside => idle other (List.mem_cons_of_mem _ inside)]
      by_cases named : column = name
      · obtain ⟨rfl, rfl⟩ := Prod.mk.inj (idle (column, old, new) List.mem_cons_self named)
        rw [maintain, maintain]
        split_ifs
        · rfl
        · rfl
      · apply lookup_maintain_ne
        intro other inside
        obtain rfl := List.mem_singleton.mp inside
        simpa using Ne.symm named

end IndexManager

namespace Logical

variable {logical start : Logical} {table : String} {schema : Schema} {name : String}

/-- The index on a primary key that no INT column has is there, and empty. -/
def Unused (logical : Logical) : Prop :=
  ∀ {table schema name}, logical.catalog.get table = some schema →
    schema.primaryKey = some name → schema.NoInt name →
    logical.indexManager.IsExact table name fun _ => none

theorem idle_indexCells {old new : Option Row} (noInt : schema.NoInt name)
    (oldSuits : ∀ row ∈ old, schema.RowSuits row) (newSuits : ∀ row ∈ new, schema.RowSuits row) :
    ∀ cell ∈ Executor.indexCells schema old new, cell.1 = name → cell.2 = (none, none) := by
  intro cell inside named
  rcases List.mem_iff_getElem?.mp inside with ⟨position, found⟩
  rcases name_of_indexCells found with ⟨column, isColumn, sameName⟩
  rw [getElem?_indexCells isColumn, Option.some.injEq] at found
  subst found
  have none_of (row : Option Row) (suits : ∀ row' ∈ row, schema.RowSuits row') :
      (row.bind fun row => row[position]?).bind Value.intKey = none := by
    cases row with
    | none => rfl
    | some row => exact noInt.intKey (suits row rfl) isColumn named
  rw [none_of old oldSuits, none_of new newSuits]

theorem idle_rebuildCells {row : Row} (noInt : schema.NoInt name) (suits : schema.RowSuits row) :
    ∀ cell ∈ Executor.rebuildCells schema row, cell.1 = name → cell.2 = (none, none) := by
  intro cell inside named
  rcases List.mem_map.mp inside with ⟨column, isColumn, rfl⟩
  dsimp only at named ⊢
  subst named
  rcases found : schema.colIndex column.name with _ | index
  · rfl
  · rw [Schema.colIndex, List.findIdx?_eq_some_iff_getElem] at found
    rcases found with ⟨bound, sameName, -⟩
    have isHere : schema.columns[index]? = some schema.columns[index] :=
      List.getElem?_eq_getElem bound
    rw [Option.bind_some, noInt.intKey suits isHere (beq_iff_eq.mp sameName)]

section Statements

/-- The catalog and the indexes without INT columns are those of another state. -/
structure SameUnused (before after : Logical) : Prop where
  catalog : after.catalog = before.catalog
  lookup : ∀ {table schema name}, before.catalog.get table = some schema → schema.NoInt name →
    after.indexManager.indexes.lookup (table, name) =
      before.indexManager.indexes.lookup (table, name)

theorem SameUnused.unused (same : SameUnused start logical) (unused : Unused start) :
    Unused logical := by
  intro table schema name known primary noInt
  rw [same.catalog] at known
  exact (unused known primary noInt).congr (same.lookup known noInt)

theorem SameUnused.maintain {after : Logical} {rid : Rid} {old new : Option Row}
    (same : SameUnused start logical) (known : start.catalog.get table = some schema)
    (oldSuits : ∀ row ∈ old, schema.RowSuits row) (newSuits : ∀ row ∈ new, schema.RowSuits row)
    (catalog : after.catalog = logical.catalog)
    (maintained : after.indexManager =
      logical.indexManager.maintain table rid (Executor.indexCells schema old new)) :
    SameUnused start after := by
  refine ⟨catalog.trans same.catalog, ?_⟩
  intro other otherSchema name otherKnown noInt
  rw [maintained, ← same.lookup otherKnown noInt]
  by_cases isTable : other = table
  · subst isTable
    obtain rfl : schema = otherSchema := Option.some.inj (known.symm.trans otherKnown)
    exact IndexManager.lookup_maintain_idle (idle_indexCells noInt oldSuits newSuits)
  · exact IndexManager.lookup_maintain_ne fun cell _ => by simp [isTable]

theorem SameUnused.deleteStep (same : SameUnused start logical)
    (known : start.catalog.get table = some schema) (filter : Option Expr) (txnId : UInt32)
    (rid : Rid) (tuple : Bytes) :
    SameUnused start (deleteStep table schema filter txnId rid tuple () logical).2 := by
  rcases deleteStep_cases table schema filter txnId rid tuple logical with
    ⟨failure, -, run⟩ | ⟨-, run⟩ | ⟨row, selected, run⟩
  · exact run ▸ same
  · exact run ▸ same
  · have suits := Schema.rowSuits_of_deserializeRow (selectRow_star selected).1
    exact run ▸ same.maintain known (by simpa using suits) (by simp) rfl rfl

theorem SameUnused.updateStep (same : SameUnused start logical)
    (known : start.catalog.get table = some schema) (assignments : List Assignment)
    (filter : Option Expr) (txnId : UInt32) (rid : Rid) (tuple : Bytes) :
    SameUnused start (updateStep table schema assignments filter txnId rid tuple () logical).2 := by
  rcases updateStep_cases table schema assignments filter txnId rid tuple logical with
    ⟨failure, run, -⟩ | ⟨-, run⟩ | ⟨oldRow, row, newBytes, selected, rewritten, ⟨-, run⟩ | ⟨-, run⟩⟩
  · exact run ▸ same
  · exact run ▸ same
  · have oldSuits := Schema.rowSuits_of_deserializeRow (selectRow_star selected).1
    have newSuits := Schema.rowSuits_of_serializeRow (rewriteRow_eq_ok rewritten).2.2
    exact run ▸ same.maintain known (by simpa using oldSuits) (by simpa using newSuits) rfl rfl
  · exact run ▸ ⟨same.catalog, same.lookup⟩

theorem sameUnused_transact
    {step : UInt32 → Rid → Bytes → Unit → Fallible Failure Logical (Bool × Unit)}
    (steps : ∀ txnId rid tuple logical', SameUnused logical logical' →
      SameUnused logical (step txnId rid tuple () logical').2) (pageIds : List UInt32) :
    SameUnused logical (logical.transact step pageIds).state := by
  have scanned : SameUnused logical
      (logical.beginTxn.scan (step logical.nextTxnId) (logical.heap.live pageIds) ()).state :=
    scan_preserves (SameUnused logical)
      (fun entry _ _ logical' same => steps _ entry.1 entry.2 logical' same) ()
      ⟨rfl, fun _ _ => rfl⟩
  exact transact_preserves (SameUnused logical) (fun _ same => ⟨same.catalog, same.lookup⟩) scanned

theorem sameUnused_execInsert (tidy : Tidy logical) (bounded : Bounded logical) (table : String)
    (values : List Value) : SameUnused logical (logical.execInsert table values).state := by
  rcases ended : (logical.execInsert table values).result with failure | rows
  · rcases execInsert_fails ended with ⟨catalog, -, indexManager, -⟩
    exact ⟨catalog, fun _ _ => by rw [indexManager]⟩
  · rcases tidy.inserted bounded ended with ⟨schema, rowBytes, rid, inserted⟩
    have here : SameUnused logical logical := ⟨rfl, fun _ _ => rfl⟩
    have suits := Schema.rowSuits_of_serializeRow inserted.encoded
    exact here.maintain inserted.known (by simp) (by simpa using suits) inserted.chosen.catalog
      inserted.indexManager

theorem Unused.addTable (unused : Unused logical) (keyed : Keyed logical)
    (missing : logical.catalog.get schema.name = none) (order : HashOrder) :
    Unused ((logical.createIndexOf schema).addTable order schema) := by
  intro table found name known primary noInt
  rw [get_addTable] at known
  split_ifs at known with same
  · subst same
    obtain rfl : schema = found := Option.some.inj known
    have created : (logical.createIndexOf schema).indexManager =
        logical.indexManager.createIndex schema.name name := by
      rw [Logical.createIndexOf, primary]
      rfl
    rw [show ((logical.createIndexOf schema).addTable order schema).indexManager = _ from created]
    apply IndexManager.isExact_createIndex
    intro inside
    have present := keyed.known inside
    simp [missing] at present
  · exact isExact_createIndexOf (unused known primary noInt) schema

theorem Unused.execute [Build] {rows : List Row} (unused : Unused logical) (keyed : Keyed logical)
    (tidy : Tidy logical) (bounded : Bounded logical) (order : HashOrder) (stmt : Statement)
    (done : (logical.execute order stmt).result = .ok rows) :
    Unused (logical.execute order stmt).state := by
  cases stmt with
  | createTable table columns =>
      simp only [Logical.execute, execCreateTable] at done ⊢
      split_ifs at done ⊢ with taken
      · simp [fail] at done
      · exact unused.addTable keyed (AList.lookup_eq_none.mpr taken) order
  | insert table values => exact (sameUnused_execInsert tidy bounded table values).unused unused
  | select table columns filter orderBy limit => exact unused
  | delete table filter =>
      rw [Logical.execute, execDelete]
      rcases known : logical.catalog.get table with _ | schema
      · exact unused
      · rcases logical.tablePages.lookup table with _ | pageIds
        · exact unused
        · exact (sameUnused_transact (fun txnId rid tuple logical' same =>
            same.deleteStep known filter txnId rid tuple) pageIds).unused unused
  | update table assignments filter =>
      rw [Logical.execute, execUpdate]
      rcases known : logical.catalog.get table with _ | schema
      · exact unused
      · rcases logical.tablePages.lookup table with _ | pageIds
        · exact unused
        · exact (sameUnused_transact (fun txnId rid tuple logical' same =>
            same.updateStep known assignments filter txnId rid tuple) pageIds).unused unused

end Statements

section Restart

variable {manager : IndexManager} {numPages : ℕ}

theorem lookup_rebuild_idle (noInt : schema.NoInt name) (table : String)
    (entries : List (Rid × Bytes)) (manager : IndexManager) :
    (rebuild table schema entries manager).indexes.lookup (table, name) =
      manager.indexes.lookup (table, name) := by
  rw [rebuild]
  induction entries generalizing manager with
  | nil => rfl
  | cons entry entries ih =>
      rcases entry with ⟨rid, tuple⟩
      rw [List.foldl_cons, ih]
      dsimp only
      rcases decoded : schema.deserializeRow tuple with failure | row
      · rfl
      · exact IndexManager.lookup_maintain_idle
          (idle_rebuildCells noInt (Schema.rowSuits_of_deserializeRow decoded))

theorem lookup_rebuildTables_idle (known : logical.catalog.get table = some schema)
    (noInt : schema.NoInt name) (tables : List String) (manager : IndexManager) :
    (tables.foldl logical.rebuildTable manager).indexes.lookup (table, name) =
      manager.indexes.lookup (table, name) := by
  induction tables generalizing manager with
  | nil => rfl
  | cons first tables ih =>
      rw [List.foldl_cons, ih, rebuildTable]
      by_cases isTable : first = table
      · subst isTable
        rw [known]
        exact lookup_rebuild_idle noInt first _ manager
      · cases logical.catalog.get first with
        | none => rfl
        | some other => exact lookup_rebuild_ne (Ne.symm isTable) other _ manager

theorem unused_restart (defined : Defined logical) (sound : Sound none logical)
    (order : HashOrder) : Unused (logical.restart order numPages) := by
  have get (table : String) : (logical.restart order numPages).catalog.get table =
      logical.catalog.get table := sound.filed.loaded table
  intro table schema name known primary noInt
  have reopened : (logical.reopened numPages).catalog.get table = some schema := known
  rw [get] at known
  rw [Logical.restart]
  refine IndexManager.IsExact.congr ?_ (lookup_rebuildTables_idle reopened noInt _ _)
  refine isExact_foldl_createIndex ?_ (by simp [IndexManager.new])
  rw [show (CatalogFile.load logical.catalogFile).indexDefs = _ from sound.filed.indexDefs,
    defined.defs]
  exact ⟨schema, known, primary⟩

end Restart

/-- After statements that succeeded and clean restarts, no index on a primary key of another type
than INT has an entry. -/
theorem Run.unused [Build] (run : Run Done logical) : Unused logical := by
  induction run with
  | start order => exact unused_restart defined_initial sound_initial order
  | execute before bounded order stmt ended ih =>
      rcases ended with ⟨rows, done⟩
      exact ih.execute before.keyed.1 (before.sound .inl).tidy bounded order stmt done
  | beginTxn before ih => exact ih
  | restart before stored order => exact unused_restart before.keyed.2 (before.sound .inl) order

end Logical

end VenomDb
