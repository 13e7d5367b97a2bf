import VenomDb.Engine.IndexRebuild
import VenomDb.Engine.Survival

/-!
# Primary keys are unique

For an INT primary key the index tells whether a key is taken. For other types nothing
does, so equal keys are kept out only by statements that do not bring them in.
-/

namespace VenomDb

/-- Two values are equal in the sense of `=`. -/
def Value.Same (left right : Value) : Prop := left.partialCmp right = some .eq

theorem Float64.partialCmp_eq_comm {left right : UInt64}
    (same : Float64.partialCmp left right = some .eq) :
    Float64.partialCmp right left = some .eq := by
  rw [Float64.partialCmp] at same ⊢
  split_ifs at same with nan
  rw [Option.some.injEq, compare_eq_iff_eq] at same
  rw [Bool.or_comm, if_neg nan, same, compare_eq_iff_eq.mpr rfl]

theorem Value.Same.symm {left right : Value} (same : left.Same right) : right.Same left := by
  cases left <;> cases right <;> simp only [Value.Same, Value.partialCmp] at same ⊢
  case int.int =>
      rw [Option.some.injEq, compare_eq_iff_eq] at same
      rw [same, compare_eq_iff_eq.mpr rfl]
  case int.float => exact Float64.partialCmp_eq_comm same
  case float.int => exact Float64.partialCmp_eq_comm same
  case float.float => exact Float64.partialCmp_eq_comm same
  case text.text =>
      rw [Option.some.injEq, Std.LawfulEqOrd.compare_eq_iff_eq] at same
      rw [same, Std.LawfulEqOrd.compare_eq_iff_eq.mpr rfl]
  all_goals simp at same

namespace Executor

section Keys

variable [Crc32]

/-- The live tuples of some pages with their record ids, in scan order. -/
def entriesOf (executor : Executor) (pageIds : List UInt32) : List (Rid × Bytes) :=
  pageIds.flatMap fun pageId =>
    match executor.bufferPool.view pageId with
    | none => []
    | some data =>
        let page : Page := { id := pageId, data := data, dirty := false }
        (List.range page.numSlots.toNat).filterMap fun slot =>
          (page.getTuple (UInt16.ofNat slot)).toOption.join.map fun tuple =>
            (⟨pageId, UInt16.ofNat slot⟩, tuple)

/-- The value of a tuple in one column. -/
def cellOf (schema : Schema) (index : ℕ) (tuple : Bytes) : Option Value :=
  (schema.deserializeRow tuple).toOption.bind fun row => row[index]?

/-- The primary keys of the live rows of a table. -/
def keysOf (executor : Executor) (schema : Schema) (pageIds : List UInt32) : List Value :=
  schema.pkColIndex.elim [] fun index =>
    (executor.entriesOf pageIds).filterMap fun entry => cellOf schema index entry.2

theorem Reflects.entriesOf {executor : Executor} {logical : Logical} {inUse : Option FrameId}
    (reflects : Reflects executor logical inUse) {pageIds : List UInt32}
    (present : ∀ pageId ∈ pageIds, (logical.heap pageId).isSome) :
    executor.entriesOf pageIds = logical.heap.live pageIds := by
  rw [Executor.entriesOf, Heap.live]
  apply List.flatMap_congr
  intro pageId inside
  rcases Option.isSome_iff_exists.mp (present pageId inside) with ⟨page, found⟩
  rcases reflects.heap found with ⟨data, seen, represents⟩
  let concrete : Page := { id := pageId, data := data, dirty := false }
  have represents : Represents concrete.data page := represents
  rw [seen, Heap.liveIn, Heap.slots, found, List.filterMap_map]
  simp only [Option.elim_some, ← represents.numSlots_eq]
  apply List.filterMap_congr
  intro slot _
  rw [represents.getTuple_eq]
  simp [Heap.get, found, Except.toOption]

end Keys

section IntKeys

variable {executor : Executor} {table : String} {schema : Schema} {index : ℕ} {column : ColumnDef}

theorem keyColumn_of_nodup (distinct : (schema.columns.map ColumnDef.name).Nodup)
    (here : schema.columns[index]? = some column) (primary : schema.primaryKey = some column.name) :
    schema.KeyColumn index column := by
  refine ⟨here, primary, ?_⟩
  intro other column' there sameName
  rcases List.getElem?_eq_some_iff.mp here with ⟨bound, rfl⟩
  rcases List.getElem?_eq_some_iff.mp there with ⟨bound', rfl⟩
  have sameCell : (schema.columns.map ColumnDef.name)[other]? =
      (schema.columns.map ColumnDef.name)[index]? := by
    simp [bound, bound', sameName]
  exact (List.getElem?_inj (by simpa using bound') distinct).mp sameCell

theorem cellOf_of_rowAt {logical : Logical} {pageIds : List UInt32} {rid : Rid} {tuple : Bytes}
    {row : Row} (decoded : schema.deserializeRow tuple = .ok row)
    (here : logical.rowAt schema pageIds rid = some row) :
    cellOf schema index tuple =
      (logical.rowAt schema pageIds rid).bind fun row => row[index]? := by
  rw [cellOf, decoded, here]
  rfl

/-- A live row of a table with an INT primary key has an integer as its key. -/
theorem intKey_of_live {logical : Logical} {pageIds : List UInt32} {rid : Rid} {tuple : Bytes}
    (keyed : logical.Keyed) (tidy : logical.Tidy) (known : logical.catalog.get table = some schema)
    (listed : logical.tablePages.lookup table = some pageIds)
    (keyColumn : schema.KeyColumn index column) (ty : column.ty = .int)
    (live : (rid, tuple) ∈ logical.heap.live pageIds) :
    ∃ key, cellOf schema index tuple = some (.int key) ∧
      logical.keyAt schema pageIds index rid = some key := by
  rcases Heap.mem_live.mp live with ⟨inside, isLive⟩
  rcases tidy.rowAt_of_live known listed inside isLive with ⟨row, decoded, here⟩
  rcases tidy.suits known listed here keyColumn.here with ⟨value, cell, suits⟩
  have present := keyed.present known listed keyColumn here
  rw [cellOf_of_rowAt decoded here, Logical.keyAt, here, Option.bind_some, cell]
  cases value with
  | null => exact absurd cell present
  | int key => exact ⟨key, rfl, rfl⟩
  | float bits => simp [Schema.Suits, ty] at suits
  | text s => simp [Schema.Suits, ty] at suits

theorem keyAt_of_live {logical : Logical} {pageIds : List UInt32} {rid : Rid} {key : Int64}
    (here : logical.keyAt schema pageIds index rid = some key) :
    ∃ tuple, (rid, tuple) ∈ logical.heap.live pageIds := by
  rw [Logical.keyAt, Option.bind_eq_some_iff] at here
  rcases here with ⟨value, cell, -⟩
  rcases Option.bind_eq_some_iff.mp cell with ⟨row, isRow, -⟩
  rcases Logical.rowAt_eq_some.mp isRow with ⟨inside, tuple, live, -⟩
  exact ⟨tuple, Heap.mem_live.mpr ⟨inside, live⟩⟩

variable [Crc32] [Build]

/-- After statements that all succeeded and clean restarts, the index on an INT primary key has
exactly one entry for each live row: its key and its place. So no two rows have the same key. -/
theorem primaryKey_indexed (reachable : Reachable Succeeds executor)
    (known : executor.catalog.get table = some schema)
    (distinct : (schema.columns.map ColumnDef.name).Nodup)
    (here : schema.columns[index]? = some column) (primary : schema.primaryKey = some column.name)
    (ty : column.ty = .int) :
    ∃ pageIds tree content, executor.tablePages.lookup table = some pageIds ∧
      executor.indexManager.indexes.lookup (table, column.name) = some tree ∧
      tree.Denotes content ∧
      (content.map fun entry => (entry.2, some (Value.int entry.1))).Perm
        ((executor.entriesOf pageIds).map fun entry => (entry.1, cellOf schema index entry.2)) ∧
      ((executor.entriesOf pageIds).map fun entry => cellOf schema index entry.2).Nodup := by
  rcases reachable.follows_done with ⟨logical, rests, follows, -⟩
  have tidy := (follows.sound .inl).tidy
  have keyed := follows.keyed.1
  have keyColumn := keyColumn_of_nodup distinct here primary
  rw [rests.reflects.catalog_eq]
    at known
  rw [rests.reflects.tablePages_eq, rests.reflects.indexManager_eq]
  have listed : (logical.tablePages.lookup table).isSome := by
    rw [← tidy.filed.tables, known]
    rfl
  rcases Option.isSome_iff_exists.mp listed with ⟨pageIds, listed⟩
  have isExact := keyed.indexed known listed keyColumn ty
  have injective {rid other : Rid} {key : Int64}
      (isKey : logical.keyAt schema pageIds index rid = some key)
      (isOther : logical.keyAt schema pageIds index other = some key) : rid = other :=
    isExact.injective isKey isOther
  rcases isExact with ⟨tree, content, found, denotes, entries⟩
  have live := rests.reflects.entriesOf (tidy.usable.present listed)
  have rids := tidy.nodup_live listed
  have integers {rid : Rid} {tuple : Bytes} (inside : (rid, tuple) ∈ logical.heap.live pageIds) :=
    intKey_of_live keyed tidy known listed keyColumn ty inside
  refine ⟨pageIds, tree, content, listed, found, denotes, ?_, ?_⟩
  · rw [live, List.perm_ext_iff_of_nodup]
    · rintro ⟨rid, cell⟩
      simp only [List.mem_map, Prod.mk.injEq, Prod.exists]
      constructor
      · rintro ⟨key, _, inside, rfl, rfl⟩
        have isKey := (entries key _).mp inside
        rcases keyAt_of_live isKey with ⟨tuple, isLive⟩
        rcases integers isLive with ⟨key', cell, isKey'⟩
        obtain rfl : key = key' := by simpa using isKey.symm.trans isKey'
        exact ⟨_, tuple, isLive, rfl, cell⟩
      · rintro ⟨_, tuple, isLive, rfl, rfl⟩
        rcases integers isLive with ⟨key, cell, isKey⟩
        exact ⟨key, _, (entries key _).mpr isKey, rfl, cell.symm⟩
    · refine List.Nodup.map ?_ (denotes.sorted.imp fun less same => ?_)
      · rintro ⟨key, rid⟩ ⟨key', rid'⟩ same
        simpa [and_comm] using same
      · exact absurd less (by rw [same]; exact lt_irrefl _)
    · apply List.Nodup.of_map Prod.fst
      rw [List.map_map]
      exact rids
  · rw [live]
    refine List.Nodup.map_on ?_ (List.Nodup.of_map _ rids)
    rintro ⟨rid, tuple⟩ inside ⟨other, otherTuple⟩ otherInside same
    rcases integers inside with ⟨key, cell, isKey⟩
    rcases integers otherInside with ⟨otherKey, otherCell, isOther⟩
    dsimp only at same
    obtain rfl : key = otherKey := by simpa [cell, otherCell] using same
    obtain rfl := injective isKey isOther
    have isTuple := (Heap.mem_live.mp inside).2
    have isOtherTuple := (Heap.mem_live.mp otherInside).2
    simpa using isTuple.symm.trans isOtherTuple

end IntKeys

end Executor

namespace Logical

variable {logical start : Logical} {table : String} {schema : Schema} {pageIds : List UInt32}
  {index : ℕ} {column : ColumnDef} {rid : Rid} {tuple : Bytes}

/-- No two rows of a table have equal primary keys. -/
def Distinct (logical : Logical) : Prop :=
  ∀ {table schema pageIds index column}, logical.catalog.get table = some schema →
    logical.tablePages.lookup table = some pageIds → schema.KeyColumn index column →
    ∀ {rid other row row' value value'}, rid ≠ other →
      logical.rowAt schema pageIds rid = some row → logical.rowAt schema pageIds other = some row' →
      row[index]? = some value → row'[index]? = some value' → ¬value.Same value'

/-- Every primary key names one column. -/
def Named (logical : Logical) : Prop :=
  ∀ {table schema name}, logical.catalog.get table = some schema → schema.primaryKey = some name →
    ∃ index column, schema.KeyColumn index column

/-- The index keeps integer keys apart. -/
theorem Keyed.distinct_int (keyed : Keyed logical) (tidy : Tidy logical)
    (known : logical.catalog.get table = some schema)
    (listed : logical.tablePages.lookup table = some pageIds)
    (keyColumn : schema.KeyColumn index column) (ty : column.ty = .int) {other : Rid}
    {row row' : Row} {value value' : Value} (apart : rid ≠ other)
    (here : logical.rowAt schema pageIds rid = some row)
    (there : logical.rowAt schema pageIds other = some row') (cell : row[index]? = some value)
    (cell' : row'[index]? = some value') : ¬value.Same value' := by
  have integer {rid : Rid} {row : Row} {value : Value}
      (here : logical.rowAt schema pageIds rid = some row) (cell : row[index]? = some value) :
      ∃ key, value = .int key ∧ logical.keyAt schema pageIds index rid = some key := by
    rcases tidy.suits known listed here keyColumn.here with ⟨found, isFound, suits⟩
    obtain rfl : value = found := by simpa using cell.symm.trans isFound
    have present := keyed.present known listed keyColumn here
    cases value with
    | null => exact absurd cell present
    | int key => exact ⟨key, rfl, by simp [keyAt, here, cell, Value.intKey]⟩
    | float bits => simp [Schema.Suits, ty] at suits
    | text s => simp [Schema.Suits, ty] at suits
  rcases integer here cell with ⟨key, rfl, isKey⟩
  rcases integer there cell' with ⟨key', rfl, isKey'⟩
  intro same
  have equal : key = key' := by
    simpa [Value.Same, Value.partialCmp, compare_eq_iff_eq, Int64.toInt_inj] using same
  subst equal
  exact apart ((keyed.indexed known listed keyColumn ty).injective isKey isKey')

/-- The rows of a table along a scan: each is one of the start, as it was or as the statement makes
it. Other tables stay as they were. -/
structure Traced (table : String) (schema : Schema) (pageIds : List UInt32)
    (becomes : Bytes → Row → Row → Prop) (start logical : Logical) : Prop extends
    KeyedAmid start logical where
  here : ∀ {rid row'}, logical.rowAt schema pageIds rid = some row' →
    ∃ tuple row, (rid, tuple) ∈ start.heap.live pageIds ∧ schema.deserializeRow tuple = .ok row ∧
      (row' = row ∨ becomes tuple row row')
  others : ∀ {other otherIds}, other ≠ table → start.tablePages.lookup other = some otherIds →
    ∀ otherSchema, logical.rowAt otherSchema otherIds = start.rowAt otherSchema otherIds

theorem Traced.change {becomes : Bytes → Row → Row → Prop} {after : Logical} {old new : Option Row}
    (traced : Traced table schema pageIds becomes start logical) (amid : KeyedAmid start after)
    (change : RowChange table schema rid old new logical after)
    (listed : start.tablePages.lookup table = some pageIds)
    (live : (rid, tuple) ∈ start.heap.live pageIds)
    (made : ∀ {row'}, new = some row' → ∃ row, schema.deserializeRow tuple = .ok row ∧
      (row' = row ∨ becomes tuple row row')) :
    Traced table schema pageIds becomes start after := by
  refine ⟨amid, ?_, ?_⟩
  · intro rid' row' here
    have listed' : after.tablePages.lookup table = some pageIds := by rw [amid.tablePages, listed]
    rcases change.here listed' with ⟨oldIds, oldListed, -, rows⟩
    obtain rfl : oldIds = pageIds := by
      rw [traced.tablePages, listed] at oldListed
      exact (Option.some.inj oldListed).symm
    rw [rows] at here
    by_cases same : rid' = rid
    · subst same
      rw [Function.update_self] at here
      rcases made here with ⟨row, decoded, isNew⟩
      exact ⟨tuple, row, live, decoded, isNew⟩
    · rw [Function.update_of_ne same] at here
      exact traced.here here
  · intro other otherIds apart otherListed otherSchema
    have otherListed' : after.tablePages.lookup other = some otherIds := by
      rw [amid.tablePages, otherListed]
    rw [(change.others apart otherListed').2]
    exact traced.others apart otherListed otherSchema

/-- What `UPDATE` makes of a row that it selects. -/
def Rewrites (table : String) (schema : Schema) (assignments : List Assignment)
    (filter : Option Expr) (tuple : Bytes) (row row' : Row) : Prop :=
  Executor.selectRow schema .star filter tuple = .ok (some row) ∧
    ∃ manager bytes, Executor.rewriteRow schema manager table assignments row = .ok (row', bytes)

theorem Traced.deleteStep {becomes : Bytes → Row → Row → Prop}
    (traced : Traced table schema pageIds becomes start logical)
    (known : start.catalog.get table = some schema)
    (listed : start.tablePages.lookup table = some pageIds)
    (entry : (rid, tuple) ∈ start.heap.live pageIds) (live : logical.heap.get rid = some tuple)
    (filter : Option Expr) (txnId : UInt32) :
    Traced table schema pageIds becomes start
      (deleteStep table schema filter txnId rid tuple () logical).2 := by
  have inside := (Heap.mem_live.mp entry).1
  have amid := traced.toKeyedAmid.deleteStep known listed inside live filter txnId
  rw [← traced.catalog] at known
  have listed' := listed
  rw [← traced.tablePages] at listed'
  rcases deleteStep_cases table schema filter txnId rid tuple logical with
    ⟨failure, -, run⟩ | ⟨-, run⟩ | ⟨row, selected, run⟩
  · exact run ▸ traced
  · exact run ▸ traced
  · rw [run] at amid ⊢
    exact traced.change amid (traced.tidy.rowChange_delete known listed' inside live
      (selectRow_star selected).1 txnId) listed entry (by simp)

theorem Traced.updateStep {assignments : List Assignment} {filter : Option Expr}
    (traced : Traced table schema pageIds (Rewrites table schema assignments filter) start logical)
    (known : start.catalog.get table = some schema)
    (listed : start.tablePages.lookup table = some pageIds)
    (entry : (rid, tuple) ∈ start.heap.live pageIds) (live : logical.heap.get rid = some tuple)
    (txnId : UInt32) :
    Traced table schema pageIds (Rewrites table schema assignments filter) start
      (updateStep table schema assignments filter txnId rid tuple () logical).2 := by
  have inside := (Heap.mem_live.mp entry).1
  have amid := traced.toKeyedAmid.updateStep known listed inside live assignments filter txnId
  rw [← traced.catalog] at known
  have listed' := listed
  rw [← traced.tablePages] at listed'
  rcases updateStep_cases table schema assignments filter txnId rid tuple logical with
    ⟨failure, run, -⟩ | ⟨-, run⟩ |
      ⟨oldRow, row, newBytes, selected, rewritten, ⟨fits, run⟩ | ⟨larger, run⟩⟩
  · exact run ▸ traced
  · exact run ▸ traced
  · rcases rewriteRow_eq_ok rewritten with ⟨-, -, encoded⟩
    have decoded := (selectRow_star selected).1
    rw [run] at amid ⊢
    refine traced.change amid
      (traced.tidy.rowChange_update known listed' inside live decoded encoded
      fits txnId) listed entry ?_
    intro row' isNew
    obtain rfl : row = row' := by simpa using isNew
    exact ⟨oldRow, decoded, .inr ⟨selected, _, newBytes, rewritten⟩⟩
  · rw [run] at amid ⊢
    exact ⟨amid, traced.here, traced.others⟩

end Logical

/-- The checks that the code leaves out, on the tables before a statement. The key of a table is
its first `PRIMARY KEY` column. A new table names it unambiguously; a row that comes into a table
whose key is no integer has a key that no live row has; an `UPDATE` of a text key skips all rows
but at most one, and no row that it skips has the key. A row on which the `WHERE` clause fails is
not skipped. -/
def RespectsKeys (catalog : Catalog) (tablePages : AList fun _ : String => List UInt32)
    (entries : List UInt32 → List (Rid × Bytes)) : Statement → Prop
  | .createTable table columns =>
      ∀ name, (Schema.new table columns).primaryKey = some name →
        ∃ index column, (Schema.new table columns).KeyColumn index column
  | .insert table values => ∀ schema pageIds index column value, catalog.get table = some schema →
      tablePages.lookup table = some pageIds → schema.KeyColumn index column → column.ty ≠ .int →
      values[index]? = some value → ∀ entry ∈ entries pageIds, ∀ key,
        Executor.cellOf schema index entry.2 = some key → ¬key.Same value
  | .update table assignments filter => ∀ schema pageIds index column value,
      catalog.get table = some schema → tablePages.lookup table = some pageIds →
      schema.KeyColumn index column → column.ty = .text →
      Executor.assigned column.name assignments = some value →
      (∀ first ∈ entries pageIds, ∀ second ∈ entries pageIds,
        Executor.skipsTuple schema filter first.2 = false →
        Executor.skipsTuple schema filter second.2 = false → first = second) ∧
      ∀ entry ∈ entries pageIds, Executor.skipsTuple schema filter entry.2 = true →
        ∀ key, Executor.cellOf schema index entry.2 = some key → ¬key.Same value
  | _ => True

namespace Logical

section Distinct

variable {logical start : Logical} {table : String} {schema : Schema} {pageIds : List UInt32}
  {index : ℕ} {column : ColumnDef} {assignments : List Assignment} {filter : Option Expr}

/-- Keys along a scan stay distinct if those that the statement makes are. -/
theorem Traced.distinct {becomes : Bytes → Row → Row → Prop}
    (traced : Traced table schema pageIds becomes start logical) (distinct : Distinct start)
    (known : start.catalog.get table = some schema)
    (listed : start.tablePages.lookup table = some pageIds)
    (fresh : ∀ {index column}, schema.KeyColumn index column → column.ty ≠ .int →
      ∀ {rid other : Rid} {tuple tuple' row row' new new'}, rid ≠ other →
        (rid, tuple) ∈ start.heap.live pageIds → (other, tuple') ∈ start.heap.live pageIds →
        schema.deserializeRow tuple = .ok row → schema.deserializeRow tuple' = .ok row' →
        new = row ∨ becomes tuple row new → new' = row' ∨ becomes tuple' row' new' →
        ∀ {value value'}, new[index]? = some value → new'[index]? = some value' →
          ¬value.Same value') : Distinct logical := by
  intro other otherSchema otherIds index column otherKnown otherListed keyColumn rid rid' row row'
    value value' apart here there cell cell'
  by_cases ty : column.ty = .int
  · exact traced.keyed.distinct_int traced.tidy otherKnown otherListed keyColumn ty apart here there
      cell cell'
  · rw [traced.catalog] at otherKnown
    rw [traced.tablePages] at otherListed
    by_cases same : other = table
    · subst same
      obtain rfl : schema = otherSchema := by simpa using known.symm.trans otherKnown
      obtain rfl : pageIds = otherIds := by simpa using listed.symm.trans otherListed
      rcases traced.here here with ⟨tuple, old, live, decoded, made⟩
      rcases traced.here there with ⟨tuple', old', live', decoded', made'⟩
      exact fresh keyColumn ty apart live live' decoded decoded' made made' cell cell'
    · rw [traced.others same otherListed] at here there
      exact distinct otherKnown otherListed keyColumn apart here there cell cell'

/-- Distinct keys of rows that are read from their tuples. -/
theorem Distinct.of_live (distinct : Distinct start) (known : start.catalog.get table = some schema)
    (listed : start.tablePages.lookup table = some pageIds)
    (keyColumn : schema.KeyColumn index column) {rid other : Rid} {tuple tuple' : Bytes}
    {row row' : Row} (apart : rid ≠ other) (live : (rid, tuple) ∈ start.heap.live pageIds)
    (live' : (other, tuple') ∈ start.heap.live pageIds)
    (decoded : schema.deserializeRow tuple = .ok row)
    (decoded' : schema.deserializeRow tuple' = .ok row') {value value' : Value}
    (cell : row[index]? = some value) (cell' : row'[index]? = some value') :
    ¬value.Same value' := by
  rcases Heap.mem_live.mp live with ⟨inside, isLive⟩
  rcases Heap.mem_live.mp live' with ⟨inside', isLive'⟩
  exact distinct known listed keyColumn apart
    (rowAt_eq_some.mpr ⟨inside, tuple, isLive, decoded⟩)
    (rowAt_eq_some.mpr ⟨inside', tuple', isLive', decoded'⟩) cell cell'

/-- Along an `UPDATE`, a key that was assigned belongs to the one row that is selected. -/
theorem Distinct.rewritten (distinct : Distinct start)
    (respects : RespectsKeys start.catalog start.tablePages start.heap.live
      (.update table assignments filter))
    (known : start.catalog.get table = some schema)
    (listed : start.tablePages.lookup table = some pageIds)
    (keyColumn : schema.KeyColumn index column) (ty : column.ty ≠ .int) {rid other : Rid}
    {tuple tuple' : Bytes} {row row' new new' : Row} (apart : rid ≠ other)
    (live : (rid, tuple) ∈ start.heap.live pageIds)
    (live' : (other, tuple') ∈ start.heap.live pageIds)
    (decoded : schema.deserializeRow tuple = .ok row)
    (decoded' : schema.deserializeRow tuple' = .ok row')
    (made : new = row ∨ Rewrites table schema assignments filter tuple row new)
    (made' : new' = row' ∨ Rewrites table schema assignments filter tuple' row' new')
    {value value' : Value} (cell : new[index]? = some value) (cell' : new'[index]? = some value') :
    ¬value.Same value' := by
  cases given : Executor.assigned column.name assignments with
  | none =>
      have kept {tuple : Bytes} {row new : Row} {value : Value}
          (made : new = row ∨ Rewrites table schema assignments filter tuple row new)
          (cell : new[index]? = some value) : row[index]? = some value := by
        rcases made with rfl | ⟨-, manager, bytes, rewritten⟩
        · exact cell
        · rcases rewriteRow_eq_ok rewritten with ⟨-, applied, -⟩
          rw [(Executor.applyAssignments_cell keyColumn applied).1, given] at cell
          simpa using cell
      exact distinct.of_live known listed keyColumn apart live live' decoded decoded'
        (kept made cell) (kept made' cell')
  | some assignedKey =>
      -- a row that was rewritten is selected and has the assigned key, which is a text
      have changed {tuple : Bytes} {row new : Row} {value : Value}
          (rewrites : Rewrites table schema assignments filter tuple row new)
          (cell : new[index]? = some value) :
          value = assignedKey ∧ column.ty = .text ∧
            Executor.skipsTuple schema filter tuple = false := by
        rcases rewrites with ⟨selected, manager, bytes, rewritten⟩
        rcases rewriteRow_eq_ok rewritten with ⟨checked, applied, -⟩
        rcases Executor.applyAssignments_cell keyColumn applied with ⟨isCell, types⟩
        have assignable := types assignedKey given
        have present := (Executor.checkUpdateKey_assigned keyColumn checked given).1
        rw [isCell, given] at cell
        refine ⟨?_, ?_, by simp [Executor.skipsTuple, selected]⟩
        · rcases Option.map_eq_some_iff.mp cell with ⟨_, -, same⟩
          simpa using same.symm
        · cases assignedKey <;> cases isType : column.ty <;>
            simp_all [Executor.assignable]
      have single (ty : column.ty = .text) :=
        respects schema pageIds index column assignedKey known listed keyColumn ty given
      have untouched {tuple : Bytes} {row : Row} {rid : Rid} {value : Value}
          (ty : column.ty = .text) (live : (rid, tuple) ∈ start.heap.live pageIds)
          (decoded : schema.deserializeRow tuple = .ok row) (cell : row[index]? = some value)
          (skipped : Executor.skipsTuple schema filter tuple = true) : ¬value.Same assignedKey :=
        (single ty).2 _ live skipped value
          (by simp [Executor.cellOf, decoded, Except.toOption, cell])
      rcases made with rfl | rewrites
      · rcases made' with rfl | rewrites'
        · exact distinct.of_live known listed keyColumn apart live live' decoded decoded' cell cell'
        · rcases changed rewrites' cell' with ⟨rfl, isText, selected'⟩
          cases skipped : Executor.skipsTuple schema filter tuple with
          | true => exact untouched isText live decoded cell skipped
          | false =>
              have same := (single isText).1 _ live _ live' skipped selected'
              exact absurd (Prod.mk.inj same).1 apart
      · rcases changed rewrites cell with ⟨rfl, isText, selected⟩
        cases skipped : Executor.skipsTuple schema filter tuple' with
        | false =>
            have same := (single isText).1 _ live _ live' selected skipped
            exact absurd (Prod.mk.inj same).1 apart
        | true =>
            rcases made' with rfl | rewrites'
            · exact fun same => untouched isText live' decoded' cell' skipped same.symm
            · rw [(changed rewrites' cell').2.2] at skipped
              simp at skipped

end Distinct

section KeysHold

variable {logical : Logical}

/-- What keeps the primary keys of all tables unique. -/
structure KeysHold (logical : Logical) : Prop where
  tidy : Tidy logical
  keyed : Keyed logical
  named : Named logical
  distinct : Distinct logical

theorem keysHold_initial (order : HashOrder) : KeysHold (initial.restart order 0) := by
  have sound : Sound none (initial.restart order 0) :=
    sound_initial.restart order (by simp [initial, Heap.empty])
  have nothing (table : String) : (initial.restart order 0).catalog.get table = none :=
    sound_initial.filed.loaded table
  refine ⟨sound.tidy, ?_, ?_, ?_⟩
  · exact (keyed_initial.restart defined_initial sound_initial (by simp [initial, Heap.empty])
      order).1
  · intro table schema name known
    rw [nothing] at known
    simp at known
  · intro table schema pageIds index column known
    rw [nothing] at known
    simp at known

theorem KeysHold.beginTxn (hold : KeysHold logical) : KeysHold logical.beginTxn :=
  ⟨hold.tidy.beginTxn, hold.keyed.beginTxn, hold.named, hold.distinct⟩

/-- A scan that keeps the keys of the table distinct. -/
theorem KeysHold.traced {table : String} {schema : Schema} {pageIds : List UInt32}
    {becomes : Bytes → Row → Row → Prop} {after : Logical} (hold : KeysHold logical)
    (traced : Traced table schema pageIds becomes logical after) (distinct : Distinct after) :
    KeysHold after := by
  refine ⟨traced.tidy, traced.keyed, ?_, distinct⟩
  intro table schema name known
  rw [traced.catalog] at known
  exact hold.named known

theorem Traced.transact {table : String} {schema : Schema} {pageIds : List UInt32}
    {becomes : Bytes → Row → Row → Prop}
    {step : UInt32 → Rid → Bytes → Unit → Fallible Failure Logical (Bool × Unit)}
    (hold : KeysHold logical) (isLocal : ∀ txnId, IsLocal (step txnId))
    (listed : logical.tablePages.lookup table = some pageIds)
    (steps : ∀ {rid tuple logical'}, Traced table schema pageIds becomes logical logical' →
      (rid, tuple) ∈ logical.heap.live pageIds → logical'.heap.get rid = some tuple →
      Traced table schema pageIds becomes logical
        (step logical.nextTxnId rid tuple () logical').2) :
    Traced table schema pageIds becomes logical (logical.transact step pageIds).state := by
  have begun : Traced table schema pageIds becomes logical logical.beginTxn := by
    refine ⟨⟨⟨hold.tidy.beginTxn, rfl, rfl⟩, hold.keyed.beginTxn⟩, ?_, fun _ _ _ => rfl⟩
    intro rid row here
    rcases rowAt_eq_some.mp here with ⟨inside, tuple, live, decoded⟩
    exact ⟨tuple, row, Heap.mem_live.mpr ⟨inside, live⟩, decoded, .inl rfl⟩
  have scanned : Traced table schema pageIds becomes logical
      (logical.beginTxn.scan (step logical.nextTxnId) (logical.heap.live pageIds) ()).state :=
    scan_preserves_live (isLocal logical.nextTxnId)
      (Traced table schema pageIds becomes logical) (hold.tidy.nodup_live listed)
      (fun entry inside _ _ traced live => steps traced inside live) ()
      (fun _ inside => (Heap.mem_live.mp inside).2) begun
  rw [Logical.transact]
  generalize logical.beginTxn.scan (step logical.nextTxnId) (logical.heap.live pageIds) () =
    ended at scanned ⊢
  rcases ended with ⟨failure | _, changed, logical'⟩
  · exact scanned
  · exact ⟨⟨⟨scanned.tidy.commit _, scanned.catalog, scanned.tablePages⟩,
      scanned.keyed.commit _⟩, scanned.here, scanned.others⟩

theorem KeysHold.execInsert (hold : KeysHold logical) (bounded : Bounded logical) {table : String}
    {values : List Value}
    (respects : RespectsKeys logical.catalog logical.tablePages logical.heap.live
      (.insert table values)) : KeysHold (logical.execInsert table values).state := by
  have tidy := hold.tidy.execInsert bounded table values
  have keyed := hold.keyed.execInsert hold.tidy bounded table values
  rcases ended : (logical.execInsert table values).result with failure | rows
  · rcases execInsert_fails ended with ⟨catalog, tablePages, -, heap⟩
    refine ⟨tidy, keyed, ?_, ?_⟩
    · intro table schema name
      rw [catalog]
      exact hold.named
    · intro other schema pageIds index column
      have rows : (logical.execInsert table values).state.rowAt schema pageIds =
          logical.rowAt schema pageIds := by
        funext rid
        rw [rowAt, rowAt, heap]
      rw [catalog, tablePages]
      simp only [rows]
      exact hold.distinct
  · rcases hold.tidy.inserted bounded ended with ⟨schema, rowBytes, rid, inserted⟩
    have change := inserted.rowChange hold.tidy tidy
    refine ⟨tidy, keyed, ?_, ?_⟩
    · intro table schema name
      rw [change.catalog]
      exact hold.named
    · intro other otherSchema otherIds index column known listed keyColumn first second row row'
        value value' apart here there cell cell'
      by_cases ty : column.ty = .int
      · exact keyed.distinct_int tidy known listed keyColumn ty apart here there cell cell'
      · rw [change.catalog] at known
        by_cases same : other = table
        · subst same
          obtain rfl : schema = otherSchema := by simpa using change.known.symm.trans known
          rcases change.here listed with ⟨pageIds, listed', -, rows⟩
          -- the new row against a row that was there
          have fresh {old : Rid} {oldRow : Row} {oldValue newValue : Value}
              (isOld : logical.rowAt schema pageIds old = some oldRow)
              (oldCell : oldRow[index]? = some oldValue)
              (newCell : values[index]? = some newValue) : ¬oldValue.Same newValue := by
            rcases rowAt_eq_some.mp isOld with ⟨inside, tuple, live, decoded⟩
            exact respects schema pageIds index column newValue known listed' keyColumn ty newCell
              (old, tuple) (Heap.mem_live.mpr ⟨inside, live⟩) oldValue
              (by simp [Executor.cellOf, decoded, Except.toOption, oldCell])
          rw [rows] at here there
          by_cases isFirst : first = rid
          · subst isFirst
            rw [Function.update_self] at here
            rw [Function.update_of_ne (Ne.symm apart)] at there
            obtain rfl : values = row := by simpa using here
            exact fun equal => fresh there cell' cell equal.symm
          · rw [Function.update_of_ne isFirst] at here
            by_cases isSecond : second = rid
            · subst isSecond
              rw [Function.update_self] at there
              obtain rfl : values = row' := by simpa using there
              exact fresh here cell cell'
            · rw [Function.update_of_ne isSecond] at there
              exact hold.distinct known listed' keyColumn apart here there cell cell'
        · rcases change.others same listed with ⟨listed', rows⟩
          rw [rows] at here there
          exact hold.distinct known listed' keyColumn apart here there cell cell'

/-- However a statement ends that brings in no equal keys, the keys stay unique. -/
theorem KeysHold.execute [Build] (hold : KeysHold logical) (bounded : Bounded logical)
    (order : HashOrder) {stmt : Statement}
    (respects : RespectsKeys logical.catalog logical.tablePages logical.heap.live stmt) :
    KeysHold (logical.execute order stmt).state := by
  cases stmt with
  | createTable table columns =>
      rcases hold.keyed.execute hold.tidy bounded order (.createTable table columns) with
        ⟨tidy, keyed⟩
      simp only [Logical.execute, execCreateTable] at tidy keyed ⊢
      split_ifs at tidy keyed ⊢ with taken
      · exact ⟨tidy, keyed, hold.named, hold.distinct⟩
      · refine ⟨tidy, keyed, ?_, ?_⟩
        · intro other schema name known primary
          rw [get_addTable] at known
          split_ifs at known
          · obtain rfl : Schema.new table columns = schema := by simpa using known
            exact respects name primary
          · exact hold.named known primary
        · intro other schema pageIds index column known listed
          rw [get_addTable] at known
          rw [lookup_addTable] at listed
          split_ifs at known listed
          · obtain rfl : [] = pageIds := by simpa using listed
            intro _ rid other row row' value value' _ here
            simp [rowAt] at here
          · exact hold.distinct known listed
  | insert table values => exact hold.execInsert bounded respects
  | select table columns filter orderBy limit => exact hold
  | delete table filter =>
      rw [Logical.execute, execDelete]
      cases known : logical.catalog.get table with
      | none => exact hold
      | some schema =>
          cases listed : logical.tablePages.lookup table with
          | none => exact hold
          | some pageIds =>
              have traced : Traced table schema pageIds (fun _ _ _ => False) logical
                  (logical.transact (deleteStep table schema filter) pageIds).state :=
                .transact hold (fun _ => isLocal_deleteStep) listed
                  fun traced entry live => traced.deleteStep known listed entry live filter _
              refine hold.traced traced (traced.distinct hold.distinct known listed ?_)
              intro index column keyColumn _ rid other tuple tuple' row row' new new' apart live
                live'
                decoded decoded' made made' value value' cell cell'
              obtain rfl : new = row := made.resolve_right id
              obtain rfl : new' = row' := made'.resolve_right id
              exact Distinct.of_live hold.distinct known listed keyColumn apart live live' decoded
                decoded'
                cell cell'
  | update table assignments filter =>
      rw [Logical.execute, execUpdate]
      cases known : logical.catalog.get table with
      | none => exact hold
      | some schema =>
          cases listed : logical.tablePages.lookup table with
          | none => exact hold
          | some pageIds =>
              have traced : Traced table schema pageIds (Rewrites table schema assignments filter)
                  logical
                  (logical.transact (updateStep table schema assignments filter) pageIds).state :=
                .transact hold (fun _ => isLocal_updateStep) listed
                  fun traced entry live => traced.updateStep known listed entry live _
              refine hold.traced traced (traced.distinct hold.distinct known listed ?_)
              intro index column keyColumn ty rid other tuple tuple' row row' new new' apart live
                live'
                decoded decoded' made made' value value' cell cell'
              exact Distinct.rewritten hold.distinct respects known listed keyColumn ty apart live
                live'
                decoded decoded' made made' cell cell'

end KeysHold

end Logical

namespace Executor

section KeysUnique

variable [Crc32] {executor executor' : Executor} {logical : Logical}

/-- No two live rows of a table have equal primary keys, and no primary key is NULL. -/
def KeysUnique (executor : Executor) : Prop :=
  ∀ table schema pageIds, executor.catalog.get table = some schema →
    executor.tablePages.lookup table = some pageIds →
    (executor.keysOf schema pageIds).Pairwise (fun left right => ¬left.Same right) ∧
      Value.null ∉ executor.keysOf schema pageIds

theorem Rests.keysUnique (rests : Rests executor logical) (hold : logical.KeysHold) :
    executor.KeysUnique := by
  intro table schema pageIds known listed
  rw [rests.reflects.catalog_eq]
    at known
  rw [rests.reflects.tablePages_eq] at listed
  rw [keysOf, rests.reflects.entriesOf (hold.tidy.usable.present listed)]
  cases primary : schema.primaryKey with
  | none => simp [Schema.pkColIndex, primary]
  | some name =>
      rcases hold.named known primary with ⟨index, column, keyColumn⟩
      have read {entry : Rid × Bytes} {value : Value} (live : entry ∈ logical.heap.live pageIds)
          (cell : cellOf schema index entry.2 = some value) :
          ∃ row, logical.rowAt schema pageIds entry.1 = some row ∧ row[index]? = some value := by
        rcases Heap.mem_live.mp live with ⟨inside, isLive⟩
        rcases hold.tidy.rowAt_of_live known listed inside isLive with ⟨row, decoded, here⟩
        exact ⟨row, here, by simpa [cellOf, decoded, Except.toOption] using cell⟩
      have rids : (logical.heap.live pageIds).Pairwise fun left right => left.1 ≠ right.1 :=
        List.pairwise_map.mp (hold.tidy.nodup_live listed)
      rw [keyColumn.pkColIndex, Option.elim_some]
      refine ⟨?_, ?_⟩
      · rw [List.pairwise_filterMap]
        refine List.Pairwise.imp_of_mem ?_ rids
        intro left right leftLive rightLive apart value isLeft value' isRight
        rcases read leftLive isLeft with ⟨row, here, cell⟩
        rcases read rightLive isRight with ⟨row', there, cell'⟩
        exact hold.distinct known listed keyColumn apart here there cell cell'
      · intro isNull
        rcases List.mem_filterMap.mp isNull with ⟨entry, live, cell⟩
        rcases read live cell with ⟨row, here, isNull⟩
        exact hold.keyed.present known listed keyColumn here isNull

theorem Rests.respectsKeys (rests : Rests executor logical) (tidy : logical.Tidy) {stmt : Statement}
    (respects : RespectsKeys executor.catalog executor.tablePages executor.entriesOf stmt) :
    RespectsKeys logical.catalog logical.tablePages logical.heap.live stmt := by
  rw [rests.reflects.catalog_eq, rests.reflects.tablePages_eq] at respects
  have entries {table : String} {pageIds : List UInt32}
      (listed : logical.tablePages.lookup table = some pageIds) :
      executor.entriesOf pageIds = logical.heap.live pageIds :=
    rests.reflects.entriesOf (tidy.usable.present listed)
  cases stmt with
  | createTable table columns => exact respects
  | insert table values =>
      intro schema pageIds index column value known listed
      rw [← entries listed]
      exact respects schema pageIds index column value known listed
  | select table columns filter orderBy limit => trivial
  | delete table filter => trivial
  | update table assignments filter =>
      intro schema pageIds index column value known listed
      rw [← entries listed]
      exact respects schema pageIds index column value known listed

variable [Build] {order : HashOrder} {stmt : Statement}

/-- A statement returns `Ok`, or `Err` without having changed a row or because a row did not fit,
and it brings in no key that the code does not check. -/
def KeepsKeys : Admits := fun executor stmt result =>
  (IsSpared executor stmt result ∨ result = .error (.sql .updateLarger)) ∧
    RespectsKeys executor.catalog executor.tablePages executor.entriesOf stmt

/-- A statement that fails because a row did not fit. -/
theorem Rests.execute_larger (rests : Rests executor logical) (usable : logical.Usable)
    (run : execute order stmt executor = (.error (.sql .updateLarger), executor')) :
    Rests executor' (logical.execute order stmt).state ∨ Rests executor' logical ∨
      Rests executor' logical.beginTxn := by
  rcases execute_ends rests usable order stmt with ends | ⟨-, -, rests', -⟩
  · rw [run] at ends
    generalize logical.execute order stmt = ended at ends ⊢
    rcases ended with ⟨expected | rows, changed, logical'⟩
    · exact .inl (ends.2.1 (.inr rfl))
    · exact ends.elim
  · rw [run] at rests'
    exact .inr rests'

theorem Session.keysHold {stmts : List Statement} (session : Session KeepsKeys stmts executor) :
    ∃ logical, Rests executor logical ∧ logical.KeysHold := by
  induction session with
  | @start order _ _ run =>
      rcases start_empty order with ⟨info, executor, same, rests, -⟩
      obtain ⟨-, rfl⟩ := Prod.mk.inj (same.symm.trans run)
      exact ⟨_, rests, Logical.keysHold_initial order⟩
  | @execute order stmts stmt result executor executor' before run admitted ih =>
      rcases ih with ⟨logical, rests, hold⟩
      rcases admitted with ⟨ended, respects⟩
      have usable := hold.tidy.usable
      have hold' : (logical.execute order stmt).state.KeysHold :=
        hold.execute rests.bounded order (rests.respectsKeys hold.tidy respects)
      rcases result with failure | rows
      · rcases ended with (ok | ⟨returned, spares⟩) | larger
        · simp [Except.isOk, Except.toBool] at ok
        · rcases rests.execute_error usable run (by simpa [Returns] using returned) spares with
            ⟨-, -, rests', -⟩ | ⟨-, rests' | rests', -⟩
          · exact ⟨_, rests', hold'⟩
          · exact ⟨_, rests', hold⟩
          · exact ⟨_, rests', hold.beginTxn⟩
        · obtain rfl : failure = .sql .updateLarger := by simpa using larger
          rcases rests.execute_larger usable run with rests' | rests' | rests'
          · exact ⟨_, rests', hold'⟩
          · exact ⟨_, rests', hold⟩
          · exact ⟨_, rests', hold.beginTxn⟩
      · rcases rests.execute_ok usable run with ⟨-, rests', -⟩
        exact ⟨_, rests', hold'⟩

/-- In a session of statements that bring in no key that the code does not check, primary keys are
unique and not NULL. -/
theorem session_keysUnique {stmts : List Statement} (session : Session KeepsKeys stmts executor) :
    executor.KeysUnique := by
  rcases session.keysHold with ⟨logical, rests, hold⟩
  exact rests.keysUnique hold

end KeysUnique

end Executor

namespace Sample

attribute [local instance] Crc32.ieee Build.debug

open Executor

/-- Two rows and their keys. -/
theorem primaryKey_indexed_insertedTwo :
    ∃ (executor : Executor) (schema : Schema) (column : ColumnDef),
      Reachable Succeeds executor ∧ executor.catalog.get "t" = some schema ∧
      (schema.columns.map ColumnDef.name).Nodup ∧ schema.columns[0]? = some column ∧
      schema.primaryKey = some column.name ∧ column.ty = .int ∧
      ∃ pageIds tree content, executor.tablePages.lookup "t" = some pageIds ∧
        executor.indexManager.indexes.lookup ("t", column.name) = some tree ∧
        tree.Denotes content ∧
        (content.map fun entry => (entry.2, some (Value.int entry.1))).Perm
          ((executor.entriesOf pageIds).map fun entry => (entry.1, cellOf schema 0 entry.2)) ∧
        ((executor.entriesOf pageIds).map fun entry => cellOf schema 0 entry.2).Nodup := by
  rcases attains_insertedTwo with ⟨executor, session, rests, follows, idle⟩
  have known : executor.catalog.get "t" =
      some (Schema.new "t" [⟨"id", .int, true⟩, ⟨"a", .int, false⟩]) := by
    rw [rests.reflects.catalog_eq]
    rfl
  exact ⟨executor, _, ⟨"id", .int, true⟩, session.reachable, known, by decide, rfl, rfl, rfl,
    primaryKey_indexed session.reachable known (by decide) rfl rfl rfl⟩

/-- `CREATE TABLE t (name TEXT PRIMARY KEY)` -/
def createNames : Statement := .createTable "t" [⟨"name", .text, true⟩]

/-- `INSERT INTO t VALUES ('a')` -/
def insertName : Statement := .insert "t" [.text "a"]

def names : Logical := (opened.execute .ofInsertion createNames).state

def namedOnce : Logical := (names.execute .ofInsertion insertName).state

def namedTwice : Logical := (namedOnce.execute .ofInsertion insertName).state

theorem attains_namedOnce : Attains [createNames, insertName] namedOnce := by
  have started : Attains [] opened := attains_start .ofInsertion
  have first := started.execute .ofInsertion createNames ⟨by decide, by decide⟩ rfl
  exact first.execute .ofInsertion insertName ⟨by decide, by decide⟩ rfl

/-- A text key can be inserted twice. -/
theorem text_key_twice :
    ∃ executor : Executor, Session Succeeds [createNames, insertName, insertName] executor ∧
      ¬executor.KeysUnique := by
  rcases attains_namedOnce.execute .ofInsertion insertName ⟨by decide, by decide⟩ rfl with
    ⟨executor, session, rests, follows, -⟩
  refine ⟨executor, session, fun unique => ?_⟩
  have known : executor.catalog.get "t" = some (Schema.new "t" [⟨"name", .text, true⟩]) := by
    rw [rests.reflects.catalog_eq]
    rfl
  have listed : executor.tablePages.lookup "t" = some [0] := by
    rw [rests.reflects.tablePages_eq]
    rfl
  have apart := (unique "t" _ [0] known listed).1
  have present : ∀ pageId ∈ [0], (namedTwice.heap pageId).isSome :=
    (follows.sound .inl).usable.present (show namedTwice.tablePages.lookup "t" = some [0] from rfl)
  have keys : executor.keysOf (Schema.new "t" [⟨"name", .text, true⟩]) [0] =
      [.text "a", .text "a"] := by
    rw [keysOf, rests.reflects.entriesOf present]
    rfl
  rw [keys] at apart
  exact absurd apart (by simp [Value.Same, Value.partialCmp])

/-- A session that keeps its keys. -/
theorem session_keysUnique_names :
    ∃ executor : Executor, Session KeepsKeys [createNames, insertName] executor ∧
      executor.keysOf (Schema.new "t" [⟨"name", .text, true⟩]) [0] = [.text "a"] ∧
      executor.KeysUnique := by
  rcases start_empty .ofInsertion with ⟨info, empty, start, rests, idle⟩
  have sound : Logical.Sound none opened :=
    Logical.sound_initial.restart .ofInsertion (by simp [Logical.initial, Heap.empty])
  rcases rests.execute_done sound.usable ⟨by decide, by decide⟩ idle.ready
    (show (opened.execute .ofInsertion createNames).result = .ok [] from rfl) with ⟨created, run⟩
  rcases rests.execute_ok sound.usable run with ⟨-, rests', advances⟩
  have sound' : Logical.Sound none names :=
    sound.execute rests.bounded .ofInsertion createNames (.inl ⟨[], rfl⟩)
  have keyColumn : (Schema.new "t" [⟨"name", .text, true⟩]).KeyColumn 0 ⟨"name", .text, true⟩ :=
    keyColumn_of_nodup (by decide) rfl rfl
  have first : Session KeepsKeys [createNames] created :=
    Session.execute (.start start) run ⟨.inl (.inl rfl), fun _ _ => ⟨0, _, keyColumn⟩⟩
  rcases rests'.execute_done sound'.usable ⟨by decide, by decide⟩ (advances.ready idle.ready)
    (show (names.execute .ofInsertion insertName).result = .ok [] from rfl) with ⟨inserted, run'⟩
  rcases rests'.execute_ok sound'.usable run' with ⟨-, rests'', -⟩
  have sound'' : Logical.Sound none namedOnce :=
    sound'.execute rests'.bounded .ofInsertion insertName (.inl ⟨[], rfl⟩)
  have second : Session KeepsKeys [createNames, insertName] inserted := by
    refine first.execute run' ⟨.inl (.inl rfl), ?_⟩
    -- the table has no page yet
    intro schema pageIds index column value known listed keyColumn ty cell entry inside
    rw [rests'.reflects.tablePages_eq] at listed
    obtain rfl : [] = pageIds := Option.some.inj listed
    simp [entriesOf] at inside
  have present : ∀ pageId ∈ [0], (namedOnce.heap pageId).isSome :=
    sound''.usable.present (show namedOnce.tablePages.lookup "t" = some [0] from rfl)
  refine ⟨inserted, second, ?_, session_keysUnique second⟩
  rw [keysOf, rests''.reflects.entriesOf present]
  rfl

end Sample

end VenomDb
