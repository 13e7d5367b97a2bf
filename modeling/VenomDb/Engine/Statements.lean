import VenomDb.Engine.Scan

/-!
# Statements refine logical statements

The bodies of `SELECT`, `DELETE` and `UPDATE` do what their steps say.
-/

namespace VenomDb

namespace Logical

variable {table : String} {schema : Schema} {columns : SelectColumns} {filter : Option Expr}
  {assignments : List Assignment} {txnId : UInt32}

theorem isLocal_selectStep : IsLocal (selectStep schema columns filter) := by
  intro rid tuple results logical
  rw [selectStep, Fallible.bind_apply, Fallible.ofExcept_apply]
  cases Executor.selectRow schema columns filter tuple <;> exact .refl _ _

theorem touches_deleteRow (rid : Rid) (row : Row) (logical : Logical) :
    Heap.Touches rid logical.heap (logical.deleteRow table schema txnId rid row).heap :=
  Heap.touches_update _ rid (fun page => page.length_deleteTuple _)
    fun page _ ne => page.get_deleteTuple_of_ne _ ne

theorem touches_updateRow (rid : Rid) (oldBytes newBytes : Bytes) (oldRow row : Row)
    (logical : Logical) :
    Heap.Touches rid logical.heap
      (logical.updateRow table schema txnId rid oldBytes newBytes oldRow row).heap :=
  Heap.touches_update _ rid (fun page => page.length_overwrite _ _)
    fun page _ ne => page.get_overwrite_of_ne _ ne _

/-- What `DELETE` can do on one tuple. -/
theorem deleteStep_cases (table : String) (schema : Schema) (filter : Option Expr) (txnId : UInt32)
    (rid : Rid) (tuple : Bytes) (logical : Logical) :
    (∃ failure, Executor.selectRow schema .star filter tuple = .error failure ∧
      deleteStep table schema filter txnId rid tuple () logical = (.error failure, logical)) ∨
    (Executor.selectRow schema .star filter tuple = .ok none ∧
      deleteStep table schema filter txnId rid tuple () logical = (.ok (false, ()), logical)) ∨
    ∃ row, Executor.selectRow schema .star filter tuple = .ok (some row) ∧
      deleteStep table schema filter txnId rid tuple () logical =
        (.ok (true, ()), logical.deleteRow table schema txnId rid row) := by
  unfold deleteStep
  rcases Executor.selectRow schema .star filter tuple with failure | _ | row
  · exact .inl ⟨failure, rfl, rfl⟩
  · exact .inr (.inl ⟨rfl, rfl⟩)
  · exact .inr (.inr ⟨row, rfl, rfl⟩)

theorem isLocal_deleteStep : IsLocal (deleteStep table schema filter txnId) := by
  intro rid tuple result logical
  rcases deleteStep_cases table schema filter txnId rid tuple logical with
    ⟨failure, -, run⟩ | ⟨-, run⟩ | ⟨row, -, run⟩
  · exact run ▸ .refl _ _
  · exact run ▸ .refl _ _
  · exact run ▸ touches_deleteRow rid row logical

/-- What `UPDATE` can do on one tuple. -/
theorem updateStep_cases (table : String) (schema : Schema) (assignments : List Assignment)
    (filter : Option Expr) (txnId : UInt32) (rid : Rid) (oldBytes : Bytes) (logical : Logical) :
    (∃ failure, updateStep table schema assignments filter txnId rid oldBytes () logical =
        (.error failure, logical) ∧
      (Executor.selectRow schema .star filter oldBytes = .error failure ∨
        ∃ oldRow, Executor.selectRow schema .star filter oldBytes = .ok (some oldRow) ∧
          Executor.rewriteRow schema logical.indexManager table assignments oldRow =
            .error failure)) ∨
    (Executor.selectRow schema .star filter oldBytes = .ok none ∧
      updateStep table schema assignments filter txnId rid oldBytes () logical =
        (.ok (false, ()), logical)) ∨
    ∃ oldRow row newBytes, Executor.selectRow schema .star filter oldBytes = .ok (some oldRow) ∧
      Executor.rewriteRow schema logical.indexManager table assignments oldRow =
        .ok (row, newBytes) ∧
      ((newBytes.length ≤ oldBytes.length ∧
        updateStep table schema assignments filter txnId rid oldBytes () logical =
          (.ok (true, ()), logical.updateRow table schema txnId rid oldBytes newBytes oldRow row)) ∨
      (oldBytes.length < newBytes.length ∧
        updateStep table schema assignments filter txnId rid oldBytes () logical =
          (.error (.sql .updateLarger), logical.refuseRow txnId rid oldBytes newBytes))) := by
  unfold updateStep
  rcases selected : Executor.selectRow schema .star filter oldBytes with failure | _ | oldRow
  · exact .inl ⟨failure, rfl, .inl rfl⟩
  · exact .inr (.inl ⟨rfl, rfl⟩)
  · rcases rewritten : Executor.rewriteRow schema logical.indexManager table assignments oldRow with
      failure | ⟨row, newBytes⟩
    · exact .inl ⟨failure, by simp [Fallible.bind_apply, rewritten], .inr ⟨oldRow, rfl, rewritten⟩⟩
    · refine .inr (.inr ⟨oldRow, row, newBytes, rfl, rewritten, ?_⟩)
      by_cases fits : newBytes.length ≤ oldBytes.length
      · exact .inl ⟨fits, by simp [Fallible.bind_apply, rewritten, fits]⟩
      · exact .inr ⟨by omega, by simp [Fallible.bind_apply, rewritten, fits]⟩

theorem isLocal_updateStep : IsLocal (updateStep table schema assignments filter txnId) := by
  intro rid oldBytes result logical
  rcases updateStep_cases table schema assignments filter txnId rid oldBytes logical with
    ⟨failure, run, -⟩ | ⟨-, run⟩ | ⟨oldRow, row, newBytes, -, -, ⟨-, run⟩ | ⟨-, run⟩⟩
  · exact run ▸ .refl _ _
  · exact run ▸ .refl _ _
  · exact run ▸ touches_updateRow rid oldBytes newBytes oldRow row logical
  · exact run ▸ .refl _ _

end Logical

namespace Executor

/-- Decoding a tuple and checking the filter on it, as `DELETE` and `UPDATE` do. -/
theorem ofExcept_selectRow {α : Type} (schema : Schema) (filter : Option Expr) (tuple : Bytes)
    (skip : Action α) (hit : Row → Action α) :
    (do
      let row ← Fallible.ofExcept (schema.deserializeRow tuple)
      if ← Fallible.ofExcept (selects schema filter row) then hit row else skip) =
    (do
      match ← Fallible.ofExcept (selectRow schema .star filter tuple) with
      | none => skip
      | some row => hit row) := by
  funext executor
  simp only [Fallible.ofExcept_apply, selectRow, bind, Except.bind]
  rcases schema.deserializeRow tuple with _ | row
  · rfl
  · dsimp only
    rcases selects schema filter row with _ | _ | _ <;> rfl

variable [Crc32] {table : String} {schema : Schema} {columns : SelectColumns}
  {filter : Option Expr} {assignments : List Assignment} {txnId : UInt32}
  {executor : Executor} {logical : Logical} {frameId : FrameId} {pageId : UInt32} {dirty : Bool}

/-- A body that fails before it does anything. -/
theorem Using.bodyEnds_error {α : Type} (inUse : Using executor logical frameId pageId dirty)
    {failure : Failure} (other : failure ≠ .sql .updateLarger) :
    BodyEnds executor frameId pageId dirty
      ((.error failure : Except Failure (Bool × α)), executor) (.error failure, logical) := by
  refine ⟨rfl, ?_, .refl _ _, inUse.reflects.core⟩
  rintro (rfl | same)
  · exact inUse.reflects
  · exact absurd same other

/-- A body that does nothing. -/
theorem Using.bodyEnds_ok {α : Type} (inUse : Using executor logical frameId pageId dirty)
    (result : α) :
    BodyEnds executor frameId pageId dirty (.ok (false, result), executor)
      (.ok (false, result), logical) :=
  ⟨rfl, by simpa using inUse, .refl _ _⟩

theorem select_refines (schema : Schema) (columns : SelectColumns) (filter : Option Expr) :
    BodyRefines (fun _ _ _ _ tuple results => do
    let row ← Fallible.ofExcept (selectRow schema columns filter tuple)
    return (false, results ++ row.toList)) (Logical.selectStep schema columns filter) where
  isLocal := Logical.isLocal_selectStep
  ends := by
    intro executor logical frameId pageId slotId dirty tuple results inUse _
    simp only [Logical.selectStep, Fallible.bind_apply, Fallible.ofExcept_apply]
    rcases selected : selectRow schema columns filter tuple with failure | row
    · exact inUse.bodyEnds_error ((avoids_selectRow _ _ _ _).ne selected)
    · exact inUse.bodyEnds_ok _

/-- Index maintenance while a frame is held. -/
theorem Using.maintain (inUse : Using executor logical frameId pageId dirty) (table : String)
    (rid : Rid) (cells : List (String × Option Int64 × Option Int64)) :
    ∃ executor', modifyIndexes (IndexManager.maintain table rid cells) executor =
        (.ok (), executor') ∧
      Using executor' (logical.maintain table rid cells) frameId pageId dirty ∧
      executor'.bufferPool = executor.bufferPool := by
  refine ⟨_, rfl, inUse.of_reflects rfl ?_, rfl⟩
  refine inUse.reflects.of_core ?_ rfl rfl rfl rfl
  rw [show (logical.maintain table rid cells).toCore = { logical.toCore with
    indexManager := logical.toCore.indexManager.maintain table rid cells } from rfl,
    ← inUse.reflects.core]
  rfl

theorem delete_refines (table : String) (schema : Schema) (filter : Option Expr) (txnId : UInt32) :
    BodyRefines (deleteBody table schema filter txnId)
      (Logical.deleteStep table schema filter txnId) where
  isLocal := Logical.isLocal_deleteStep
  ends := by
    rintro executor logical frameId pageId slotId dirty tuple ⟨⟩ inUse live
    unfold deleteBody Logical.deleteStep
    rw [ofExcept_selectRow]
    simp only [Fallible.bind_apply, Fallible.ofExcept_apply]
    rcases selected : selectRow schema .star filter tuple with failure | _ | row
    · exact inUse.bodyEnds_error ((avoids_selectRow _ _ _ _).ne selected)
    · exact inUse.bodyEnds_ok ()
    · rcases Heap.exists_page_of_get live with ⟨page, found, -⟩
      rcases inUse.reflects.logDelete txnId pageId slotId with
        ⟨deleted, logged, log, reflects, pool⟩
      rcases (inUse.of_reflects pool reflects).onPage false found
        (fun concrete represents => by
          rcases represents.deleteTuple_eq slotId with ⟨concrete', id, represents', run, -⟩
          exact ⟨concrete', id, represents', run⟩) with ⟨buried, bury, inUse', advances⟩
      rcases inUse'.maintain table ⟨pageId, slotId⟩ (indexCells schema (some row) none) with
        ⟨executor', maintained, inUse'', pool'⟩
      dsimp only
      rw [Fallible.bind_ok log, Fallible.bind_ok bury, Fallible.bind_ok maintained]
      refine ⟨rfl, ?_, ?_⟩
      · have found' : (logical.logDelete txnId ⟨pageId, slotId⟩).heap pageId = some page := found
        rw [Logical.deleteRow, Heap.update_of_some found']
        simpa using inUse''
      · exact ((Advances.of_pool pool).trans advances).trans (Advances.of_pool pool')

theorem update_refines (table : String) (schema : Schema) (assignments : List Assignment)
    (filter : Option Expr) (txnId : UInt32) :
    BodyRefines (updateBody table schema assignments filter txnId)
      (Logical.updateStep table schema assignments filter txnId) where
  isLocal := Logical.isLocal_updateStep
  ends := by
    rintro executor logical frameId pageId slotId dirty oldBytes ⟨⟩ inUse live
    unfold updateBody
    rw [ofExcept_selectRow]
    have indexes : executor.indexManager = logical.indexManager := inUse.reflects.indexManager_eq
    rcases Logical.updateStep_cases table schema assignments filter txnId ⟨pageId, slotId⟩ oldBytes
      logical with
      ⟨failure, run, selected | ⟨oldRow, selected, rewritten⟩⟩ | ⟨selected, run⟩ |
        ⟨oldRow, row, newBytes, selected, rewritten, fits⟩
    · simpa [run, selected] using inUse.bodyEnds_error ((avoids_selectRow _ _ _ _).ne selected)
    · simpa [run, selected, indexes, rewritten] using
        inUse.bodyEnds_error ((avoids_rewriteRow _ _ _ _ _).ne rewritten)
    · simpa [run, selected] using inUse.bodyEnds_ok ()
    · rcases Heap.exists_page_of_get live with ⟨page, found, here⟩
      have outcome := SlottedPage.updateTuple_of_get here newBytes
      rcases inUse.reflects.logUpdate txnId pageId slotId oldBytes newBytes with
        ⟨logged, log, reflects, pool⟩
      have inUse' := inUse.of_reflects pool reflects
      have found' : (logical.logUpdate txnId ⟨pageId, slotId⟩ oldBytes newBytes).heap pageId =
        some page := found
      rw [selected, Fallible.ofExcept_ok_bind]
      simp only [Fallible.get_bind, indexes, rewritten, Fallible.ofExcept_ok_bind]
      rw [Fallible.bind_ok log]
      rcases fits with ⟨fits, run⟩ | ⟨larger, run⟩
      · rw [if_pos fits] at outcome
        rcases inUse'.onPage false found' (fun concrete represents => by
          rcases represents.updateTuple_eq slotId newBytes with ⟨concrete', id, represents', run, -⟩
          rw [outcome] at represents' run
          exact ⟨concrete', id, represents', run⟩) with ⟨rewrittenPage, rewrite, inUse'', advances⟩
        rcases inUse''.maintain table ⟨pageId, slotId⟩
          (indexCells schema (some oldRow) (some row)) with
          ⟨executor', maintained, inUse''', pool'⟩
        rw [Fallible.bind_ok rewrite, if_pos rfl, Fallible.bind_ok maintained, run]
        refine ⟨rfl, ?_, ?_⟩
        · rw [Logical.updateRow, Heap.update_of_some found']
          simpa using inUse'''
        · exact ((Advances.of_pool pool).trans advances).trans (Advances.of_pool pool')
      · rw [if_neg (by omega)] at outcome
        have refuse : onPage frameId false (fun page => page.updateTuple slotId newBytes) logged =
            (.ok false, record logged) :=
              inUse'.onPage_refused false found' fun concrete represents => by
          rcases represents.updateTuple_eq slotId newBytes with ⟨concrete', -, -, run, same⟩
          rw [outcome] at run same
          rw [run, same rfl]
        rcases inUse'.recorded.unpin dirty (by simp) with ⟨unpinned, unpin, reflects', released⟩
        rcases reflects'.abort txnId with ⟨executor', abort, reflects'', pool'⟩
        rw [Fallible.bind_ok refuse, if_neg (by simp), Fallible.bind_ok unpin,
          Fallible.bind_ok abort,
          run]
        refine ⟨rfl, fun _ => reflects'', ?_, reflects''.core⟩
        have start : Advances executor logged.record none := .of_pool pool
        exact (start.trans released.advances).trans (Advances.of_pool pool')

end Executor

/-- What statements rely on: tables list pages that are there, each once, and the log manager's
copy of a page has tuples of the same lengths. -/
structure Logical.Usable (logical : Logical) : Prop where
  nodup : ∀ {table pageIds}, logical.tablePages.lookup table = some pageIds → pageIds.Nodup
  present : ∀ {table pageIds}, logical.tablePages.lookup table = some pageIds →
    ∀ pageId ∈ pageIds, (logical.heap pageId).isSome
  shaped : ∀ {pageId page}, logical.heap pageId = some page →
    ∃ copy, logical.shadow pageId = some copy ∧ copy.lengths = page.lengths
  unallocated : ∀ {pageId}, logical.numPages ≤ pageId.toNat → logical.shadow pageId = none

/-- The page that first fit chooses has room, and so has the log manager's copy of it. -/
theorem Logical.Usable.room {logical : Logical} {pageId : UInt32} {page : SlottedPage}
    {rowBytes : Bytes} (usable : logical.Usable) (found : logical.heap pageId = some page)
    (enough : rowBytes.length + 5 ≤ page.freeSpace) :
    page.HasRoom rowBytes.length ∧
      ((logical.shadow pageId).getD .empty).HasRoom rowBytes.length := by
  have room := page.hasRoom_of_freeSpace enough
  rcases usable.shaped found with ⟨copy, shadow, lengths⟩
  rw [shadow, Option.getD_some]
  exact ⟨room, page.hasRoom_of_lengths lengths room⟩

namespace Executor

section Tables

variable {executor : Executor} {table : String}

theorem schemaOf_of_known {schema : Schema} (known : executor.catalog.get table = some schema) :
    schemaOf table executor = (.ok schema, executor) := by
  simp [schemaOf, known]

theorem schemaOf_of_unknown (unknown : executor.catalog.get table = none) :
    schemaOf table executor = (.error (.sql (.tableNotFound table)), executor) := by
  simp [schemaOf, unknown]

theorem pagesOf_of_listed {pageIds : List UInt32}
    (listed : executor.tablePages.lookup table = some pageIds) :
    pagesOf table executor = (.ok pageIds, executor) := by
  simp [pagesOf, listed]

theorem pagesOf_of_unlisted (unlisted : executor.tablePages.lookup table = none) :
    pagesOf table executor = (.error (.sql (.tableMetaNotFound table)), executor) := by
  simp [pagesOf, unlisted]

end Tables

variable [Crc32]

/-- The executor between two statements: every page of the heap is in the data file. -/
structure Rests (executor : Executor) (logical : Logical) : Prop where
  reflects : Reflects executor logical none
  stored : ∀ {pageId}, (logical.heap pageId).isSome → executor.Stored pageId

/-- A counter that panics on overflow is at its end: of transactions, of pages or of pins. -/
def Exhausted (executor : Executor) : Prop :=
  ¬executor.wal.nextTxnId.toNat + 1 < 2 ^ 32 ∨
    ¬executor.bufferPool.disk.numPages.toNat + 1 < 2 ^ 32 ∨ executor.Overpinned

/-- How a statement ends. A row of 65536 bytes or more may panic instead of being refused. Nothing
is said about the state after a panic, nor about the pages after a statement that failed when it
had already changed a tuple, unless a row did not fit. -/
def StatementEnds (executor : Executor) :
    Except Failure (List Row) × Executor → ScanEnd (List Row) → Prop
  | (.error (.panic panic), _), ended =>
      ended.result = .error (.panic panic) ∨
        ended.result = .error (.sql (.walInsertNewPage .pageFull)) ∨ executor.Exhausted
  | (.ok rows, executor'), ⟨.ok expected, _, logical'⟩ =>
      rows = expected ∧ Rests executor' logical' ∧ Advances executor executor' none
  | (.error failure, executor'), ⟨.error expected, changed, logical'⟩ =>
      failure = expected ∧
        (changed = false ∨ failure = .sql .updateLarger → Rests executor' logical') ∧
        ∃ frameId, Advances executor executor' (some frameId)
  | _, _ => False

/-- A statement that fails because no frame is available. At most its transaction has begun. -/
def OutOfFrames (executor : Executor) (logical : Logical)
    (ended : Except Failure (List Row) × Executor) : Prop :=
  (∃ failure, ended.1 = .error (.sql failure)) ∧ (∀ frameId, ¬executor.Available frameId) ∧
    (Rests ended.2 logical ∨ Rests ended.2 logical.beginTxn) ∧ Advances executor ended.2 none

section Tables

variable {executor : Executor} {logical : Logical} {table : String}

theorem Reflects.schemaOf_some {schema : Schema} (reflects : Reflects executor logical none)
    (known : logical.catalog.get table = some schema) :
    schemaOf table executor = (.ok schema, executor) := by
  have catalog : executor.catalog = logical.catalog := reflects.catalog_eq
  exact schemaOf_of_known (catalog ▸ known)

theorem Reflects.schemaOf_none (reflects : Reflects executor logical none)
    (unknown : logical.catalog.get table = none) :
    schemaOf table executor = (.error (.sql (.tableNotFound table)), executor) := by
  have catalog : executor.catalog = logical.catalog := reflects.catalog_eq
  exact schemaOf_of_unknown (catalog ▸ unknown)

theorem Reflects.pagesOf_some {pageIds : List UInt32} (reflects : Reflects executor logical none)
    (listed : logical.tablePages.lookup table = some pageIds) :
    pagesOf table executor = (.ok pageIds, executor) := by
  have tablePages : executor.tablePages = logical.tablePages := reflects.tablePages_eq
  exact pagesOf_of_listed (tablePages ▸ listed)

theorem Reflects.pagesOf_none (reflects : Reflects executor logical none)
    (unlisted : logical.tablePages.lookup table = none) :
    pagesOf table executor = (.error (.sql (.tableMetaNotFound table)), executor) := by
  have tablePages : executor.tablePages = logical.tablePages := reflects.tablePages_eq
  exact pagesOf_of_unlisted (tablePages ▸ unlisted)

end Tables

section Select

variable {executor : Executor} {logical : Logical} {schema : Schema} {columns : SelectColumns}
  {filter : Option Expr}

omit [Crc32] in
@[simp]
theorem selectRows_nil : Logical.selectRows schema columns filter [] = .ok [] := rfl

omit [Crc32] in
theorem selectRows_cons (tuple : Bytes) (tuples : List Bytes) :
    Logical.selectRows schema columns filter (tuple :: tuples) =
      (selectRow schema columns filter tuple).bind fun row =>
        (Logical.selectRows schema columns filter tuples).map (row.toList ++ ·) := by
  rw [Logical.selectRows, List.mapM_cons, Logical.selectRows]
  rcases selectRow schema columns filter tuple with failure | row
  · rfl
  · rcases tuples.mapM (selectRow schema columns filter) with failure | rows
    · rfl
    · cases row <;> rfl

omit [Crc32] in
theorem scan_selectStep (entries : List (Rid × Bytes)) (results : List Row) (logical : Logical) :
    logical.scan (Logical.selectStep schema columns filter) entries results =
      ⟨(Logical.selectRows schema columns filter (entries.map Prod.snd)).map (results ++ ·), false,
        logical⟩ := by
  induction entries generalizing results with
  | nil => simp [Logical.scan, Except.map]
  | cons entry entries ih =>
      rcases entry with ⟨rid, tuple⟩
      rw [Logical.scan, List.map_cons, selectRows_cons, Logical.selectStep]
      rcases selectRow schema columns filter tuple with failure | row
      · rfl
      · simp only [Fallible.ofExcept_ok_bind, Fallible.pure_apply, ih, ScanEnd.after, Except.bind]
        rcases Logical.selectRows schema columns filter (entries.map Prod.snd) with failure | rows
        · rfl
        · simp [Except.map]

/-- How `SELECT` ends: nothing changes but the frames. -/
def SelectEnds {α : Type} (executor : Executor) (logical : Logical) (expected : Except Failure α)
    (ended : Except Failure α × Executor) : Prop :=
  ended.1 = expected ∧ Reflects ended.2 logical none ∧
    ∃ frameId, Advances executor ended.2 (if expected.isOk then none else some frameId)

theorem SelectEnds.after {α : Type} {executor' : Executor} {expected : Except Failure α}
    {ended : Except Failure α × Executor} (ends : SelectEnds executor' logical expected ended)
    (advances : Advances executor executor' none) : SelectEnds executor logical expected ended := by
  rcases ends with ⟨same, reflects, frameId, rest⟩
  refine ⟨same, reflects, frameId, ?_⟩
  exact advances.andThen rest

/-- A computation on the rows after they are found. -/
theorem SelectEnds.bind {α β : Type} {action : Action α} {expected : Except Failure α}
    (ends : SelectEnds executor logical expected (action executor)) (next : α → Except Failure β) :
    SelectEnds executor logical (expected.bind next)
      ((action >>= fun value => Fallible.ofExcept (next value)) executor) := by
  rw [Fallible.bind_apply]
  generalize action executor = ended at ends ⊢
  rcases ended with ⟨failure | value, executor'⟩ <;> rcases ends with
    ⟨rfl, reflects, frameId, advances⟩
  · exact ⟨rfl, reflects, frameId, advances⟩
  · exact ⟨rfl, reflects, frameId, advances.weaken _⟩

theorem NoFrame.bind {α β : Type} {action : Action α} {next : α → Action β}
    (noFrame : NoFrame executor logical (action executor)) :
    NoFrame executor logical ((action >>= next) executor) := by
  rcases noFrame.failed with ⟨failure, failed⟩
  rw [Fallible.bind_error (Prod.ext failed rfl)]
  exact ⟨⟨failure, rfl⟩, noFrame.full, noFrame.reflects, noFrame.advances⟩

theorem seqScan_ends (schema : Schema) (columns : SelectColumns) (filter : Option Expr)
    (reflects : Reflects executor logical none) {pageIds : List UInt32}
    (nodup : pageIds.Nodup) (present : ∀ pageId ∈ pageIds, (logical.heap pageId).isSome) :
    SelectEnds executor logical (Logical.selectRows schema columns filter (logical.tuples pageIds))
      (seqScan schema columns filter pageIds executor) ∨
    NoFrame executor logical (seqScan schema columns filter pageIds executor) ∨
    Overpins executor (seqScan schema columns filter pageIds executor) := by
  rcases scanPages_refines (select_refines schema columns filter) nodup reflects present [] with
    ends | noFrame | overpins
  · left
    rw [scan_selectStep] at ends
    rw [seqScan, Fallible.bind_apply]
    generalize scanPages _ pageIds [] executor = concrete at ends ⊢
    rw [← Logical.tuples] at ends
    generalize Logical.selectRows schema columns filter (logical.tuples pageIds) =
      expected at ends ⊢
    rcases concrete with ⟨failure | ⟨dirtyPages, rows⟩, executor'⟩ <;>
      rcases expected with failure' | expected
    · rcases ends with ⟨rfl, reflects', advances, -⟩
      exact ⟨rfl, reflects' (.inl rfl), advances⟩
    · exact ends.elim
    · exact ends.elim
    · rcases ends with ⟨rfl, -, reflects', advances⟩
      exact ⟨by simp, reflects', ⟨0, by decide⟩, advances⟩
  · exact .inr (.inl noFrame.bind)
  · exact .inr (.inr overpins.bind)

theorem selectRids_ends (schema : Schema) (columns : SelectColumns) (expr : Expr)
    (reflects : Reflects executor logical none)
    {pageIds : List UInt32} (present : ∀ pageId ∈ pageIds, (logical.heap pageId).isSome)
    (rids : List Rid) (results : List Row) :
    SelectEnds executor logical
      ((Logical.selectRows schema columns (some expr) (logical.pointedAt pageIds rids)).map
        (results ++ ·))
      (selectRids schema columns expr pageIds rids results executor) ∨
    NoFrame executor logical (selectRids schema columns expr pageIds rids results executor) ∨
    Overpins executor (selectRids schema columns expr pageIds rids results executor) := by
  induction rids generalizing executor results with
  | nil => exact .inl ⟨by simp [Logical.pointedAt, selectRids, Except.map], reflects,
      ⟨0, by decide⟩,
      .refl _ _⟩
  | cons rid rids ih =>
      by_cases listed : rid.pageId ∈ pageIds
      · rcases Option.isSome_iff_exists.mp (present _ listed) with ⟨page, found⟩
        rw [selectRids, if_pos listed]
        rcases reflects.fetchPage found with
          ⟨frameId, fetched, run, inUse, advances⟩ | ⟨executor', run, reflects', advances, full⟩ |
          ⟨run, overpinned⟩
        · rcases inUse.unpin false (by simp) with
            ⟨unpinned, release, reflects', released⟩
          have step := advances.release released
          rw [Fallible.bind_ok run, Fallible.bind_ok (inUse.getTuple found rid.slotId),
            Fallible.bind_ok release]
          -- a frame is available again, so the rest of the loop finds one
          have continues (results : List Row) :
              SelectEnds unpinned logical ((Logical.selectRows schema columns (some expr)
                (logical.pointedAt pageIds rids)).map (results ++ ·))
                (selectRids schema columns expr pageIds rids results unpinned) ∨
              Overpins executor (selectRids schema columns expr pageIds rids results unpinned) := by
            rcases ih reflects' results with ends | noFrame | overpins
            · exact .inl ends
            · exact absurd released.available (noFrame.full frameId)
            · exact .inr (overpins.after step)
          cases live : logical.heap.get rid with
          | none =>
              rw [show logical.pointedAt pageIds (rid :: rids) = logical.pointedAt pageIds rids by
                simp [Logical.pointedAt, listed, live]]
              exact (continues results).imp (SelectEnds.after · step) .inr
          | some tuple =>
              rw [show logical.pointedAt pageIds (rid :: rids) =
                tuple :: logical.pointedAt pageIds rids by
                  simp [Logical.pointedAt, listed, live], selectRows_cons]
              dsimp only
              rcases selectRow schema columns (some expr) tuple with failure | row
              · exact .inl ⟨rfl, reflects', frameId, step.weaken _⟩
              · rw [Fallible.ofExcept_ok_bind]
                refine (continues (results ++ row.toList)).imp (fun ends => ?_) .inr
                have rest := ends.after step
                generalize Logical.selectRows schema columns (some expr)
                  (logical.pointedAt pageIds rids) = others at rest ⊢
                rcases others with failure | rows
                · exact rest
                · simpa [Except.map, Except.bind] using rest
        · refine .inr (.inl ?_)
          rw [Fallible.bind_error run]
          exact ⟨⟨_, rfl⟩, full, reflects', advances⟩
        · refine .inr (.inr ⟨?_, overpinned⟩)
          rw [Fallible.bind_error run]
      · rw [selectRids, if_neg listed]
        rw [show logical.pointedAt pageIds (rid :: rids) = logical.pointedAt pageIds rids by
          simp [Logical.pointedAt, listed]]
        exact ih reflects results

variable [Build]

theorem tryIndexSelect_eq (table : String) (schema : Schema) (expr : Expr)
    (columns : SelectColumns) (pageIds : List UInt32) (executor : Executor) :
    tryIndexSelect table schema expr columns pageIds executor =
      match indexRids executor.indexManager table expr with
      | .error failure => (.error failure, executor)
      | .ok none => (.ok none, executor)
      | .ok (some rids) =>
          (selectRids schema columns expr pageIds rids [] >>= fun rows => return some rows)
            executor := by
  rw [tryIndexSelect, Fallible.get_bind]
  rcases indexRids executor.indexManager table expr with failure | _ | rids <;> rfl

theorem findRows_ends (table : String) (schema : Schema) (columns : SelectColumns)
    (filter : Option Expr) {pageIds : List UInt32} (reflects : Reflects executor logical none)
    (nodup : pageIds.Nodup)
    (present : ∀ pageId ∈ pageIds, (logical.heap pageId).isSome) :
    SelectEnds executor logical (logical.findRows table schema columns filter pageIds)
      (findRows table schema columns filter pageIds executor) ∨
    NoFrame executor logical (findRows table schema columns filter pageIds executor) ∨
    Overpins executor (findRows table schema columns filter pageIds executor) := by
  cases filter with
  | none => exact seqScan_ends schema columns _ reflects nodup present
  | some expr =>
      have indexes : executor.indexManager = logical.indexManager := reflects.indexManager_eq
      simp only [Logical.findRows, findRows, Fallible.bind_apply, tryIndexSelect_eq, indexes,
        Option.elim_some]
      rcases indexRids logical.indexManager table expr with failure | _ | rids
      · exact .inl ⟨rfl, reflects, ⟨0, by decide⟩, .refl _ _⟩
      · exact seqScan_ends schema columns _ reflects nodup present
      · have ends := selectRids_ends schema columns expr reflects present rids []
        rw [show ∀ rows : Except Failure (List Row), rows.map ([] ++ ·) = rows by
          rintro (_ | _) <;> rfl] at ends
        dsimp only
        generalize selectRids schema columns expr pageIds rids [] executor = concrete at ends ⊢
        rcases concrete with ⟨_ | _, _⟩
        · exact ends.imp id (Or.imp id fun overpins => ⟨overpins.failed, overpins.overpinned⟩)
        · exact ends.imp id (Or.imp id fun overpins => nomatch overpins.failed)

/-- `SELECT` gives what the logical executor gives, and changes nothing but the frames. -/
theorem execSelect_ends (table : String) (columns : SelectColumns) (filter : Option Expr)
    (orderBy : Option (String × OrderDir)) (limit : Option UInt64)
    (reflects : Reflects executor logical none) (usable : logical.Usable) :
    SelectEnds executor logical (logical.execSelect table columns filter orderBy limit)
      (execSelect table columns filter orderBy limit executor) ∨
    NoFrame executor logical (execSelect table columns filter orderBy limit executor) ∨
    Overpins executor (execSelect table columns filter orderBy limit executor) := by
  have same {α : Type} (expected : Except Failure α) :
      SelectEnds executor logical expected (expected, executor) :=
    ⟨rfl, reflects, ⟨0, by decide⟩, .refl _ _⟩
  rw [execSelect, Logical.execSelect]
  cases known : logical.catalog.get table with
  | none =>
      rw [Fallible.bind_error (reflects.schemaOf_none known)]
      exact .inl (same (.error _))
  | some schema =>
      rw [Fallible.bind_ok (reflects.schemaOf_some known)]
      cases listed : logical.tablePages.lookup table with
      | none =>
          rw [Fallible.bind_error (reflects.pagesOf_none listed)]
          exact .inl (same (.error _))
      | some pageIds =>
          rw [Fallible.bind_ok (reflects.pagesOf_some listed)]
          rcases findRows_ends table schema columns filter reflects (usable.nodup listed)
            (usable.present listed) with ends | noFrame | overpins
          · left
            have sorted := ends.bind fun results =>
              (sortAndLimit schema columns orderBy limit results).bind
                (sortAndLimit schema columns orderBy limit)
            simp only [Fallible.ofExcept_bind] at sorted
            exact sorted
          · exact .inr (.inl noFrame.bind)
          · exact .inr (.inr overpins.bind)

end Select

section Transact

variable {executor : Executor} {logical : Logical}

theorem StatementEnds.of_error {executor' : Executor} {failure : Failure} {changed : Bool}
    {logical' : Logical}
    (rests : changed = false ∨ failure = .sql .updateLarger → Rests executor' logical')
    (advances : ∃ frameId, Advances executor executor' (some frameId)) :
    StatementEnds executor (.error failure, executor') ⟨.error failure, changed, logical'⟩ := by
  cases failure with
  | panic => exact .inl rfl
  | io => exact ⟨rfl, rests, advances⟩
  | sql => exact ⟨rfl, rests, advances⟩

/-- A statement that panics at a pin counter. -/
theorem Overpins.ends {ended : Except Failure (List Row) × Executor} {abstract : ScanEnd (List Row)}
    (overpins : Overpins executor ended) : StatementEnds executor ended abstract := by
  rcases ended with ⟨result, executor'⟩
  obtain rfl : result = .error (.panic .overflow) := overpins.failed
  exact .inr (.inr (.inr (.inr overpins.overpinned)))

theorem transact_ends
    {body : UInt32 → UInt32 → FrameId → UInt16 → Bool → Bytes → Unit → Action (Bool × Unit)}
    {step : UInt32 → Rid → Bytes → Unit → Fallible Failure Logical (Bool × Unit)}
    (refines : ∀ txnId, BodyRefines (body txnId) (step txnId)) (rests : Rests executor logical)
    {pageIds : List UInt32} (nodup : pageIds.Nodup)
    (present : ∀ pageId ∈ pageIds, (logical.heap pageId).isSome) :
    StatementEnds executor (transact body pageIds executor) (logical.transact step pageIds) ∨
    OutOfFrames executor logical (transact body pageIds executor) := by
  rw [transact, Logical.transact]
  by_cases room : logical.nextTxnId.toNat + 1 < 2 ^ 32
  · rcases rests.reflects.beginTxn room with ⟨begun, begin, reflects, pool⟩
    have start : Advances executor begun none := .of_pool pool
    have kept (pageId : UInt32) :
        ((logical.beginTxn.scan (step logical.nextTxnId) (logical.heap.live pageIds) ()).state.heap
          pageId).isSome = (logical.heap pageId).isSome :=
      Logical.scan_isSome (refines logical.nextTxnId).isLocal _ () logical.beginTxn pageId
    rw [Fallible.bind_ok begin]
    rcases scanPages_refines (refines logical.nextTxnId) nodup reflects present () with
      ends | ⟨⟨failure, failed⟩, full, reflects', advances⟩ | overpins
    · left
      rw [show logical.beginTxn.heap = logical.heap from rfl] at ends
      rw [Fallible.bind_apply]
      generalize scanPages (body logical.nextTxnId) pageIds () begun = concrete at ends ⊢
      generalize logical.beginTxn.scan (step logical.nextTxnId) (logical.heap.live pageIds) () =
        abstract at ends kept ⊢
      rcases concrete with ⟨failure | ⟨dirtyPages, _⟩, executor'⟩ <;>
        rcases abstract with ⟨failure' | _, changed, logical'⟩
      · rcases ends with ⟨rfl, reflects', ⟨frameId, advances⟩, -⟩
        refine .of_error (fun unchanged => ⟨reflects' unchanged, fun {pageId} here => ?_⟩)
          ⟨frameId, start.andThen advances⟩
        exact advances.stored (start.stored (rests.stored (by rwa [kept] at here)))
      · exact ends.elim
      · exact ends.elim
      · rcases ends with ⟨-, inside, reflects', advances⟩
        rcases reflects'.commit logical.nextTxnId with ⟨committed, commit, reflects'', pool'⟩
        rcases reflects''.flushPages dirtyPages (fun pageId dirty => by
          rw [show (logical'.commit logical.nextTxnId).heap = logical'.heap from rfl, kept]
          exact present pageId (inside pageId dirty)) with
          ⟨flushed, flush, settled, advances', -⟩
        dsimp only
        rw [Fallible.bind_ok commit, Fallible.bind_ok flush]
        have all := ((start.trans advances).trans (.of_pool pool')).trans advances'
        refine ⟨rfl, ⟨settled, fun {pageId} here => ?_⟩, all⟩
        exact all.stored (rests.stored (by rwa [← kept]))
    · right
      rw [Fallible.bind_error (Prod.ext failed rfl)]
      refine ⟨⟨failure, rfl⟩, fun frameId available =>
        full frameId (start.available (by simp) available),
        .inr ⟨reflects', fun {pageId} here => ?_⟩, start.trans advances⟩
      exact advances.stored (start.stored (rests.stored here))
    · exact .inl (overpins.bind.after start).ends
  · left
    rw [Fallible.bind_error (rests.reflects.beginTxn_panic room)]
    exact .inr (.inr (.inl (rests.reflects.nextTxnId_eq ▸ room)))

/-- The log after a transaction, however it ended, unless a page could not be pinned. -/
theorem transact_core
    {body : UInt32 → UInt32 → FrameId → UInt16 → Bool → Bytes → Unit → Action (Bool × Unit)}
    {step : UInt32 → Rid → Bytes → Unit → Fallible Failure Logical (Bool × Unit)}
    (refines : ∀ txnId, BodyRefines (body txnId) (step txnId)) (rests : Rests executor logical)
    {pageIds : List UInt32} (nodup : pageIds.Nodup)
    (present : ∀ pageId ∈ pageIds, (logical.heap pageId).isSome) :
    (transact body pageIds executor).2.core = logical.toCore ∨
    (transact body pageIds executor).2.core = logical.beginTxn.toCore ∨
    (transact body pageIds executor).2.core = (logical.transact step pageIds).state.toCore ∨
    executor.Overpinned := by
  rw [transact, Logical.transact]
  by_cases room : logical.nextTxnId.toNat + 1 < 2 ^ 32
  · right
    rcases rests.reflects.beginTxn room with ⟨begun, begin, reflects, pool⟩
    have kept (pageId : UInt32) :
        ((logical.beginTxn.scan (step logical.nextTxnId) (logical.heap.live pageIds) ()).state.heap
          pageId).isSome = (logical.heap pageId).isSome :=
      Logical.scan_isSome (refines logical.nextTxnId).isLocal _ () logical.beginTxn pageId
    rw [Fallible.bind_ok begin]
    rcases scanPages_refines (refines logical.nextTxnId) nodup reflects present () with
      ends | ⟨⟨failure, failed⟩, -, reflects', -⟩ | overpins
    · refine .inr (.inl ?_)
      rw [show logical.beginTxn.heap = logical.heap from rfl] at ends
      rw [Fallible.bind_apply]
      generalize scanPages (body logical.nextTxnId) pageIds () begun = concrete at ends ⊢
      generalize logical.beginTxn.scan (step logical.nextTxnId) (logical.heap.live pageIds) () =
        abstract at ends kept ⊢
      rcases concrete with ⟨failure | ⟨dirtyPages, _⟩, executor'⟩ <;>
        rcases abstract with ⟨failure' | _, changed, logical'⟩
      · exact ends.2.2.2
      · exact ends.elim
      · exact ends.elim
      · rcases ends with ⟨-, inside, reflects', -⟩
        rcases reflects'.commit logical.nextTxnId with ⟨committed, commit, reflects'', -⟩
        rcases reflects''.flushPages dirtyPages (fun pageId dirty => by
          rw [show (logical'.commit logical.nextTxnId).heap = logical'.heap from rfl, kept]
          exact present pageId (inside pageId dirty)) with ⟨flushed, flush, settled, -⟩
        dsimp only
        rw [Fallible.bind_ok commit, Fallible.bind_ok flush]
        exact settled.core
    · left
      rw [Fallible.bind_error (Prod.ext failed rfl)]
      exact reflects'.core
    · exact .inr (.inr ((Advances.of_pool pool).overpinned overpins.overpinned))
  · left
    rw [Fallible.bind_error (rests.reflects.beginTxn_panic room)]
    exact rests.reflects.core

/-- A statement that gives up at once. -/
theorem Rests.fails (rests : Rests executor logical) (failure : Failure) :
    StatementEnds executor (.error failure, executor) (logical.fail failure) :=
  .of_error (fun _ => rests) ⟨⟨0, by decide⟩, .refl _ _⟩

theorem execDelete_ends (rests : Rests executor logical) (usable : logical.Usable) (table : String)
    (filter : Option Expr) :
    StatementEnds executor (execDelete table filter executor) (logical.execDelete table filter) ∨
    OutOfFrames executor logical (execDelete table filter executor) := by
  rw [execDelete, Logical.execDelete]
  cases known : logical.catalog.get table with
  | none =>
      rw [Fallible.bind_error (rests.reflects.schemaOf_none known)]
      exact .inl (rests.fails _)
  | some schema =>
      rw [Fallible.bind_ok (rests.reflects.schemaOf_some known)]
      cases listed : logical.tablePages.lookup table with
      | none =>
          rw [Fallible.bind_error (rests.reflects.pagesOf_none listed)]
          exact .inl (rests.fails _)
      | some pageIds =>
          rw [Fallible.bind_ok (rests.reflects.pagesOf_some listed)]
          exact transact_ends (delete_refines table schema filter) rests (usable.nodup listed)
            (usable.present listed)

theorem execUpdate_ends (rests : Rests executor logical) (usable : logical.Usable) (table : String)
    (assignments : List Assignment) (filter : Option Expr) :
    StatementEnds executor (execUpdate table assignments filter executor)
      (logical.execUpdate table assignments filter) ∨
    OutOfFrames executor logical (execUpdate table assignments filter executor) := by
  rw [execUpdate, Logical.execUpdate]
  cases known : logical.catalog.get table with
  | none =>
      rw [Fallible.bind_error (rests.reflects.schemaOf_none known)]
      exact .inl (rests.fails _)
  | some schema =>
      rw [Fallible.bind_ok (rests.reflects.schemaOf_some known)]
      cases listed : logical.tablePages.lookup table with
      | none =>
          rw [Fallible.bind_error (rests.reflects.pagesOf_none listed)]
          exact .inl (rests.fails _)
      | some pageIds =>
          rw [Fallible.bind_ok (rests.reflects.pagesOf_some listed)]
          exact transact_ends (update_refines table schema assignments filter) rests
            (usable.nodup listed) (usable.present listed)

end Transact

section Insert

variable {executor : Executor} {logical : Logical} {frameId : FrameId} {pageId : UInt32}
  {page : SlottedPage} {rowBytes : Bytes}

/-- Logging a tuple and putting it on the page of a held frame. -/
theorem Using.insertInto (inUse : Using executor logical frameId pageId false) (txnId : UInt32)
    (wrap : IoError → SqlError) (found : logical.heap pageId = some page)
    (room : page.HasRoom rowBytes.length)
    (copyRoom : ((logical.shadow pageId).getD .empty).HasRoom rowBytes.length) :
    ∃ executor', insertInto txnId pageId frameId wrap rowBytes executor =
        (.ok (logical.nextRid pageId).slotId, executor') ∧
      Reflects executor' (logical.pushTuple txnId pageId rowBytes) none ∧
      Releases executor executor' frameId := by
  have short := page.lt_of_hasRoom room
  have inserted : page.insertTuple rowBytes = .ok (some (page.push rowBytes)) := by
    rw [SlottedPage.insertTuple, Nat.mod_eq_of_lt short, if_pos room, if_pos short]
  rcases inUse.reflects.logInsert txnId pageId copyRoom short with
    ⟨slotId, logged, log, reflects, pool⟩
  have found' : (logical.logInsert txnId pageId rowBytes).heap pageId = some page := found
  rcases (inUse.of_reflects pool reflects).onPage none found' (fun concrete represents => by
    have outcome := represents.insertTuple_eq rowBytes
    rw [inserted] at outcome
    exact outcome) with ⟨filled, fill, inUse', advances⟩
  rcases inUse'.unpin true (by simp) with ⟨executor', unpin, reflects', released⟩
  refine ⟨executor', ?_, ?_, released.after ((Advances.of_pool pool).trans advances)⟩
  · have logged' : Fallible.mapError (Failure.wrapIo wrap)
        (onWal (WalManager.logInsert txnId pageId rowBytes)) executor = (.ok slotId, logged) := by
      simp [Fallible.mapError, log]
    rw [Executor.insertInto, Fallible.bind_ok logged', Fallible.bind_ok fill,
      Fallible.bind_ok unpin]
    simp [Logical.nextRid, found]
  · rw [Logical.pushTuple, found, Option.getD_some]
    exact reflects'

/-- First fit over the pages of a table. -/
theorem insertExisting_ends (reflects : Reflects executor logical none) (usable : logical.Usable)
    (txnId : UInt32) (rowBytes : Bytes) {pageIds : List UInt32}
    (present : ∀ pageId ∈ pageIds, (logical.heap pageId).isSome) :
    (∃ executor', insertExisting txnId rowBytes pageIds executor =
        (.ok ((logical.firstFit rowBytes.length pageIds).map logical.nextRid), executor') ∧
      Reflects executor' ((logical.firstFit rowBytes.length pageIds).elim logical fun pageId =>
        logical.pushTuple txnId pageId rowBytes) none ∧ Advances executor executor' none) ∨
    NoFrame executor logical (insertExisting txnId rowBytes pageIds executor) ∨
    Overpins executor (insertExisting txnId rowBytes pageIds executor) := by
  induction pageIds generalizing executor with
  | nil => exact .inl ⟨executor, rfl, reflects, .refl _ _⟩
  | cons pageId pageIds ih =>
      rcases Option.isSome_iff_exists.mp (present pageId (by simp)) with ⟨page, found⟩
      rw [insertExisting]
      rcases reflects.fetchPage found with
        ⟨frameId, fetched, run, inUse, advances⟩ | ⟨executor', run, reflects', advances, full⟩ |
        ⟨run, overpinned⟩
      · rcases inUse.represents found with ⟨concrete, held, -, represents⟩
        have space : ((fetched.bufferPool.getPage frameId).any fun page =>
            decide (rowBytes.length + 5 ≤ page.freeSpace)) =
            decide (rowBytes.length + 5 ≤ page.freeSpace) := by
          rw [BufferPool.getPage, held.page]
          simp [represents.freeSpace_eq]
        rw [Fallible.bind_ok run, Fallible.get_bind]
        simp only [space]
        by_cases enough : rowBytes.length + 5 ≤ page.freeSpace
        · rcases usable.room found enough with ⟨room, copyRoom⟩
          rcases inUse.insertInto txnId .walInsert found room copyRoom with
            ⟨executor', insert, reflects', released⟩
          have chosen : logical.firstFit rowBytes.length (pageId :: pageIds) = some pageId := by
            simp [Logical.firstFit, found, enough]
          rw [chosen, if_pos (by simpa using enough), Fallible.bind_ok insert]
          exact .inl ⟨executor', rfl, reflects', advances.release released⟩
        · rcases inUse.unpin false (by simp) with
            ⟨unpinned, release, reflects', released⟩
          have skipped : logical.firstFit rowBytes.length (pageId :: pageIds) =
              logical.firstFit rowBytes.length pageIds := by
            simp [Logical.firstFit, found, enough]
          have step := advances.release released
          rw [skipped, if_neg (by simpa using enough), Fallible.bind_ok release]
          rcases ih reflects' (fun other inside => present other (by simp [inside])) with
            ⟨executor', rest, reflects'', advances''⟩ | noFrame | overpins
          · exact .inl ⟨executor', rest, reflects'', step.trans advances''⟩
          · exact absurd released.available (noFrame.full frameId)
          · exact .inr (.inr (overpins.after step))
      · refine .inr (.inl ?_)
        rw [Fallible.bind_error run]
        exact ⟨⟨_, rfl⟩, full, reflects', advances⟩
      · refine .inr (.inr ⟨?_, overpinned⟩)
        rw [Fallible.bind_error run]

/-- A page is entered into the page list of a table. -/
theorem Reflects.listPage (reflects : Reflects executor logical none) (table : String)
    (pageId : UInt32) :
    Reflects (saveTableMeta table { executor with
      tablePages := executor.tablePages.insert table
        ((executor.tablePages.lookup table).getD [] ++ [pageId]) }).2
      (logical.listPage table pageId) none := by
  refine reflects_record.mpr (reflects.of_core ?_ rfl rfl rfl rfl)
  rw [show (logical.listPage table pageId).toCore = { logical.toCore with
    tablePages := logical.toCore.tablePages.insert table
      ((logical.toCore.tablePages.lookup table).getD [] ++ [pageId])
    pageFiles := logical.toCore.pageFiles.insert table
      ((logical.toCore.tablePages.lookup table).getD [] ++ [pageId]) } from rfl, ← reflects.core]
  simp [Executor.core]

omit [Crc32] in
/-- The order in which a page is listed and filled does not matter. -/
theorem listPage_pushTuple (logical : Logical) (table : String) (txnId pageId : UInt32) :
    (logical.pushTuple txnId pageId rowBytes).listPage table pageId =
      (logical.listPage table pageId).pushTuple txnId pageId rowBytes := rfl

theorem insertFresh_ends (reflects : Reflects executor logical none)
    (unallocated : logical.shadow logical.nextPageId = none) (txnId : UInt32) (table : String)
    (rowBytes : Bytes) :
    (∃ executor', insertFresh txnId table rowBytes executor =
        (.ok (logical.nextRid logical.nextPageId), executor') ∧
      SlottedPage.empty.HasRoom rowBytes.length ∧
      Reflects executor' ((logical.allocate.listPage table logical.nextPageId).pushTuple txnId
        logical.nextPageId rowBytes) none ∧ Advances executor executor' none) ∨
    (∃ executor', insertFresh txnId table rowBytes executor =
        (.error (.sql (.walInsertNewPage .pageFull)), executor') ∧
      ¬SlottedPage.empty.HasRoom rowBytes.length ∧
      Reflects executor' (logical.wastePage logical.nextPageId) none ∧
      ∃ frameId, Advances executor executor' (some frameId)) ∨
    (∃ panic executor', insertFresh txnId table rowBytes executor =
        (.error (.panic panic), executor') ∧
      (¬SlottedPage.empty.HasRoom rowBytes.length ∨ ¬logical.numPages + 1 < 2 ^ 32)) ∨
    NoFrame executor logical (insertFresh txnId table rowBytes executor) := by
  have missing := reflects.heap_nextPageId
  rw [insertFresh]
  rcases reflects.newPage with ⟨frameId, allocated, run, inUse, advances⟩ |
    ⟨executor', run, reflects', advances, full⟩ | ⟨executor', run, last⟩
  · rw [Fallible.bind_ok run]
    have found : logical.takePage.heap logical.nextPageId = some .empty := by
      simp [Logical.takePage]
    have copy : (logical.takePage.shadow logical.nextPageId).getD .empty = .empty := by
      simp [Logical.takePage, Logical.allocate, unallocated]
    by_cases room : SlottedPage.empty.HasRoom rowBytes.length
    · left
      rcases inUse.insertInto txnId .walInsertNewPage found room (by rwa [copy]) with
        ⟨filled, insert, reflects', released⟩
      have sameRid : (⟨logical.nextPageId, (logical.takePage.nextRid logical.nextPageId).slotId⟩ :
        Rid) =
          logical.nextRid logical.nextPageId := by
        simp [Logical.nextRid, found, missing]
      have samePush : logical.takePage.pushTuple txnId logical.nextPageId rowBytes =
          logical.allocate.pushTuple txnId logical.nextPageId rowBytes := by
        simp [Logical.pushTuple, Logical.takePage, Logical.allocate, missing, Logical.logInsert,
          Logical.append]
      let listed := (saveTableMeta table { filled with
        tablePages := filled.tablePages.insert table
          ((filled.tablePages.lookup table).getD [] ++ [logical.nextPageId]) }).2
      have step : Advances executor listed none := (advances.release released).trans (.of_pool rfl)
      refine ⟨listed, ?_, room, ?_, step⟩
      · dsimp only
        rw [Fallible.bind_ok insert, Fallible.modify_bind, ← sameRid]
        rfl
      · rw [← listPage_pushTuple, ← samePush]
        exact reflects'.listPage table logical.nextPageId
    · by_cases wrapped : SlottedPage.empty.HasRoom (rowBytes.length % 2 ^ 16)
      · -- the length is taken modulo 65536, and the copy runs over the end of the page
        have long : ¬rowBytes.length < 2 ^ 16 := fun short => room (by
          rwa [Nat.mod_eq_of_lt short] at wrapped)
        rcases inUse.reflects.logInsert_panic txnId logical.nextPageId (by rwa [copy]) long with
          ⟨executor', log⟩
        refine .inr (.inr (.inl ⟨.outOfBounds, executor', ?_, .inl room⟩))
        dsimp only
        rw [insertInto, Fallible.bind_error (Fallible.bind_error (Fallible.mapError_error log))]
        rfl
      · rcases inUse.reflects.logInsert_full txnId logical.nextPageId (by rwa [copy]) with
          ⟨executor', log, reflects', pool⟩
        refine .inr (.inl ⟨executor', ?_, room, reflects'.restrict ?_, frameId,
          advances.trans (.of_pool pool)⟩)
        · dsimp only
          rw [insertInto, Fallible.bind_error (Fallible.bind_error (Fallible.mapError_error log))]
          rfl
        · intro other page present
          have apart : other ≠ logical.nextPageId := by
            rintro rfl
            exact absurd (missing.symm.trans present) (by simp)
          exact (Function.update_of_ne apart _ _).trans present
  · refine .inr (.inr (.inr ?_))
    rw [Fallible.bind_error run]
    exact ⟨⟨_, rfl⟩, full, reflects', advances⟩
  · refine .inr (.inr (.inl ⟨.overflow, executor', ?_, .inr last⟩))
    rw [Fallible.bind_error run]

theorem placeRow_ends (reflects : Reflects executor logical none) (usable : logical.Usable)
    (txnId : UInt32) (table : String) (rowBytes : Bytes) {pageIds : List UInt32}
    (present : ∀ pageId ∈ pageIds, (logical.heap pageId).isSome) :
    (∃ pageId logical' executor',
      logical.place table rowBytes.length pageIds = some (pageId, logical') ∧
      placeRow txnId table rowBytes pageIds executor = (.ok (logical'.nextRid pageId), executor') ∧
      Reflects executor' (logical'.pushTuple txnId pageId rowBytes) none ∧
      Advances executor executor' none ∧ logical'.heap = logical.heap) ∨
    (∃ executor', logical.place table rowBytes.length pageIds = none ∧
      placeRow txnId table rowBytes pageIds executor =
        (.error (.sql (.walInsertNewPage .pageFull)), executor') ∧
      Reflects executor' (logical.wastePage logical.nextPageId) none ∧
      ∃ frameId, Advances executor executor' (some frameId)) ∨
    (∃ panic executor', placeRow txnId table rowBytes pageIds executor =
        (.error (.panic panic), executor') ∧
      (logical.place table rowBytes.length pageIds = none ∨ ¬logical.numPages + 1 < 2 ^ 32 ∨
        executor.Overpinned)) ∨
    NoFrame executor logical (placeRow txnId table rowBytes pageIds executor) := by
  rw [placeRow, Logical.place]
  rcases insertExisting_ends reflects usable txnId rowBytes present with
    ⟨searched, search, reflects', advances⟩ | ⟨⟨failure, failed⟩, full, reflects', advances⟩ |
    overpins
  · rw [Fallible.bind_ok search]
    cases chosen : logical.firstFit rowBytes.length pageIds with
    | some pageId =>
        rw [chosen] at reflects'
        exact .inl ⟨pageId, logical, searched, rfl, rfl, reflects', advances, rfl⟩
    | none =>
        rw [chosen] at reflects'
        rcases insertFresh_ends reflects' (usable.unallocated reflects.toNat_nextPageId.ge) txnId
          table
          rowBytes with
          ⟨executor', run, room, reflects'', advances'⟩ | ⟨executor', run, room, reflects'',
            frameId,
            advances'⟩ | ⟨panic, executor', run, cause⟩ | noFrame
        · exact .inl ⟨logical.nextPageId, _, executor', if_pos room, run, reflects'',
            advances.trans advances', rfl⟩
        · exact .inr (.inl ⟨executor', if_neg room, run, reflects'', frameId,
            advances.andThen advances'⟩)
        · exact .inr (.inr (.inl ⟨panic, executor', run, cause.imp (if_neg ·) .inl⟩))
        · exact .inr (.inr (.inr ⟨noFrame.failed,
            fun frameId available => noFrame.full frameId (advances.available (by simp) available),
            noFrame.reflects, advances.trans noFrame.advances⟩))
  · refine .inr (.inr (.inr ?_))
    rw [Fallible.bind_error (Prod.ext failed rfl)]
    exact ⟨⟨failure, rfl⟩, full, reflects', advances⟩
  · rw [Fallible.bind_error (Prod.ext overpins.failed rfl)]
    exact .inr (.inr (.inl ⟨.overflow, _, rfl, .inr (.inr overpins.overpinned)⟩))

/-- The end of `INSERT`: index maintenance, commit and flush. -/
theorem insert_finishes (reflects : Reflects executor logical none) (table : String) (rid : Rid)
    (cells : List (String × Option Int64 × Option Int64)) (txnId : UInt32)
    (here : (logical.heap rid.pageId).isSome)
    (stored : ∀ {pageId}, pageId ≠ rid.pageId → (logical.heap pageId).isSome →
      executor.Stored pageId) :
    ∃ executor', (do
        modifyIndexes (IndexManager.maintain table rid cells)
        onWal (WalManager.commit txnId)
        flushPages [rid.pageId]
        return ([] : List Row)) executor = (.ok [], executor') ∧
      Rests executor' ((logical.maintain table rid cells).commit txnId) ∧
      Advances executor executor' none := by
  let indexed := { executor with
    indexManager := executor.indexManager.maintain table rid cells }
  have reflects' : Reflects indexed (logical.maintain table rid cells) none := by
    refine reflects.of_core ?_ rfl rfl rfl rfl
    rw [show (logical.maintain table rid cells).toCore = { logical.toCore with
      indexManager := logical.toCore.indexManager.maintain table rid cells } from rfl,
      ← reflects.core]
    rfl
  rcases reflects'.commit txnId with ⟨committed, commit, reflects'', pool⟩
  rcases reflects''.flushPages [rid.pageId] (by rintro _ (_ | ⟨_, ⟨⟩⟩); exact here) with
    ⟨executor', flush, settled, advances, flushed⟩
  have samePool : committed.bufferPool = executor.bufferPool := pool
  have step : Advances executor executor' none := (Advances.of_pool samePool).trans advances
  refine ⟨executor', ?_, ⟨settled, fun {pageId} present => ?_⟩, step⟩
  · rw [modifyIndexes, Fallible.modify_bind, Fallible.bind_ok commit, Fallible.bind_ok flush]
    rfl
  · by_cases same : pageId = rid.pageId
    · exact flushed pageId (by simp [same])
    · exact step.stored (stored same present)

theorem execInsert_ends (rests : Rests executor logical) (usable : logical.Usable) (table : String)
    (values : List Value) :
    StatementEnds executor (execInsert table values executor) (logical.execInsert table values) ∨
    OutOfFrames executor logical (execInsert table values executor) := by
  have indexes : executor.indexManager = logical.indexManager := rests.reflects.indexManager_eq
  rw [execInsert, Logical.execInsert]
  cases known : logical.catalog.get table with
  | none =>
      rw [Fallible.bind_error (rests.reflects.schemaOf_none known)]
      exact .inl (rests.fails _)
  | some schema =>
      rw [Fallible.bind_ok (rests.reflects.schemaOf_some known), Fallible.get_bind, indexes]
      dsimp only
      rcases checkInsertKey schema logical.indexManager table values with failure | _
      · exact .inl (rests.fails _)
      rw [Fallible.ofExcept_ok_bind]
      rcases schema.serializeRow values with failure | rowBytes
      · exact .inl (rests.fails _)
      rw [Fallible.ofExcept_ok_bind]
      by_cases room : logical.nextTxnId.toNat + 1 < 2 ^ 32
      swap
      · left
        rw [Fallible.bind_error (rests.reflects.beginTxn_panic room)]
        exact .inr (.inr (.inl (rests.reflects.nextTxnId_eq ▸ room)))
      rcases rests.reflects.beginTxn room with ⟨begun, begin, reflects, pool⟩
      rw [Fallible.bind_ok begin]
      cases listed : logical.tablePages.lookup table with
      | none =>
          rw [Fallible.bind_error (reflects.pagesOf_none listed)]
          exact .inl (.of_error (fun _ => ⟨reflects, fun here => by
            rw [Stored, pool]; exact rests.stored here⟩) ⟨⟨0, by decide⟩, .of_pool pool⟩)
      | some pageIds =>
          rw [Fallible.bind_ok (reflects.pagesOf_some listed)]
          have start : Advances executor begun none := .of_pool pool
          have usable' : logical.beginTxn.Usable :=
            ⟨usable.nodup, usable.present, usable.shaped, usable.unallocated⟩
          have stored {pageId : UInt32} (here : (logical.heap pageId).isSome) :
              begun.Stored pageId := start.stored (rests.stored here)
          dsimp only
          rw [Logical.insertBytes]
          rcases placeRow_ends reflects usable' logical.nextTxnId table rowBytes
            (usable.present listed) with
            ⟨pageId, logical', placed, chosen, run, reflects', advances, heap⟩ |
              ⟨executor', chosen, run, reflects', frameId, advances⟩ | ⟨panic, executor', run,
                cause⟩ |
              ⟨⟨failure, failed⟩, full, reflects', advances⟩
          · left
            rcases insert_finishes reflects' table (logical'.nextRid pageId)
              (indexCells schema none (some values)) logical.nextTxnId
              (by simp [Logical.pushTuple, Logical.nextRid])
              (fun {other} (apart : other ≠ pageId) here => advances.stored (stored (by
                rwa [Logical.pushTuple_heap_of_ne apart, heap] at here))) with
              ⟨executor', finish, rests', advances'⟩
            rw [Fallible.bind_ok run, finish, chosen]
            exact ⟨rfl, rests', (start.trans advances).trans advances'⟩
          · left
            rw [Fallible.bind_error run, chosen]
            refine .of_error (fun _ => ⟨reflects', fun here => ?_⟩)
              ⟨frameId, start.andThen advances⟩
            exact advances.stored (stored here)
          · left
            rw [Fallible.bind_error run]
            rcases cause with chosen | last | overpinned
            · rw [chosen]
              exact .inr (.inl rfl)
            · exact .inr (.inr (.inr (.inl (rests.reflects.numPages_eq ▸ last))))
            · exact .inr (.inr (.inr (.inr (start.overpinned overpinned))))
          · right
            rw [Fallible.bind_error (Prod.ext failed rfl)]
            refine ⟨⟨failure, rfl⟩, fun frameId available => ?_, .inr ⟨reflects', fun here => ?_⟩,
              start.trans advances⟩
            · exact full frameId (start.available (by simp) available)
            · exact advances.stored (stored here)

end Insert

section CreateTable

variable {executor : Executor} {logical : Logical}

theorem execCreateTable_ends (rests : Rests executor logical) (order : HashOrder) (table : String)
    (columns : List ColumnDef) :
    StatementEnds executor (execCreateTable order table columns executor)
      (logical.execCreateTable order table columns) := by
  let schema := Schema.new table columns
  have catalog : executor.catalog = logical.catalog := rests.reflects.catalog_eq
  let indexed := { executor with
    indexManager := schema.primaryKey.elim executor.indexManager fun column =>
      executor.indexManager.createIndex table column }
  have rests' : Rests indexed (logical.createIndexOf schema) := by
    refine ⟨rests.reflects.of_core ?_ rfl rfl rfl rfl, rests.stored⟩
    rw [show (logical.createIndexOf schema).toCore = { logical.toCore with
      indexManager := schema.primaryKey.elim logical.toCore.indexManager fun column =>
        logical.toCore.indexManager.createIndex table column } from rfl, ← rests.reflects.core]
    rfl
  have known : indexed.catalog.createTable schema =
      if table ∈ logical.catalog.tables then .error (.sql (.tableExists table))
      else .ok { logical.catalog with tables := logical.catalog.tables.insert table schema } := by
    rw [show indexed.catalog = logical.catalog from catalog]
    rfl
  rw [execCreateTable, modifyIndexes, Fallible.modify_bind, Fallible.get_bind,
    Logical.execCreateTable]
  rw [show Catalog.createTable _ _ = _ from known]
  by_cases duplicate : table ∈ logical.catalog.tables
  · rw [if_pos duplicate, if_pos duplicate, Fallible.ofExcept_error_bind]
    exact .of_error (fun _ => rests') ⟨⟨0, by decide⟩, .of_pool rfl⟩
  · rw [if_neg duplicate, if_neg duplicate, Fallible.ofExcept_ok_bind]
    refine ⟨rfl, ⟨?_, fun here => rests'.stored here⟩, .of_pool rfl⟩
    refine reflects_record.mpr (rests'.reflects.of_core ?_ rfl rfl rfl rfl)
    rcases logical with ⟨core, heap, shadow⟩
    obtain rfl : executor.core = core := rests.reflects.core
    simp [Executor.core, record, Logical.addTable, Logical.createIndexOf, schema, Schema.new]

end CreateTable

variable {executor : Executor} {logical : Logical} [Build]

/-- Every statement ends as the logical executor says, unless it finds no frame available. -/
theorem execute_ends (rests : Rests executor logical) (usable : logical.Usable) (order : HashOrder)
    (statement : Statement) :
    StatementEnds executor (execute order statement executor) (logical.execute order statement) ∨
    OutOfFrames executor logical (execute order statement executor) := by
  cases statement with
  | createTable table columns => exact .inl (execCreateTable_ends rests order table columns)
  | insert table values => exact execInsert_ends rests usable table values
  | select table columns filter orderBy limit =>
      rw [execute, Logical.execute]
      rcases execSelect_ends table columns filter orderBy limit rests.reflects usable with
        ⟨same, reflects, frameId, advances⟩ | noFrame | overpins
      · left
        generalize execSelect table columns filter orderBy limit executor = ended at *
        generalize logical.execSelect table columns filter orderBy limit = expected at *
        rcases ended with ⟨failure | rows, executor'⟩ <;> obtain rfl := same
        · exact .of_error (fun _ => ⟨reflects, fun here => advances.stored (rests.stored here)⟩)
            ⟨frameId, advances⟩
        · exact ⟨rfl, ⟨reflects, fun here => advances.stored (rests.stored here)⟩, advances⟩
      · right
        exact ⟨noFrame.failed, noFrame.full, .inl ⟨noFrame.reflects, fun here =>
          noFrame.advances.stored (rests.stored here)⟩, noFrame.advances⟩
      · exact .inl overpins.ends
  | delete table filter => exact execDelete_ends rests usable table filter
  | update table assignments filter => exact execUpdate_ends rests usable table assignments filter

end Executor

end VenomDb
