import VenomDb.Engine.BeforeImages
import VenomDb.Engine.Effects
import VenomDb.Engine.Survival

/-!
# When `Delete` records tell the truth

A `DELETE` records of each row what the log manager's copy of its page has. The record has the
bytes of the row if and only if the row is as it was before the first update that the session has
recorded of its slot.
-/

namespace VenomDb

namespace Executor

open Fallible

section Conditions

variable [Crc32]

/-- Every row that a `DELETE` removes is as it was before the first update that the session has
recorded of its slot, if it has recorded one. -/
def Remembers (executor : Executor) : Statement → Prop
  | .delete table filter => ∀ schema pageIds rid tuple row old,
      executor.catalog.get table = some schema → executor.tablePages.lookup table = some pageIds →
      (rid, tuple) ∈ executor.entriesOf pageIds →
      selectRow schema .star filter tuple = .ok (some row) →
      firstOld executor.sessionLog rid = some old → old = tuple
  | _ => True

/-- The statements return `Ok`, and those that delete rows remember them. -/
def RemembersRows : Admits := fun executor stmt result => result.isOk ∧ executor.Remembers stmt

end Conditions

section Scan

variable {executor executor' : Executor} {logical : Logical} {table : String} {schema : Schema}
  {filter : Option Expr} {pageIds : List UInt32} {txnId : UInt32} {opened : List LogRecord}
  {frameId : FrameId} {pageId : UInt32} {slotId : UInt16} {dirty : Bool} {rid : Rid} {tuple : Bytes}

variable [Crc32]

/-- What was buried is what the page had. -/
theorem Using.buries_iff {page : SlottedPage} {concrete concrete' : Page} {after : Moment}
    (inUse : Using executor logical frameId pageId dirty) (found : logical.heap pageId = some page)
    (here : page.get slotId.toNat = some tuple)
    (held : executor.bufferPool.Held frameId concrete) (id : concrete.id = pageId)
    (run : concrete.deleteTuple slotId = .ok (true, concrete'))
    (buried : after.frames frameId = some concrete') (oldData : Bytes) :
    Buries pageId slotId oldData executor.moment after ↔ oldData = tuple := by
  have content {frameId : FrameId} {other : Page}
      (inFrame : (executor.bufferPool.frames frameId).page = some other)
        (sameId : other.id = pageId) :
      other.getTuple slotId = .ok (some tuple) := by
    rcases inUse.reflects.heap found with ⟨data, seen, represents⟩
    have shown := BufferPool.view_of_frame inUse.reflects.coherent inFrame
    rw [sameId, seen, Option.some.injEq] at shown
    rw [shown] at represents
    have same : Represents other.data page := represents.congr_cleared (by simp)
    rw [same.getTuple_eq, here]
  constructor
  · rintro ⟨otherFrame, other, -, inFrame, sameId, got, -⟩
    simpa using got.symm.trans (content inFrame sameId)
  · rintro rfl
    exact ⟨frameId, concrete, concrete', held.page, id, content held.page id, run, buried⟩

/-- The two calls of `DELETE` on a row, and what an observer sees of them. -/
theorem Using.bury (inUse : Using executor logical frameId pageId dirty) (txnId : UInt32)
    (live : logical.heap.get ⟨pageId, slotId⟩ = some tuple) :
    ∃ deleted logged buried,
      onWal (WalManager.logDelete txnId pageId slotId) executor = (.ok deleted, logged) ∧
      Executor.onPage frameId false (fun page => page.deleteTuple slotId) logged =
        (.ok true, buried) ∧
      Logged executor logged buried (.delete logical.currentLsn txnId pageId slotId
        ((logical.shadow.get ⟨pageId, slotId⟩).getD [])) ∧
      ∀ oldData, Buries pageId slotId oldData logged.moment buried.moment ↔ oldData = tuple := by
  rcases Heap.exists_page_of_get live with ⟨page, found, here⟩
  rcases inUse.reflects.logDelete txnId pageId slotId with ⟨deleted, logged, log, reflects, pool⟩
  have inUse' := inUse.of_reflects pool reflects
  rcases inUse'.represents found with ⟨concrete, held, id, represents⟩
  rcases represents.deleteTuple_eq slotId with ⟨concrete', -, -, run, -⟩
  have isLive : (page.deleteTuple slotId.toNat).1 = true := by
    simp [SlottedPage.deleteTuple, here]
  rw [isLive] at run
  have present : logged.bufferPool.getPage frameId = some concrete := held.page
  let buried := record { logged with bufferPool := logged.bufferPool.setPage frameId concrete' }
  have bury : Executor.onPage frameId false (fun page => page.deleteTuple slotId) logged =
      (.ok true, buried) := by
    simp [Executor.onPage, present, run, modifyPool, Fallible.bind_apply, buried]
  have history : logged.history = logged.moment :: executor.history := by
    rw [show logged = (onWal (WalManager.logDelete txnId pageId slotId) executor).2 by rw [log]]
    rfl
  refine ⟨deleted, logged, buried, log, bury, ⟨?_, rfl, by rw [← history]; rfl⟩, ?_⟩
  · have before : executor.wal.log = logical.log := inUse.reflects.log_eq
    rw [before, reflects.log_eq]
    rfl
  · refine inUse'.buries_iff found here held id run ?_
    simp [buried, moment, record, BufferPool.getPage, BufferPool.setPage]

/-- Amid the scan of a `DELETE`: the log manager's copies have the rows that are still to be removed
as the pages have them. -/
structure Deleting (opened : List LogRecord) (schema : Schema) (filter : Option Expr)
    (pageIds : List UInt32) (executor : Executor) (logical : Logical) : Prop where
  told : Told opened executor
  copy : ∀ {rid tuple row}, rid.pageId ∈ pageIds → logical.heap.get rid = some tuple →
    selectRow schema .star filter tuple = .ok (some row) → logical.shadow.get rid = some tuple

/-- Amid the scan of a `DELETE`: the log manager's copy has something else than a row has, and the
row is still there unless that has been missed. -/
structure Missing (opened : List LogRecord) (rid : Rid) (tuple : Bytes) (executor : Executor)
    (logical : Logical) : Prop where
  grown : Grown opened executor
  missed : Misses executor ∨ logical.heap.get rid = some tuple ∧
    ∃ old, logical.shadow.get rid = some old ∧ old ≠ tuple

omit [Crc32] in
/-- What a deleted row leaves alone on the pages and on the copies. -/
theorem get_deleteRow {other : Rid} (apart : other ≠ rid) (row : Row) (logical : Logical) :
    (logical.deleteRow table schema txnId rid row).heap.get other = logical.heap.get other ∧
      (logical.deleteRow table schema txnId rid row).shadow.get other =
        logical.shadow.get other := by
  have touches (heap : Heap) : Heap.Touches rid heap
      (heap.update rid.pageId fun page => (page.deleteTuple rid.slotId.toNat).2) :=
    Heap.touches_update heap rid (fun page => page.length_deleteTuple _)
      fun page _ ne => page.get_deleteTuple_of_ne _ ne
  exact ⟨(touches logical.heap).get apart, (touches logical.shadow).get apart⟩

/-- How `DELETE` and its step end on a tuple: with the same error, by skipping it, or by logging and
burying it. -/
theorem Using.deleteBody_cases (inUse : Using executor logical frameId pageId dirty)
    (live : logical.heap.get ⟨pageId, slotId⟩ = some tuple) (table : String) (schema : Schema)
    (filter : Option Expr) (txnId : UInt32) :
    (∃ failure, deleteBody table schema filter txnId pageId frameId slotId dirty tuple () executor =
      (.error failure, executor)) ∨
    (deleteBody table schema filter txnId pageId frameId slotId dirty tuple () executor =
        (.ok (false, ()), executor) ∧
      Logical.deleteStep table schema filter txnId ⟨pageId, slotId⟩ tuple () logical =
        (.ok (false, ()), logical)) ∨
    ∃ row logged buried change, selectRow schema .star filter tuple = .ok (some row) ∧
      deleteBody table schema filter txnId pageId frameId slotId dirty tuple () executor =
        (.ok (true, ()), (modifyIndexes change buried).2) ∧
      Logical.deleteStep table schema filter txnId ⟨pageId, slotId⟩ tuple () logical =
        (.ok (true, ()), logical.deleteRow table schema txnId ⟨pageId, slotId⟩ row) ∧
      Logged executor logged buried (.delete logical.currentLsn txnId pageId slotId
        ((logical.shadow.get ⟨pageId, slotId⟩).getD [])) ∧
      ∀ oldData, Buries pageId slotId oldData logged.moment buried.moment ↔ oldData = tuple := by
  unfold deleteBody
  rw [ofExcept_selectRow]
  rcases Logical.deleteStep_cases table schema filter txnId ⟨pageId, slotId⟩ tuple logical with
    ⟨failure, selected, -⟩ | ⟨selected, run⟩ | ⟨row, selected, run⟩
  · rw [selected, Fallible.ofExcept_error_bind]
    exact .inl ⟨failure, rfl⟩
  · rw [selected, Fallible.ofExcept_ok_bind]
    exact .inr (.inl ⟨rfl, run⟩)
  · rcases inUse.bury txnId live with ⟨deleted, logged, buried, log, bury, steps, buries⟩
    rw [selected, Fallible.ofExcept_ok_bind]
    dsimp only
    rw [Fallible.bind_ok log, Fallible.bind_ok bury]
    exact .inr (.inr ⟨row, logged, buried, _, rfl, rfl, run, steps, buries⟩)

theorem deleting_body (opened : List LogRecord) (table : String) (schema : Schema)
    (filter : Option Expr) (pageIds : List UInt32) (txnId : UInt32) :
    BodyKeeps (Deleting opened schema filter pageIds) (· ∈ pageIds)
      (deleteBody table schema filter txnId) (Logical.deleteStep table schema filter txnId) where
  fetch := fun pageId deleting =>
    ⟨lasts_told.indifferent.steady.calm.fetchPage pageId _ deleting.told, deleting.copy⟩
  unpin := fun frameId dirty deleting =>
    ⟨lasts_told.indifferent.unpin frameId dirty _ deleting.told, deleting.copy⟩
  ends := by
    rintro executor logical frameId pageId slotId dirty tuple ⟨⟩ inside inUse live deleting ok
    rcases inUse.deleteBody_cases live table schema filter txnId with
      ⟨failure, run⟩ | ⟨run, step⟩ | ⟨row, logged, buried, change, selected, run, step, steps,
        buries⟩
    · rw [run] at ok
      exact absurd ok (by simp [Except.isOk, Except.toBool])
    · rw [run, step]
      exact deleting
    · rw [deleting.copy inside live selected, Option.getD_some] at steps
      have told := deleting.told.bury steps ((buries tuple).mpr rfl)
      rw [run, step]
      refine ⟨lasts_told.congr told rfl rfl, fun {other tuple' row'} listed here chosen => ?_⟩
      have apart : other ≠ ⟨pageId, slotId⟩ := by
        rintro rfl
        exact absurd (here.symm.trans (Logical.get_delete logical.heap ⟨pageId, slotId⟩)) (by simp)
      rcases get_deleteRow apart row logical with ⟨heap, shadow⟩
      rw [heap] at here
      rw [shadow]
      exact deleting.copy listed here chosen

theorem missing_body (opened : List LogRecord) (rid : Rid) (missed : Bytes) (table : String)
    (schema : Schema) (filter : Option Expr) (pageIds : List UInt32) (txnId : UInt32) :
    BodyKeeps (Missing opened rid missed) (· ∈ pageIds)
      (deleteBody table schema filter txnId) (Logical.deleteStep table schema filter txnId) where
  fetch := fun pageId missing =>
    ⟨lasts_grown.indifferent.steady.calm.fetchPage pageId _ missing.grown,
      missing.missed.imp_left fun misses =>
        (lasts_misses.indifferent.steady.calm.fetchPage pageId _ ⟨missing.grown, misses⟩).2⟩
  unpin := fun frameId dirty missing =>
    ⟨lasts_grown.indifferent.unpin frameId dirty _ missing.grown,
      missing.missed.imp_left fun misses =>
      (lasts_misses.indifferent.unpin frameId dirty _ ⟨missing.grown, misses⟩).2⟩
  ends := by
    rintro executor logical frameId pageId slotId dirty tuple ⟨⟩ inside inUse live missing ok
    rcases inUse.deleteBody_cases live table schema filter txnId with
      ⟨failure, run⟩ | ⟨run, step⟩ | ⟨row, logged, buried, change, selected, run, step, steps,
        buries⟩
    · rw [run] at ok
      exact absurd ok (by simp [Except.isOk, Except.toBool])
    · rw [run, step]
      exact missing
    · rw [run, step]
      have grown := missing.grown.grow steps.grows
      refine ⟨lasts_grown.congr grown rfl rfl, ?_⟩
      rcases missing.missed with misses | ⟨here, old, copy, other⟩
      · exact .inl ((misses.grow missing.grown steps.grows).congr rfl rfl)
      · by_cases same : rid = ⟨pageId, slotId⟩
        · -- the row itself: its record has the other bytes
          subst same
          obtain rfl : missed = tuple := Option.some.inj (here.symm.trans live)
          rw [copy, Option.getD_some] at steps
          exact .inl ((missing.grown.miss steps (by rwa [buries])).congr rfl rfl)
        · rcases get_deleteRow same row logical with ⟨heap, shadow⟩
          exact .inr ⟨heap.trans here, old, shadow.trans copy, other⟩

end Scan

section Statements

variable {executor executor' : Executor} {logical : Logical} {opened : List LogRecord}
  {order : HashOrder} {table : String} {schema : Schema} {filter : Option Expr}
  {pageIds : List UInt32}

variable [Crc32]

/-- What a scan in a transaction keeps holds in the end, if it succeeds. -/
theorem Rests.transact_keeps
    {body : UInt32 → UInt32 → FrameId → UInt16 → Bool → Bytes → Unit → Action (Bool × Unit)}
    {step : UInt32 → Rid → Bytes → Unit → Fallible Failure Logical (Bool × Unit)}
    {holds : Executor → Logical → Prop} {kept : Executor → Prop}
    (rests : Rests executor logical) (refines : ∀ txnId, BodyRefines (body txnId) (step txnId))
    (keeps : ∀ txnId, BodyKeeps holds (· ∈ pageIds) (body txnId) (step txnId))
    (indifferent : Indifferent kept) (transacts : Transacts kept) (nodup : pageIds.Nodup)
    (present : ∀ pageId ∈ pageIds, (logical.heap pageId).isSome)
    (begins : holds (onWal WalManager.beginTxn executor).2 logical.beginTxn)
    (ends : ∀ scanned, holds scanned (logical.beginTxn.scan (step logical.nextTxnId)
      (logical.heap.live pageIds) ()).state → kept scanned)
    (ok : (transact body pageIds executor).1.isOk) : kept (transact body pageIds executor).2 := by
  rw [transact] at ok ⊢
  by_cases room : logical.nextTxnId.toNat + 1 < 2 ^ 32
  · rcases rests.reflects.beginTxn room with ⟨begun, begin, reflects, -⟩
    rw [begin] at begins
    rw [Fallible.bind_ok begin] at ok ⊢
    have scan := scanPages_ends (refines logical.nextTxnId) (keeps logical.nextTxnId)
      (fun _ inside => inside) nodup reflects present begins ()
    rw [Fallible.bind_apply] at ok ⊢
    rcases scan with ⟨-, holds⟩ | ⟨⟨failure, failed⟩, -⟩ | ⟨failed, -⟩
    · generalize scanPages (body logical.nextTxnId) pageIds () begun = ended at ok holds ⊢
      rcases ended with ⟨failure | scanned, executor'⟩
      · exact absurd ok (by simp [Except.isOk, Except.toBool])
      · exact indifferent.steady.calm.finish transacts.marks logical.nextTxnId scanned.1 _
          (ends _ (holds rfl))
    · generalize scanPages (body logical.nextTxnId) pageIds () begun = ended at ok failed ⊢
      rcases ended with ⟨failure | scanned, executor'⟩
      · exact absurd ok (by simp [Except.isOk, Except.toBool])
      · simp at failed
    · generalize scanPages (body logical.nextTxnId) pageIds () begun = ended at ok failed ⊢
      rcases ended with ⟨failure | scanned, executor'⟩
      · exact absurd ok (by simp [Except.isOk, Except.toBool])
      · simp at failed
  · rw [Fallible.bind_error (rests.reflects.beginTxn_panic room)] at ok
    exact absurd ok (by simp [Except.isOk, Except.toBool])

/-- The tables of a `DELETE` that succeeds. -/
theorem Rests.execDelete_eq (rests : Rests executor logical)
    (ok : (execDelete table filter executor).1.isOk) :
    ∃ schema pageIds, logical.catalog.get table = some schema ∧
      logical.tablePages.lookup table = some pageIds ∧
      execDelete table filter executor =
        transact (deleteBody table schema filter) pageIds executor := by
  rw [execDelete] at ok ⊢
  cases known : logical.catalog.get table with
  | none =>
      rw [Fallible.bind_error (rests.reflects.schemaOf_none known)] at ok
      exact absurd ok (by simp [Except.isOk, Except.toBool])
  | some schema =>
      rw [Fallible.bind_ok (rests.reflects.schemaOf_some known)] at ok ⊢
      cases listed : logical.tablePages.lookup table with
      | none =>
          rw [Fallible.bind_error (rests.reflects.pagesOf_none listed)] at ok
          exact absurd ok (by simp [Except.isOk, Except.toBool])
      | some pageIds =>
          rw [Fallible.bind_ok (rests.reflects.pagesOf_some listed)]
          exact ⟨schema, pageIds, rfl, rfl, rfl⟩

/-- What `Remembers` says of a row, in the terms of the logical executor. -/
theorem Rests.remembers_iff (rests : Rests executor logical) (usable : logical.Usable)
    (grown : Grown opened executor) (known : logical.catalog.get table = some schema)
    (listed : logical.tablePages.lookup table = some pageIds) :
    executor.Remembers (.delete table filter) ↔ ∀ rid tuple row old, rid.pageId ∈ pageIds →
      logical.heap.get rid = some tuple → selectRow schema .star filter tuple = .ok (some row) →
      firstOld (logical.log.drop opened.length) rid = some old → old = tuple := by
  have catalog : executor.catalog = logical.catalog := rests.reflects.catalog_eq
  have tablePages : executor.tablePages = logical.tablePages := rests.reflects.tablePages_eq
  have log : executor.wal.log = logical.log := rests.reflects.log_eq
  have entries := rests.reflects.entriesOf (usable.present listed)
  simp only [Remembers, sessionLog, catalog, tablePages, log, grown.opened, known, listed,
    Option.some.injEq]
  constructor
  · intro remembers rid tuple row old inside live
    refine remembers schema pageIds rid tuple row old rfl rfl ?_
    rw [entries]
    exact Heap.mem_live.mpr ⟨inside, live⟩
  · rintro remembers _ _ rid tuple row old rfl rfl inside
    rw [entries] at inside
    rcases Heap.mem_live.mp inside with ⟨inside, live⟩
    exact remembers rid tuple row old inside live

/-- A `DELETE` that succeeds and remembers its rows. -/
theorem Rests.told_execDelete (rests : Rests executor logical) (usable : logical.Usable)
    (told : Told opened executor) (lags : Logical.Lags opened.length logical)
    (remembers : executor.Remembers (.delete table filter))
    (ok : (execDelete table filter executor).1.isOk) :
    Told opened (execDelete table filter executor).2 := by
  rcases rests.execDelete_eq ok with ⟨schema, pageIds, known, listed, same⟩
  rw [rests.remembers_iff usable told.toGrown known listed] at remembers
  have copies {rid : Rid} {tuple : Bytes} {row : Row} (inside : rid.pageId ∈ pageIds)
      (live : logical.heap.get rid = some tuple)
      (selected : selectRow schema .star filter tuple = .ok (some row)) :
      logical.shadow.get rid = some tuple := by
    have copy := lags.copy live
    cases first : firstOld (logical.log.drop opened.length) rid with
    | none => simpa [first] using copy
    | some old => simpa [first, remembers rid tuple row old inside live selected first] using copy
  rw [same] at ok ⊢
  exact rests.transact_keeps (delete_refines table schema filter)
    (deleting_body opened table schema filter pageIds) lasts_told.indifferent lasts_told.transacts
    (usable.nodup listed) (usable.present listed)
    ⟨lasts_told.transacts.begins executor told, copies⟩ (fun _ deleting => deleting.told) ok

/-- A `DELETE` that succeeds and does not remember a row. -/
theorem Rests.misses_execDelete {rows : List Row} (rests : Rests executor logical)
    (tidy : Logical.Tidy logical) (grown : Grown opened executor)
    (lags : Logical.Lags opened.length logical)
    (forgets : ¬executor.Remembers (.delete table filter))
    (done : (logical.execDelete table filter).result = .ok rows)
    (ok : (execDelete table filter executor).1.isOk) :
    Misses (execDelete table filter executor).2 := by
  have usable := tidy.usable
  rcases rests.execDelete_eq ok with ⟨schema, pageIds, known, listed, same⟩
  rw [rests.remembers_iff usable grown known listed] at forgets
  simp only [not_forall] at forgets
  rcases forgets with ⟨rid, tuple, row, old, inside, live, selected, first, other⟩
  have copy := lags.copy live
  rw [first, Option.getD_some] at copy
  have gone := (tidy.rewritten_delete known listed done).get rid
  rw [if_pos inside, live, Option.bind_some, Logical.deleteOutcome, selected] at gone
  rw [Logical.execDelete, known, listed] at done gone
  rw [(Logical.transact_eq_ok done).2] at gone
  rw [same] at ok ⊢
  have missed : Grown opened (transact (deleteBody table schema filter) pageIds executor).2 ∧
      Misses (transact (deleteBody table schema filter) pageIds executor).2 := by
    refine rests.transact_keeps (delete_refines table schema filter)
      (missing_body opened rid tuple table schema filter pageIds) lasts_misses.indifferent
      lasts_misses.transacts (usable.nodup listed) (usable.present listed)
      ⟨lasts_grown.transacts.begins executor grown, .inr ⟨live, old, copy, other⟩⟩ ?_ ok
    intro scanned missing
    refine ⟨missing.grown, missing.missed.resolve_right fun still => ?_⟩
    exact absurd (gone.symm.trans still.1) (by simp)
  exact missed.2

variable [Build] {stmt : Statement}

/-- Statements that succeed and remember the rows they delete. -/
theorem Rests.told_execute (rests : Rests executor logical) (usable : logical.Usable)
    (told : Told opened executor) (lags : Logical.Lags opened.length logical)
    (remembers : executor.Remembers stmt) (ok : (execute order stmt executor).1.isOk) :
    Told opened (execute order stmt executor).2 := by
  by_cases deletes : ∃ table filter, stmt = .delete table filter
  · rcases deletes with ⟨table, filter, rfl⟩
    exact rests.told_execDelete usable told lags remembers ok
  · refine lasts_told.indifferent.execute lasts_told.transacts ?_ order executor told
    exact fun table filter same => absurd ⟨table, filter, same⟩ deletes

omit [Crc32] [Build] in
/-- Replaying the log leaves it as it is. -/
theorem log_recover (wal : WalManager) : (WalManager.recover wal).2.log = wal.log := by
  rw [WalManager.recover, get_bind]
  dsimp only
  split
  · rfl
  · simp only [bind_apply, ofExcept_apply]
    rcases WalManager.replay _ WalManager.redoRecord wal.log wal.pages with
      _ | ⟨redonePages, redone⟩
    · rfl
    · dsimp only
      rcases WalManager.replay _ WalManager.undoRecord wal.log.reverse redonePages with _ | undone
      · rfl
      · rfl

omit [Build] in
/-- A session that has just been opened. -/
theorem told_start (order : HashOrder) (files : Files) : Told files.log (start order files).2 := by
  apply lasts_told.indifferent.recover_of_replayed
  have log := log_recover («open» files).loadTables.wal
  refine ⟨⟨⟨_, [], rfl, rfl⟩, log, ?_⟩, ?_⟩
  · intro moment inside
    rw [List.mem_singleton.mp inside]
    exact List.prefix_refl _
  · intro front back lsn txnId pageId slotId oldData found begun
    have whole := congrArg List.length found
    have short : (onWal WalManager.recover («open» files).loadTables).2.wal.log.length ≤
      front.length := begun
    rw [List.length_append, List.length_cons] at whole
    omega

/-- The states of a run in terms of the logical executor: what the log manager's copies hold, and
what is told of the `Delete` records. -/
theorem Reachable.told (reachable : Reachable RemembersRows executor) :
    ∃ logical, Rests executor logical ∧ Logical.Run Logical.Done logical ∧
      Logical.Lags executor.openedLog.length logical ∧ Told executor.openedLog executor := by
  induction reachable with
  | @start order _ executor run =>
      have told := told_start order Files.empty
      rcases start_empty order with ⟨info, executor, same, rests, -⟩
      obtain ⟨-, rfl⟩ := Prod.mk.inj (same.symm.trans run)
      rw [run] at told
      refine ⟨_, rests, .start order, ?_, told.opened.symm ▸ told⟩
      rw [told.opened]
      exact Logical.lags_restart Logical.initial order 0
  | @execute order stmt result executor executor' before run admitted ih =>
      rcases ih with ⟨logical, rests, follows, lags, told⟩
      have sound := follows.sound .inl
      have told' : Told executor.openedLog (Executor.execute order stmt executor).2 :=
        rests.told_execute sound.usable told lags admitted.2 (by rw [run]; exact admitted.1)
      rw [run] at told'
      rcases result with failure | rows
      · exact absurd admitted.1 (by simp [Except.isOk, Except.toBool])
      · rcases rests.execute_ok sound.usable run with ⟨ok, rests', -⟩
        refine ⟨_, rests', follows.execute rests.bounded order stmt ⟨rows, ok⟩, ?_,
          told'.opened.symm ▸ told'⟩
        rw [told'.opened]
        exact lags.execute sound.tidy rests.bounded order stmt
  | @restart order _ executor executor' before run ih =>
      rcases ih with ⟨logical, rests, follows, -, -⟩
      have told := told_start order executor.files
      rw [run] at told
      rcases rests.restart (follows.sound .inl) order with ⟨info, executor', same, rests', -⟩
      obtain ⟨-, rfl⟩ := Prod.mk.inj (same.symm.trans run)
      refine ⟨_, rests', follows.restart rests.inside order, ?_, told.opened.symm ▸ told⟩
      have log : executor.files.log = logical.log := rests.reflects.log_eq
      rw [told.opened, log]
      exact Logical.lags_restart logical order _

/-- In runs whose `DELETE`s remember their rows, every `Delete` record has the bytes that were
buried. -/
theorem tellsDeletes_of_reachable (reachable : Reachable RemembersRows executor) :
    executor.TellsDeletes := by
  rcases reachable.told with ⟨logical, -, -, -, told⟩
  exact told.tells

/-- The first `DELETE` that does not remember its rows is the first one with a wrong record. -/
theorem not_tellsDeletes_of_forgets {rows : List Row} (reachable : Reachable RemembersRows executor)
    (run : execute order stmt executor = (.ok rows, executor'))
    (forgets : ¬executor.Remembers stmt) :
    ¬executor'.TellsDeletes := by
  rcases reachable.told with ⟨logical, rests, follows, lags, told⟩
  have sound := follows.sound .inl
  rcases rests.execute_ok sound.usable run with ⟨done, -, -⟩
  cases stmt with
  | delete table filter =>
      have misses := rests.misses_execDelete sound.tidy told.toGrown lags forgets done
        (congrArg (fun ended => ended.1.isOk) run)
      have ended : (execDelete table filter executor).2 = executor' := congrArg Prod.snd run
      exact (ended ▸ misses).not_tells
  | _ => exact absurd trivial forgets

end Statements

/-- A session without `DELETE`s. -/
theorem Session.remembers {stmts : List Statement} [Crc32] [Build] {executor : Executor}
    (session : Session Succeeds stmts executor)
    (others : ∀ stmt ∈ stmts, ∀ table filter, stmt ≠ .delete table filter) :
    Session RemembersRows stmts executor := by
  induction session with
  | start run => exact .start run
  | @execute order stmts stmt result executor executor' _ run admitted ih =>
      refine .execute (ih fun stmt inside => others stmt (by simp [inside])) run ⟨admitted, ?_⟩
      cases stmt with
      | delete table filter =>
          exact absurd rfl (others (.delete table filter) (by simp) table filter)
      | _ => exact trivial

/-- A session on an empty directory has recorded all of its log. -/
theorem Session.openedLog [Crc32] [Build] {admits : Admits} {stmts : List Statement}
    {executor : Executor} (session : Session admits stmts executor) : Grown [] executor := by
  induction session with
  | @start order _ _ run =>
      have told := told_start order Files.empty
      rw [run] at told
      exact told.toGrown
  | @execute order _ stmt _ executor executor' _ run _ ih =>
      have deletes (txnId pageId : UInt32) (slotId : UInt16) :
          Keeps (Grown []) (onWal (WalManager.logDelete txnId pageId slotId)) := by
        intro executor grown
        rcases (WalManager.appends_logDelete executor.wal txnId pageId slotId).log with
          same | ⟨record, -, log⟩
        · exact lasts_grown.recordHere grown rfl same
        · exact grown.grow (grows_record rfl log)
      have kept : Grown [] (Executor.execute order stmt executor).2 := by
        refine lasts_grown.indifferent.execute lasts_grown.transacts ?_ order executor ih
        exact fun table filter _ =>
          lasts_grown.indifferent.steady.execDelete lasts_grown.transacts.marks deletes table filter
      rwa [run] at kept

end Executor

/-!
## A row that was updated

The copy still has the row from before the update when the row is deleted.
-/

namespace Sample

attribute [local instance] Crc32.ieee Build.debug

open Executor

/-- `DELETE FROM t` -/
def clear : Statement := .delete "t" none

/-- The row `(1, 9)`, inserted as `(1, 7)`. -/
def assignedOne : Logical := (insertedOne.execute .ofInsertion assignNine).state

theorem attains_assignedOne : Attains [create, insertSeven, assignNine] assignedOne := by
  have started : Attains [] opened := attains_start .ofInsertion
  have first := started.execute .ofInsertion create ⟨by decide, by decide⟩ rfl
  have second := first.execute .ofInsertion insertSeven ⟨by decide, by decide⟩ rfl
  exact second.execute .ofInsertion assignNine ⟨by decide, by decide⟩ rfl

theorem remembers_insertedOne {executor : Executor}
    (session : Session Succeeds [create, insertSeven] executor) (rests : Rests executor insertedOne)
    (usable : insertedOne.Usable) : executor.Remembers clear := by
  have known : insertedOne.catalog.get "t" =
    some (Schema.new "t" [⟨"id", .int, true⟩, ⟨"a", .int, false⟩]) := rfl
  have listed : insertedOne.tablePages.lookup "t" = some [0] := rfl
  rw [clear, rests.remembers_iff usable session.openedLog known listed]
  rintro rid tuple row old - - - ⟨⟩

/-- `DELETE FROM t` on a row that was never updated. -/
theorem tellsDeletes_insertedOne : ∃ executor : Executor, Reachable RemembersRows executor ∧
    (∃ lsn oldData, .delete lsn 2 0 0 oldData ∈ executor.wal.log) ∧
    executor.TellsDeletes := by
  have started : Attains [] opened := attains_start .ofInsertion
  have first := started.execute .ofInsertion create ⟨by decide, by decide⟩ rfl
  rcases first.execute .ofInsertion insertSeven ⟨by decide, by decide⟩ rfl with
    ⟨executor, session, rests, follows, idle⟩
  have usable := (follows.sound .inl).usable
  have others : ∀ stmt ∈ [create, insertSeven], ∀ table filter, stmt ≠ .delete table filter := by
    rintro stmt inside table filter rfl
    simp [create, insertSeven] at inside
  rcases rests.execute_done usable ⟨by decide, by decide⟩ idle.ready
    (show (insertedOne.execute .ofInsertion clear).result = .ok [] from rfl) with ⟨deleted, run⟩
  have reachable : Reachable RemembersRows deleted :=
    .execute (session.remembers others).reachable run
      ⟨rfl, remembers_insertedOne session rests usable⟩
  refine ⟨deleted, reachable, ?_, tellsDeletes_of_reachable reachable⟩
  have log : deleted.wal.log = _ := (rests.execute_ok usable run).2.1.reflects.log_eq
  rw [log]
  exact ⟨4, (insertedOne.heap.get ⟨0, 0⟩).getD [], by decide⟩

theorem forgets_assignedOne {executor : Executor}
    (session : Session Succeeds [create, insertSeven, assignNine] executor)
    (rests : Rests executor assignedOne) (usable : assignedOne.Usable) :
    ¬executor.Remembers clear := by
  have known : assignedOne.catalog.get "t" =
    some (Schema.new "t" [⟨"id", .int, true⟩, ⟨"a", .int, false⟩]) := rfl
  have listed : assignedOne.tablePages.lookup "t" = some [0] := rfl
  rw [clear, rests.remembers_iff usable session.openedLog known listed]
  intro remembers
  have same := remembers ⟨0, 0⟩ _ _ _ (by decide) rfl rfl rfl
  exact absurd same (by decide)

/-- `UPDATE t SET a = 9` and then `DELETE FROM t`. -/
theorem assigned_deleted_tells_old : ∃ executor : Executor, Reachable Succeeds executor ∧
    ¬executor.TellsDeletes := by
  rcases attains_assignedOne with ⟨executor, session, rests, follows, idle⟩
  have usable := (follows.sound .inl).usable
  have others : ∀ stmt ∈ [create, insertSeven, assignNine], ∀ table filter,
      stmt ≠ .delete table filter := by
    rintro stmt inside table filter rfl
    simp [create, insertSeven, assignNine] at inside
  rcases rests.execute_done usable ⟨by decide, by decide⟩ idle.ready
    (show (assignedOne.execute .ofInsertion clear).result = .ok [] from rfl) with ⟨deleted, run⟩
  exact ⟨deleted, .execute session.reachable run rfl,
    not_tellsDeletes_of_forgets (session.remembers others).reachable run
      (forgets_assignedOne session rests usable)⟩

end Sample

end VenomDb
