import VenomDb.Engine.Refinement

/-!
# The log tells the heap

`Heap.ofLog` redoes every data record of a log, whatever became of its transaction.
`Explains` says that this gives the heap, and that recovery, which only redoes the
records of committed transactions, would give the same: a record of any other
transaction changes nothing at its place in the log.
-/

namespace VenomDb

namespace Heap

/-- REDO of one record. -/
def redo (heap : Heap) : LogRecord → Heap
  | .insert _ _ pageId _ data =>
      let page := (heap pageId).getD .empty
      Function.update heap pageId (some (if page.HasRoom data.length then page.push data else page))
  | .delete _ _ pageId slotId _ =>
      heap.update pageId fun page => (page.deleteTuple slotId.toNat).2
  | .update _ _ pageId slotId _ newData =>
      Function.update heap pageId
        (some (((heap pageId).getD .empty).updateTuple slotId.toNat newData).2)
  | _ => heap

/-- UNDO of one record. -/
def undo (heap : Heap) : LogRecord → Heap
  | .insert _ _ pageId slotId _ =>
      heap.update pageId fun page => (page.deleteTuple slotId.toNat).2
  | .delete _ _ pageId _ oldData =>
      let page := (heap pageId).getD .empty
      Function.update heap pageId
        (some (if page.HasRoom oldData.length then page.push oldData else page))
  | .update _ _ pageId slotId oldData _ =>
      heap.update pageId fun page => (page.updateTuple slotId.toNat oldData).2
  | _ => heap

/-- The heap after REDO of the committed records of a log. -/
def redone (log : List LogRecord) : Heap :=
  log.foldl (fun heap record =>
    if WalManager.isRedone (WalManager.committed log) record then heap.redo record else heap)
      Heap.empty

/-- The record belongs to a transaction that was begun and not ended. -/
def isUndone (log : List LogRecord) (record : LogRecord) : Bool :=
  record.txnId.any fun txnId => txnId ∈ WalManager.incomplete log

/-- The heap that recovery rebuilds from a log. -/
def recovered (log : List LogRecord) : Heap :=
  log.reverse.foldl (fun heap record => if isUndone log record then heap.undo record else heap)
    (redone log)

/-- The heap after every data record of a log. -/
def ofLog (log : List LogRecord) : Heap := log.foldl redo Heap.empty

@[simp]
theorem redo_withLsn (heap : Heap) (lsn : UInt64) (record : LogRecord) :
    heap.redo (record.withLsn lsn) = heap.redo record := by
  cases record <;> rfl

theorem redo_of_not_data {record : LogRecord} (control : record.isData = false) (heap : Heap) :
    heap.redo record = heap := by
  cases record <;> simp_all [redo, LogRecord.isData]

theorem ofLog_concat (log : List LogRecord) (record : LogRecord) :
    ofLog (log ++ [record]) = (ofLog log).redo record := by simp [ofLog]

end Heap

/-- A record that REDO can read back without a panic. -/
def LogRecord.Short : LogRecord → Prop
  | .insert _ _ _ _ data => data.length < 2 ^ 16
  | _ => True

instance : DecidablePred LogRecord.Short
  | .insert _ _ _ _ data => inferInstanceAs (Decidable (data.length < 2 ^ 16))
  | .begin .. | .delete .. | .update .. | .commit .. | .abort .. | .checkpoint .. => .isTrue trivial

/-- A record that UNDO can read back without a panic. -/
def LogRecord.Undoable : LogRecord → Prop
  | .delete _ _ _ _ oldData => oldData.length < 2 ^ 16
  | _ => True

theorem LogRecord.undoable_of_not_data {record : LogRecord} (control : record.isData = false) :
    record.Undoable := by
  cases record with
  | delete => simp [LogRecord.isData] at control
  | _ => trivial

/-- The log tells the heap; `pending` is a transaction that is still to be committed. -/
structure Explains (pending : Option UInt32) (log : List LogRecord) (heap : Heap) : Prop where
  replayed : Heap.ofLog log = heap
  finished : ∀ {front record back}, log = front ++ record :: back → record.isData = true →
    ∃ txnId, record.txnId = some txnId ∧
      (txnId ∈ WalManager.committed log ∨ pending = some txnId ∨
        txnId ∈ WalManager.aborted log ∧ (Heap.ofLog front).redo record = Heap.ofLog front)
  short : ∀ record ∈ log, record.Short

namespace WalManager

theorem committed_append (front back : List LogRecord) :
    committed (front ++ back) = committed front ∪ committed back := by
  simp [committed, List.filterMap_append]

theorem aborted_append (front back : List LogRecord) :
    aborted (front ++ back) = aborted front ∪ aborted back := by
  simp [aborted, List.filterMap_append]

end WalManager

namespace Explains

variable {pending : Option UInt32} {log : List LogRecord} {heap : Heap}

/-- The places of a log with one more record. -/
theorem split_concat {record last : LogRecord} {front back : List LogRecord}
    (split : log ++ [last] = front ++ record :: back) :
    (∃ back', log = front ++ record :: back') ∨ (front = log ∧ record = last) := by
  rcases List.eq_nil_or_concat back with rfl | ⟨back', final, rfl⟩
  · obtain ⟨rfl, same⟩ := List.append_inj' split rfl
    exact .inr ⟨rfl, by simpa using same.symm⟩
  · left
    refine ⟨back', ?_⟩
    rw [List.concat_eq_append, ← List.cons_append, ← List.append_assoc] at split
    exact (List.append_inj' split rfl).1

theorem nil : Explains none [] Heap.empty := by
  refine ⟨rfl, ?_, by simp⟩
  intro front record back split
  simp at split

theorem weaken (explains : Explains none log heap) (pending : Option UInt32) :
    Explains pending log heap := by
  refine ⟨explains.replayed, fun split isData => ?_, explains.short⟩
  rcases explains.finished split isData with ⟨txnId, same, committed | missing | idle⟩
  · exact ⟨txnId, same, .inl committed⟩
  · simp at missing
  · exact ⟨txnId, same, .inr (.inr idle)⟩

/-- Appending a record keeps what was said about the others. -/
theorem concat {last : LogRecord} {heap' : Heap} (explains : Explains pending log heap)
    (redone : heap.redo last = heap') (short : last.Short)
    (finished : last.isData = true → ∃ txnId, last.txnId = some txnId ∧
      (txnId ∈ WalManager.committed (log ++ [last]) ∨ pending = some txnId ∨
        txnId ∈ WalManager.aborted (log ++ [last]) ∧ heap.redo last = heap)) :
    Explains pending (log ++ [last]) heap' := by
  refine ⟨?_, fun split isData => ?_, ?_⟩
  · rw [Heap.ofLog_concat, explains.replayed, redone]
  · rcases split_concat split with ⟨back', old⟩ | ⟨rfl, rfl⟩
    · rcases explains.finished old isData with
        ⟨txnId, same, committed | isPending | ⟨aborted, idle⟩⟩
      · exact ⟨txnId, same, .inl (by simp [WalManager.committed_append, committed])⟩
      · exact ⟨txnId, same, .inr (.inl isPending)⟩
      · exact ⟨txnId, same, .inr (.inr ⟨by simp [WalManager.aborted_append, aborted], idle⟩)⟩
    · rw [explains.replayed]
      exact finished isData
  · intro record inside
    rcases List.mem_append.mp inside with old | new
    · exact explains.short record old
    · obtain rfl : record = last := by simpa using new
      exact short

theorem control {last : LogRecord} (explains : Explains pending log heap)
    (control : last.isData = false) : Explains pending (log ++ [last]) heap := by
  refine explains.concat (Heap.redo_of_not_data control heap) ?_ (by simp [control])
  cases last <;> simp_all [LogRecord.Short, LogRecord.isData]

/-- A data record of the pending transaction. -/
theorem data {txnId : UInt32} (explains : Explains (some txnId) log heap) (last : LogRecord)
    (same : last.txnId = some txnId) (short : last.Short) :
    Explains (some txnId) (log ++ [last]) (heap.redo last) :=
  explains.concat rfl short fun _ => ⟨txnId, same, .inr (.inl rfl)⟩

theorem commit {txnId : UInt32} {lsn : UInt64} (explains : Explains (some txnId) log heap) :
    Explains none (log ++ [.commit lsn txnId]) heap := by
  have committed : Explains (some txnId) (log ++ [.commit lsn txnId]) heap := explains.control rfl
  refine ⟨committed.replayed, fun split isData => ?_, committed.short⟩
  rcases committed.finished split isData with ⟨other, same, isCommitted | isPending | idle⟩
  · exact ⟨other, same, .inl isCommitted⟩
  · obtain rfl : txnId = other := by simpa using isPending
    exact ⟨txnId, same, .inl (by simp [WalManager.committed])⟩
  · exact ⟨other, same, .inr (.inr idle)⟩

/-- An aborted transaction whose only data record changes nothing. -/
theorem refuse {txnId : UInt32} {lsn : UInt64} (explains : Explains none log heap)
    (record : LogRecord) (same : record.txnId = some txnId) (short : record.Short)
    (idle : heap.redo record = heap) :
    Explains none (log ++ [record] ++ [.abort lsn txnId]) heap := by
  have pending := (explains.weaken (some txnId)).data record same short
  rw [idle] at pending
  have aborted : Explains (some txnId) (log ++ [record] ++ [.abort lsn txnId]) heap :=
    pending.control rfl
  refine ⟨aborted.replayed, fun split isData => ?_, aborted.short⟩
  rcases split_concat split with ⟨back', old⟩ | ⟨rfl, rfl⟩
  · rcases split_concat old with ⟨back'', older⟩ | ⟨rfl, rfl⟩
    · rcases explains.finished older isData with
        ⟨other, same, committed | missing | ⟨aborted, idle⟩⟩
      · exact ⟨other, same, .inl (by simp [WalManager.committed_append, committed])⟩
      · simp at missing
      · exact ⟨other, same, .inr (.inr ⟨by simp [WalManager.aborted_append, aborted], idle⟩)⟩
    · refine ⟨txnId, same, .inr (.inr ⟨by simp [WalManager.aborted], ?_⟩)⟩
      rw [explains.replayed, idle]
  · simp [LogRecord.isData] at isData

/-- Redoing the committed records only gives the same heap. -/
theorem redone (explains : Explains none log heap) : Heap.redone log = heap := by
  have fronts (front back : List LogRecord) (split : log = front ++ back) :
      front.foldl (fun heap record =>
        if WalManager.isRedone (WalManager.committed log) record then heap.redo record else heap)
        Heap.empty = Heap.ofLog front := by
    induction front using List.reverseRecOn generalizing back with
    | nil => rfl
    | append_singleton front record ih =>
        rw [List.append_assoc] at split
        rw [List.foldl_append, ih _ split, Heap.ofLog_concat]
        simp only [List.foldl_cons, List.foldl_nil]
        split_ifs with redone
        · rfl
        · by_cases isData : record.isData = true
          · rcases explains.finished split isData with
              ⟨txnId, same, committed | missing | ⟨-, idle⟩⟩
            · exact absurd (by simp [WalManager.isRedone, isData, same, committed]) redone
            · simp at missing
            · exact idle.symm
          · rw [Heap.redo_of_not_data (by simpa using isData)]
  rw [Heap.redone, fronts log [] (by simp), explains.replayed]

/-- Records at the end of the log that belong to no committed transaction are not redone. -/
theorem redone_append {tail : List LogRecord} (explains : Explains none log heap)
    (uncommitted : WalManager.committed tail = ∅)
    (fresh : ∀ record ∈ tail, WalManager.isRedone (WalManager.committed log) record = false) :
    Heap.redone (log ++ tail) = heap := by
  have committed : WalManager.committed (log ++ tail) = WalManager.committed log := by
    rw [WalManager.committed_append, uncommitted, Finset.union_empty]
  have skipped (records : List LogRecord) (inside : ∀ record ∈ records, record ∈ tail)
    (heap : Heap) :
      records.foldl (fun heap record =>
        if WalManager.isRedone (WalManager.committed log) record then heap.redo record else heap)
        heap = heap := by
    induction records with
    | nil => rfl
    | cons record records ih =>
        rw [List.foldl_cons, fresh record (inside record (by simp)), if_neg (by simp)]
        exact ih fun other here => inside other (by simp [here])
  rw [Heap.redone, committed, List.foldl_append, skipped tail (fun _ => id)]
  exact explains.redone

/-- Nothing is undone: a data record of a transaction without an end is of no known one. -/
theorem not_undone (explains : Explains none log heap) {record : LogRecord} (inside : record ∈ log)
    (undone : Heap.isUndone log record) : record.isData = false := by
  by_contra isData
  rcases List.append_of_mem inside with ⟨front, back, split⟩
  rcases explains.finished split (by simpa using isData) with ⟨txnId, same, finished⟩
  simp only [Heap.isUndone, same, Option.any_some, decide_eq_true_eq, WalManager.incomplete,
    Finset.mem_filter] at undone
  rcases finished with committed | missing | ⟨aborted, -⟩
  · exact undone.2.1 committed
  · simp at missing
  · exact undone.2.2 aborted

end Explains

namespace WalManager

variable {pages : WalPages} {heap : Heap}

/-- A tuple is appended to a page of the log manager, if it fits. -/
theorem insertTuple_refines (shadows : ∀ pageId, Shadows (pages.lookup pageId) (heap pageId))
    (pageId : UInt32) {data : Bytes} (short : data.length < 2 ^ 16) :
    ∃ slotId page, (entry pages pageId).insertTuple data = .ok (slotId, page) ∧
      ∀ other, Shadows ((pages.insert pageId page).lookup other)
        (Function.update heap pageId
          (some (if ((heap pageId).getD .empty).HasRoom data.length then
            ((heap pageId).getD .empty).push data else (heap pageId).getD .empty)) other) := by
  have outcome := (Executor.represents_entry shadows pageId).insertTuple_eq data
  rw [SlottedPage.insertTuple, Nat.mod_eq_of_lt short] at outcome
  by_cases room : ((heap pageId).getD .empty).HasRoom data.length
  · rw [if_pos room, if_pos short] at outcome
    rcases outcome with ⟨page, -, represents, run⟩
    rw [if_pos room]
    exact ⟨_, page, run, Executor.shadows_insert shadows represents⟩
  · rw [if_neg room] at outcome
    rw [if_neg room]
    exact ⟨none, _, outcome,
      Executor.shadows_insert shadows (Executor.represents_entry shadows pageId)⟩

/-- A tuple of a page of the log manager is deleted, if the page is there. -/
theorem deleteTuple_refines (shadows : ∀ pageId, Shadows (pages.lookup pageId) (heap pageId))
    (pageId : UInt32) (slotId : UInt16) :
    pages.lookup pageId = none ∧
        (heap.update pageId fun page => (page.deleteTuple slotId.toNat).2) = heap ∨
    ∃ page deleted page', pages.lookup pageId = some page ∧
      page.deleteTuple slotId = .ok (deleted, page') ∧
      ∀ other, Shadows ((pages.insert pageId page').lookup other)
        (heap.update pageId (fun page => (page.deleteTuple slotId.toNat).2) other) := by
  rcases (shadows pageId).cases with ⟨found, missing⟩ | ⟨page, abstract, found, present, represents⟩
  · left
    rw [Heap.update, missing, Option.map_none, ← missing, Function.update_eq_self]
    exact ⟨found, rfl⟩
  · right
    rcases represents.deleteTuple_eq slotId with ⟨page', -, represents', run, -⟩
    refine ⟨page, _, page', found, run, ?_⟩
    rw [Heap.update, present, Option.map_some]
    exact Executor.shadows_insert shadows represents'

theorem redoRecord_refines (shadows : ∀ pageId, Shadows (pages.lookup pageId) (heap pageId))
    {record : LogRecord} (short : record.Short) :
    ∃ pages' count, redoRecord record pages = .ok (pages', count) ∧
      ∀ pageId, Shadows (pages'.lookup pageId) (heap.redo record pageId) := by
  cases record with
  | insert lsn txnId pageId slotId data =>
      rcases insertTuple_refines shadows pageId short with ⟨slot, page, run, shadows'⟩
      refine ⟨pages.insert pageId page, 1, ?_, shadows'⟩
      simp [redoRecord, run, bind, Except.bind, pure, Except.pure]
  | delete lsn txnId pageId slotId oldData =>
      rcases deleteTuple_refines shadows pageId slotId with
        ⟨found, same⟩ | ⟨page, deleted, page', found, run, shadows'⟩
      · refine ⟨pages, 0, by simp [redoRecord, found, pure, Except.pure], ?_⟩
        rw [Heap.redo, same]
        exact shadows
      · refine ⟨pages.insert pageId page', 1, ?_, shadows'⟩
        simp [redoRecord, found, run, bind, Except.bind, pure, Except.pure]
  | update lsn txnId pageId slotId oldData newData =>
      rcases (Executor.represents_entry shadows pageId).updateTuple_eq slotId newData with
        ⟨page, -, represents, run, -⟩
      refine ⟨pages.insert pageId page, 1, ?_, Executor.shadows_insert shadows represents⟩
      simp [redoRecord, run, bind, Except.bind, pure, Except.pure]
  | begin lsn txnId => exact ⟨pages, 0, rfl, shadows⟩
  | commit lsn txnId => exact ⟨pages, 0, rfl, shadows⟩
  | abort lsn txnId => exact ⟨pages, 0, rfl, shadows⟩
  | checkpoint lsn => exact ⟨pages, 0, rfl, shadows⟩

theorem undoRecord_refines (shadows : ∀ pageId, Shadows (pages.lookup pageId) (heap pageId))
    {record : LogRecord} (undoable : record.Undoable) :
    ∃ pages' count, undoRecord record pages = .ok (pages', count) ∧
      ∀ pageId, Shadows (pages'.lookup pageId) (heap.undo record pageId) := by
  cases record with
  | insert lsn txnId pageId slotId data =>
      rcases deleteTuple_refines shadows pageId slotId with
        ⟨found, same⟩ | ⟨page, deleted, page', found, run, shadows'⟩
      · refine ⟨pages, 0, by simp [undoRecord, found, pure, Except.pure], ?_⟩
        rw [Heap.undo, same]
        exact shadows
      · refine ⟨pages.insert pageId page', 1, ?_, shadows'⟩
        simp [undoRecord, found, run, bind, Except.bind, pure, Except.pure]
  | delete lsn txnId pageId slotId oldData =>
      rcases insertTuple_refines shadows pageId undoable with ⟨slot, page, run, shadows'⟩
      refine ⟨pages.insert pageId page, 1, ?_, shadows'⟩
      simp [undoRecord, run, bind, Except.bind, pure, Except.pure]
  | update lsn txnId pageId slotId oldData newData =>
      rcases (shadows pageId).cases with
        ⟨found, missing⟩ | ⟨page, abstract, found, present, represents⟩
      · refine ⟨pages, 0, by simp [undoRecord, found, pure, Except.pure], ?_⟩
        rw [Heap.undo, Heap.update, missing, Option.map_none, ← missing, Function.update_eq_self]
        exact shadows
      · rcases represents.updateTuple_eq slotId oldData with ⟨page', -, represents', run, -⟩
        refine ⟨pages.insert pageId page', 1, ?_, ?_⟩
        · simp [undoRecord, found, run, bind, Except.bind, pure, Except.pure]
        · rw [Heap.undo, Heap.update, present, Option.map_some]
          exact Executor.shadows_insert shadows represents'
  | begin lsn txnId => exact ⟨pages, 0, rfl, shadows⟩
  | commit lsn txnId => exact ⟨pages, 0, rfl, shadows⟩
  | abort lsn txnId => exact ⟨pages, 0, rfl, shadows⟩
  | checkpoint lsn => exact ⟨pages, 0, rfl, shadows⟩

/-- A loop of the recovery, on pages and on their lists of tuples. -/
theorem replay_refines (guard : LogRecord → Bool)
    (step : LogRecord → WalPages → Except Failure (WalPages × ℕ))
    (abstract : Heap → LogRecord → Heap) {records : List LogRecord}
    (steps : ∀ record ∈ records, guard record = true → ∀ pages heap,
      (∀ pageId, Shadows (pages.lookup pageId) (heap pageId)) →
      ∃ pages' count, step record pages = .ok (pages', count) ∧
        ∀ pageId, Shadows (pages'.lookup pageId) (abstract heap record pageId))
    (shadows : ∀ pageId, Shadows (pages.lookup pageId) (heap pageId)) :
    ∃ pages' count, replay guard step records pages = .ok (pages', count) ∧
      ∀ pageId, Shadows (pages'.lookup pageId)
        (records.foldl (fun heap record => if guard record then abstract heap record else heap) heap
          pageId) := by
  induction records generalizing pages heap with
  | nil => exact ⟨pages, 0, rfl, shadows⟩
  | cons record records ih =>
      have rest : ∀ other ∈ records, guard other = true → _ :=
        fun other inside => steps other (by simp [inside])
      by_cases guarded : guard record
      · rcases steps record (by simp) guarded _ _ shadows with ⟨pages', count, run, shadows'⟩
        rcases ih rest shadows' with ⟨pages'', counts, runs, shadows''⟩
        refine ⟨pages'', count + counts, ?_, ?_⟩
        · simp [replay, guarded, run, runs, bind, Except.bind, pure, Except.pure]
        · simpa [guarded] using shadows''
      · rcases ih rest shadows with ⟨pages', counts, runs, shadows'⟩
        exact ⟨pages', counts, by simp [replay, guarded, runs], by simpa [guarded] using shadows'⟩

/-- One more record is replayed. -/
theorem replay_concat {guard : LogRecord → Bool}
    {step : LogRecord → WalPages → Except Failure (WalPages × ℕ)} {front : List LogRecord}
    {record : LogRecord} {between after : WalPages} {count more : ℕ}
    (run : replay guard step front pages = .ok (between, count)) (guarded : guard record = true)
    (stepped : step record between = .ok (after, more)) :
    replay guard step (front ++ [record]) pages = .ok (after, count + more) := by
  induction front generalizing pages count with
  | nil =>
      obtain ⟨rfl, rfl⟩ := Prod.mk.inj (Except.ok.inj run)
      simp [replay, guarded, stepped, bind, Except.bind, pure, Except.pure]
  | cons first front ih =>
      rw [List.cons_append, replay] at *
      split_ifs at run ⊢ with passes
      · rcases Fallible.except_bind_eq_ok run with ⟨⟨pages', count'⟩, here, rest⟩
        rcases Fallible.except_bind_eq_ok rest with ⟨⟨pages'', counts⟩, runs, same⟩
        obtain ⟨rfl, rfl⟩ := Prod.mk.inj (Except.ok.inj same)
        simp [here, ih runs, bind, Except.bind, pure, Except.pure, Nat.add_assoc]
      · exact ih run

/-- One more record is passed over. -/
theorem replay_concat_of_not {guard : LogRecord → Bool}
    {step : LogRecord → WalPages → Except Failure (WalPages × ℕ)} {front : List LogRecord}
    {record : LogRecord} (passed : guard record = false) :
    replay guard step (front ++ [record]) pages = replay guard step front pages := by
  induction front generalizing pages with
  | nil => simp [replay, passed]
  | cons first front ih => simp only [List.cons_append, replay, ih]

/-- Recovery is its two loops. -/
theorem recover_of_loops {wal : WalManager} {redonePages undonePages : WalPages} {redone undone : ℕ}
    (redo : replay (isRedone (committed wal.log)) redoRecord wal.log wal.pages =
      .ok (redonePages, redone))
    (undo : replay (Heap.isUndone wal.log) undoRecord wal.log.reverse redonePages =
      .ok (undonePages, undone)) :
    recover wal = (.ok ⟨redone, undone,
      ((wal.log.reverse.filter (Heap.isUndone wal.log)).filterMap LogRecord.txnId).toFinset⟩,
      { wal with pages := undonePages }) := by
  have undo : replay (fun record => record.txnId.any fun txnId => txnId ∈ incomplete wal.log)
      undoRecord wal.log.reverse redonePages = .ok (undonePages, undone) := undo
  rw [recover, Fallible.get_bind]
  by_cases empty : wal.log.isEmpty = true
  · have none : wal.log = [] := List.isEmpty_iff.mp empty
    rw [none] at redo undo
    obtain ⟨rfl, rfl⟩ := Prod.mk.inj (Except.ok.inj redo)
    obtain ⟨rfl, rfl⟩ := Prod.mk.inj (Except.ok.inj undo)
    have nothing : wal.log.reverse.filter (Heap.isUndone wal.log) = [] := by simp [none]
    rw [if_pos empty, nothing]
    rfl
  · rw [if_neg empty]
    simp only [redo, undo, Fallible.ofExcept_ok_bind, Fallible.modify_bind]
    rfl

/-- Recovery of a log rebuilds the pages of a heap, and reports the transactions without an end. -/
def Replays (log : List LogRecord) (heap : Heap) : Prop :=
  ∃ report pages, recover (new log) = (.ok report, { new log with pages := pages }) ∧
    report.incompleteTxns = incomplete log ∧
    ∀ pageId, Shadows (pages.lookup pageId) (heap pageId)

/-- The transactions that are rolled back are those without an end. -/
theorem reported_eq (log : List LogRecord) :
    ((log.reverse.filter (Heap.isUndone log)).filterMap LogRecord.txnId).toFinset =
      incomplete log := by
  ext txnId
  simp only [List.mem_toFinset, List.mem_filterMap, List.mem_filter, List.mem_reverse]
  constructor
  · rintro ⟨record, ⟨-, undone⟩, same⟩
    simpa [Heap.isUndone, same] using undone
  · intro unfinished
    have started : txnId ∈ started log := (Finset.mem_filter.mp unfinished).1
    simp only [WalManager.started, List.mem_toFinset, List.mem_filterMap] at started
    rcases started with ⟨record, inside, same⟩
    cases record with
    | begin lsn other =>
        obtain rfl : other = txnId := by simpa using same
        exact ⟨_, ⟨inside, by simpa [Heap.isUndone, LogRecord.txnId] using unfinished⟩, rfl⟩
    | _ => simp at same

/-- Recovery does REDO and UNDO on the heap. -/
theorem replays_recovered {log : List LogRecord} (short : ∀ record ∈ log, record.Short)
    (undoable : ∀ record ∈ log, Heap.isUndone log record = true → record.Undoable) :
    Replays log (Heap.recovered log) := by
  have blank : ∀ pageId, Shadows ((∅ : WalPages).lookup pageId) (Heap.empty pageId) :=
    fun pageId => trivial
  rcases replay_refines (isRedone (committed log)) redoRecord Heap.redo
    (fun record inside _ _ _ shadows => redoRecord_refines shadows (short record inside)) blank with
    ⟨pages, redone, redo, shadows⟩
  rcases replay_refines (Heap.isUndone log) undoRecord Heap.undo
    (fun record inside guarded _ _ shadows =>
      undoRecord_refines shadows (undoable record (List.mem_reverse.mp inside) guarded))
        shadows with
    ⟨pages', undone, undo, shadows'⟩
  have run : recover (new log) = _ := recover_of_loops redo undo
  exact ⟨_, pages', run, reported_eq log, shadows'⟩

section Calls

variable {wal : WalManager} {copy : Heap}

/-- What `log_insert` leaves: the tuple is on the copy of the page and in the log, or not. -/
theorem logInsert_ends (shadows : ∀ pageId, Shadows (wal.pages.lookup pageId) (copy pageId))
    (txnId pageId : UInt32) (data : Bytes) :
    (((copy pageId).getD .empty).HasRoom data.length ∧ data.length < 2 ^ 16 ∧
      ∃ page, Represents page.data (((copy pageId).getD .empty).push data) ∧
        (logInsert txnId pageId data wal).2 = append (.insert 0 txnId pageId
          (UInt16.ofNat ((copy pageId).getD .empty).cells.length) data)
          { wal with pages := wal.pages.insert pageId page }) ∨
    (logInsert txnId pageId data wal).2 = wal ∨
    (logInsert txnId pageId data wal).2 =
      { wal with pages := wal.pages.insert pageId (entry wal.pages pageId) } := by
  have outcome := (Executor.represents_entry shadows pageId).insertTuple_eq data
  rw [SlottedPage.insertTuple] at outcome
  split_ifs at outcome with room small
  · rcases outcome with ⟨page, -, represents, run⟩
    rw [Nat.mod_eq_of_lt small] at room
    refine .inl ⟨room, small, page, represents, ?_⟩
    simp only [logInsert, Fallible.get_bind, run, Fallible.ofExcept_ok_bind]
    rfl
  · refine .inr (.inl ?_)
    simp only [logInsert, Fallible.bind_apply, Fallible.get_apply, Fallible.ofExcept_apply, outcome]
  · refine .inr (.inr ?_)
    simp only [logInsert, Fallible.get_bind, outcome, Fallible.ofExcept_ok_bind]
    rfl

/-- What `log_delete` leaves: the tuple is gone from the copy of the page, if there is one. -/
theorem logDelete_ends (shadows : ∀ pageId, Shadows (wal.pages.lookup pageId) (copy pageId))
    (txnId pageId : UInt32) (slotId : UInt16) :
    (logDelete txnId pageId slotId wal).2 = wal.append (.delete 0 txnId pageId slotId []) ∨
    ∃ page abstract, copy pageId = some abstract ∧
      Represents page.data (abstract.deleteTuple slotId.toNat).2 ∧
      ((abstract.get slotId.toNat).getD []).length < 2 ^ 16 ∧
      (logDelete txnId pageId slotId wal).2 =
        append (.delete 0 txnId pageId slotId ((abstract.get slotId.toNat).getD []))
          { wal with pages := wal.pages.insert pageId page } := by
  rcases (shadows pageId).cases with ⟨found, -⟩ | ⟨page, abstract, found, present, represents⟩
  · left
    simp only [logDelete, Fallible.get_bind, found]
    rfl
  · rcases represents.deleteTuple_eq slotId with ⟨page', -, represents', run, -⟩
    refine .inr ⟨page', abstract, present, represents', ?_, ?_⟩
    · cases live : abstract.get slotId.toNat with
      | none => simp
      | some bytes =>
          obtain ⟨inside, -, rfl⟩ := SlottedPage.get_eq_some live
          exact lt_of_le_of_lt (represents.cell_bounds inside).2.2 (by decide)
    · simp only [logDelete, Fallible.get_bind, found, represents.getTuple_eq, run,
        Fallible.ofExcept_ok_bind]
      rfl

end Calls

end WalManager

/-- Where nothing is undone, recovery is REDO. -/
theorem Heap.recovered_eq {log : List LogRecord}
    (idle : ∀ record ∈ log, isUndone log record → record.isData = false) :
    recovered log = redone log := by
  have records (records : List LogRecord) (inside : ∀ record ∈ records, record ∈ log)
    (heap : Heap) :
      records.foldl (fun heap record => if isUndone log record then heap.undo record else heap)
        heap =
        heap := by
    induction records with
    | nil => rfl
    | cons record records ih =>
        rw [List.foldl_cons]
        have skipped : (if isUndone log record then heap.undo record else heap) = heap := by
          split_ifs with undone
          · have control := idle record (inside record (by simp)) undone
            cases record <;> simp_all [undo, LogRecord.isData]
          · rfl
        rw [skipped]
        exact ih fun other here => inside other (by simp [here])
  exact records log.reverse (fun record => List.mem_reverse.mp) _

theorem Explains.recovered {log : List LogRecord} {heap : Heap}
    (explains : Explains none log heap) :
    Heap.recovered log = heap := by
  rw [Heap.recovered_eq fun record inside => explains.not_undone inside, explains.redone]

/-- Recovery of a log that tells a heap rebuilds that heap. -/
theorem Explains.replays {log : List LogRecord} {heap : Heap} (explains : Explains none log heap) :
    WalManager.Replays log heap := by
  rw [← explains.recovered]
  exact WalManager.replays_recovered explains.short fun record inside undone =>
    LogRecord.undoable_of_not_data (explains.not_undone inside undone)

end VenomDb
