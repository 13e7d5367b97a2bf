import VenomDb.Engine.Journal
import VenomDb.Engine.Survival

/-!
# Statements that are interrupted

A crash in the middle of a statement leaves a prefix of what it would have logged.
REDO skips these records, since nothing commits them, and UNDO finds pages on which
they were never done. For an insert or an update that is harmless: the slot is not
there, or holds the old bytes already. For a delete it is not: the tuple is still in
its slot and UNDO appends it once more.
-/

namespace VenomDb

namespace LogRecord

/-- A `Commit` or `Abort` record. -/
def ends : LogRecord → Bool
  | commit .. => true
  | abort .. => true
  | _ => false

end LogRecord

namespace WalManager

theorem started_append (front back : List LogRecord) :
    started (front ++ back) = started front ∪ started back := by
  simp [started, List.filterMap_append]

end WalManager

/-- The records of an unfinished transaction: a `Begin`, and no end. -/
structure Unfinished (txnId : UInt32) (tail : List LogRecord) : Prop where
  begun : txnId ∈ WalManager.started tail
  writer : ∀ record ∈ tail, record.txnId = some txnId
  running : ∀ record ∈ tail, record.ends = false

namespace Unfinished

variable {txnId : UInt32} {log tail : List LogRecord}

theorem started_eq (unfinished : Unfinished txnId tail) : WalManager.started tail = {txnId} := by
  refine Finset.eq_singleton_iff_unique_mem.mpr ⟨unfinished.begun, fun other inside => ?_⟩
  simp only [WalManager.started, List.mem_toFinset, List.mem_filterMap] at inside
  rcases inside with ⟨record, here, same⟩
  have writer := unfinished.writer record here
  cases record with
  | begin lsn id =>
      obtain rfl : id = other := by simpa using same
      exact Option.some.inj writer
  | _ => simp at same

theorem committed_eq (unfinished : Unfinished txnId tail) : WalManager.committed tail = ∅ := by
  refine Finset.eq_empty_of_forall_notMem fun other inside => ?_
  rcases WalManager.mem_committed.mp inside with ⟨lsn, here⟩
  simpa [LogRecord.ends] using unfinished.running _ here

theorem aborted_eq (unfinished : Unfinished txnId tail) : WalManager.aborted tail = ∅ := by
  refine Finset.eq_empty_of_forall_notMem fun other inside => ?_
  simp only [WalManager.aborted, List.mem_toFinset, List.mem_filterMap] at inside
  rcases inside with ⟨record, here, same⟩
  cases record with
  | abort lsn id => simpa [LogRecord.ends] using unfinished.running _ here
  | _ => simp at same

/-- After a log without loose ends, under an id that the log does not know, the transaction is the
only incomplete one. -/
theorem incomplete_eq (unfinished : Unfinished txnId tail) (closed : WalManager.incomplete log = ∅)
    (fresh : ∀ record ∈ log, record.txnId ≠ some txnId) :
    WalManager.incomplete (log ++ tail) = {txnId} := by
  have unknown : txnId ∉ WalManager.committed log ∧ txnId ∉ WalManager.aborted log := by
    constructor
    · intro inside
      rcases WalManager.mem_committed.mp inside with ⟨lsn, here⟩
      exact fresh _ here rfl
    · intro inside
      simp only [WalManager.aborted, List.mem_toFinset, List.mem_filterMap] at inside
      rcases inside with ⟨record, here, same⟩
      cases record with
      | abort lsn id => exact fresh _ here (by simpa [LogRecord.txnId] using same)
      | _ => simp at same
  ext other
  rw [WalManager.incomplete, WalManager.started_append, WalManager.committed_append,
    WalManager.aborted_append, unfinished.started_eq, unfinished.committed_eq,
      unfinished.aborted_eq,
    Finset.union_empty, Finset.union_empty]
  simp only [Finset.mem_filter, Finset.mem_union, Finset.mem_singleton]
  constructor
  · rintro ⟨known | rfl, running⟩
    · have inside : other ∈ WalManager.incomplete log := Finset.mem_filter.mpr ⟨known, running⟩
      rw [closed] at inside
      simp at inside
    · rfl
  · rintro rfl
    exact ⟨.inr rfl, unknown⟩

/-- Recovery undoes the records of the transaction on the heap before it. -/
theorem recovered_eq {heap : Heap} (unfinished : Unfinished txnId tail)
    (explains : Explains none log heap) (closed : WalManager.incomplete log = ∅)
    (fresh : ∀ record ∈ log, record.txnId ≠ some txnId) :
    Heap.recovered (log ++ tail) = tail.reverse.foldl Heap.undo heap := by
  have incomplete := unfinished.incomplete_eq closed fresh
  have redone : Heap.redone (log ++ tail) = heap := by
    refine explains.redone_append unfinished.committed_eq fun record inside => ?_
    by_contra redone
    simp only [WalManager.isRedone, unfinished.writer record inside, Option.any_some,
      Bool.not_eq_false, Bool.and_eq_true, decide_eq_true_eq] at redone
    rcases WalManager.mem_committed.mp redone.2 with ⟨lsn, here⟩
    exact fresh _ here rfl
  have undone (records : List LogRecord) (inside : ∀ record ∈ records, record ∈ tail)
    (heap : Heap) :
      records.foldl (fun heap record =>
        if Heap.isUndone (log ++ tail) record then heap.undo record else heap) heap =
        records.foldl Heap.undo heap := by
    induction records generalizing heap with
    | nil => rfl
    | cons record records ih =>
        have undone : Heap.isUndone (log ++ tail) record = true := by
          simp [Heap.isUndone, unfinished.writer record (inside record (by simp)), incomplete]
        rw [List.foldl_cons, List.foldl_cons, if_pos undone]
        exact ih (fun other here => inside other (by simp [here])) _
  have skipped (records : List LogRecord) (inside : ∀ record ∈ records, record ∈ log)
    (heap : Heap) :
      records.foldl (fun heap record =>
        if Heap.isUndone (log ++ tail) record then heap.undo record else heap) heap = heap := by
    induction records with
    | nil => rfl
    | cons record records ih =>
        have kept : ¬Heap.isUndone (log ++ tail) record = true := by
          have apart := fresh record (inside record (by simp))
          cases writer : record.txnId with
          | none => simp [Heap.isUndone, writer]
          | some other =>
              rw [writer] at apart
              simpa [Heap.isUndone, writer, incomplete] using apart
        rw [List.foldl_cons, if_neg kept]
        exact ih fun other here => inside other (by simp [here])
  rw [Heap.recovered, redone, List.reverse_append, List.foldl_append,
    undone tail.reverse fun record => List.mem_reverse.mp]
  exact skipped log.reverse (fun record => List.mem_reverse.mp) _

end Unfinished

/-- A log is another one with the records of one transaction after it, or nothing. -/
def LogsTransaction (kind : LogRecord → Prop) (txnId : UInt32) (log log' : List LogRecord) : Prop :=
  log' = log ∨ ∃ lsn rest, log' = log ++ .begin lsn txnId :: rest ∧
    ∀ record ∈ rest, record.txnId = some txnId ∧ (kind record ∨ record.ends = true)

/-- What a crash leaves of a transaction before its end. -/
theorem LogsTransaction.unfinished {kind : LogRecord → Prop} {txnId : UInt32}
    {log log' tail : List LogRecord} (logs : LogsTransaction kind txnId log log')
    (crashed : log ++ tail <+: log') (running : ∀ record ∈ tail, record.ends = false)
    (begun : tail ≠ []) :
    Unfinished txnId tail ∧ ∀ record ∈ tail, (∃ lsn, record = .begin lsn txnId) ∨ kind record := by
  rcases logs with rfl | ⟨lsn, rest, rfl, kinds⟩
  · have short := crashed.length_le
    simp only [List.length_append] at short
    exact absurd (List.eq_nil_of_length_eq_zero (by omega)) begun
  · rw [List.prefix_append_right_inj] at crashed
    rcases tail with _ | ⟨record, tail⟩
    · exact absurd rfl begun
    · obtain ⟨rfl, inside⟩ := List.cons_prefix_cons.mp crashed
      have logged (other : LogRecord) (here : other ∈ tail) : other ∈ rest := inside.subset here
      refine ⟨⟨by simp [WalManager.started], fun other here => ?_, running⟩, fun other here => ?_⟩
      · rcases List.mem_cons.mp here with rfl | here
        · rfl
        · exact (kinds other (logged other here)).1
      · rcases List.mem_cons.mp here with rfl | later
        · exact .inl ⟨lsn, rfl⟩
        · rcases (kinds other (logged other later)).2 with isKind | ends
          · exact .inr isKind
          · simp [running other here] at ends

/-- A transaction that ends leaves no loose ends behind. -/
theorem WalManager.incomplete_committed {txnId : UInt32} {lsn : UInt64} {log tail : List LogRecord}
    (closed : incomplete log = ∅) (writer : ∀ record ∈ tail, record.txnId = some txnId)
    (commits : LogRecord.commit lsn txnId ∈ tail) : incomplete (log ++ tail) = ∅ := by
  refine Finset.eq_empty_of_forall_notMem fun other inside => ?_
  simp only [incomplete, Finset.mem_filter, started_append, committed_append, aborted_append,
    Finset.mem_union, not_or] at inside
  rcases inside with ⟨old | new, ⟨uncommitted, open'⟩, unaborted, -⟩
  · have loose : other ∈ incomplete log := Finset.mem_filter.mpr ⟨old, uncommitted, unaborted⟩
    rw [closed] at loose
    simp at loose
  · simp only [started, List.mem_toFinset, List.mem_filterMap] at new
    rcases new with ⟨record, here, same⟩
    cases record with
    | begin lsn id =>
        obtain rfl : id = other := by simpa using same
        obtain rfl : id = txnId := Option.some.inj (writer _ here)
        exact open' (mem_committed.mpr ⟨_, commits⟩)
    | _ => simp at same

namespace Logical

/-- The log has grown by records of one kind. -/
def Adds (kind : LogRecord → Prop) (logical logical' : Logical) : Prop :=
  ∃ added, logical'.log = logical.log ++ added ∧ ∀ record ∈ added, kind record

section Adds

variable {kind : LogRecord → Prop} {logical logical' logical'' : Logical}

theorem Adds.refl (logical : Logical) : Adds kind logical logical := ⟨[], by simp, by simp⟩

theorem Adds.trans (first : Adds kind logical logical') (second : Adds kind logical' logical'') :
    Adds kind logical logical'' := by
  rcases first with ⟨added, log, kinds⟩
  rcases second with ⟨added', log', kinds'⟩
  refine ⟨added ++ added', by rw [log', log, List.append_assoc], fun record inside => ?_⟩
  rcases List.mem_append.mp inside with here | here
  · exact kinds record here
  · exact kinds' record here

theorem adds_append {record : LogRecord} (isKind : kind (record.withLsn logical.currentLsn)) :
    Adds kind logical (logical.append record) :=
  ⟨[record.withLsn logical.currentLsn], rfl, by simpa using isKind⟩

end Adds

section Transact

variable {logical : Logical} {pageIds : List UInt32}
  {step : UInt32 → Rid → Bytes → Unit → Fallible Failure Logical (Bool × Unit)}

/-- The log of a transaction: its `Begin`, what its steps append, and a `Commit` if it succeeds. -/
theorem transact_log {kind : LogRecord → Prop}
    (steps : ∀ entry ∈ logical.heap.live pageIds, ∀ logical',
      Adds kind logical' (step logical.nextTxnId entry.1 entry.2 () logical').2) :
    ∃ added last, (logical.transact step pageIds).state.log =
        logical.log ++ .begin logical.currentLsn logical.nextTxnId :: (added ++ last) ∧
      (∀ record ∈ added, kind record) ∧
      (last = [] ∧ (∃ failure, (logical.transact step pageIds).result = .error failure) ∨
        ∃ lsn, last = [.commit lsn logical.nextTxnId]) := by
  have scanned : Adds kind logical.beginTxn
      (logical.beginTxn.scan (step logical.nextTxnId) (logical.heap.live pageIds) ()).state :=
    scan_preserves (Adds kind logical.beginTxn)
      (fun entry inside _ logical' here => here.trans (steps entry inside logical')) () (.refl _)
  rcases scanned with ⟨added, log, kinds⟩
  have begun : logical.beginTxn.log =
      logical.log ++ [.begin logical.currentLsn logical.nextTxnId] := rfl
  rw [transact]
  generalize logical.beginTxn.scan _ _ () = ended at log ⊢
  rcases ended with ⟨failure | _, changed, logical'⟩
  · refine ⟨added, [], ?_, kinds, .inl ⟨rfl, failure, rfl⟩⟩
    simpa [begun] using log
  · refine ⟨added, [.commit logical'.currentLsn logical.nextTxnId], ?_, kinds, .inr ⟨_, rfl⟩⟩
    change logical'.log ++ [_] = _
    rw [show logical'.log = _ from log, begun]
    simp [LogRecord.withLsn]

end Transact

/-- A `Delete` record of a transaction on some pages. -/
def DeletesOn (txnId : UInt32) (pageIds : List UInt32) (record : LogRecord) : Prop :=
  ∃ lsn oldData, ∃ rid : Rid, rid.pageId ∈ pageIds ∧
    record = .delete lsn txnId rid.pageId rid.slotId oldData

/-- An `Update` record of a transaction with the bytes of a heap as its old ones, or its end. -/
def UpdatesOf (txnId : UInt32) (heap : Heap) (record : LogRecord) : Prop :=
  (∃ lsn oldData newData, ∃ rid : Rid, heap.get rid = some oldData ∧
    record = .update lsn txnId rid.pageId rid.slotId oldData newData) ∨
  ∃ lsn, record = .abort lsn txnId

theorem adds_deleteStep {table : String} {schema : Schema} {filter : Option Expr} {txnId : UInt32}
    {pageIds : List UInt32} {heap : Heap} {entry : Rid × Bytes} (inside : entry ∈ heap.live pageIds)
    (logical : Logical) :
    Adds (DeletesOn txnId pageIds) logical
      (deleteStep table schema filter txnId entry.1 entry.2 () logical).2 := by
  rcases deleteStep_cases table schema filter txnId entry.1 entry.2 logical with
    ⟨failure, -, run⟩ | ⟨-, run⟩ | ⟨row, -, run⟩
  · exact run ▸ .refl _
  · exact run ▸ .refl _
  · rw [run]
    exact ⟨[.delete logical.currentLsn txnId entry.1.pageId entry.1.slotId
      ((logical.shadow.get entry.1).getD [])], rfl,
      by simpa [DeletesOn] using ⟨entry.1, (Heap.mem_live.mp inside).1, rfl, rfl⟩⟩

theorem adds_updateStep {table : String} {schema : Schema} {assignments : List Assignment}
    {filter : Option Expr} {txnId : UInt32} {pageIds : List UInt32} {heap : Heap}
    {entry : Rid × Bytes} (inside : entry ∈ heap.live pageIds) (logical : Logical) :
    Adds (UpdatesOf txnId heap) logical
      (updateStep table schema assignments filter txnId entry.1 entry.2 () logical).2 := by
  have live := (Heap.mem_live.mp inside).2
  have logged (newBytes : Bytes) : Adds (UpdatesOf txnId heap) logical
      (logical.logUpdate txnId entry.1 entry.2 newBytes) :=
    adds_append (.inl ⟨_, _, _, entry.1, live, rfl⟩)
  rcases updateStep_cases table schema assignments filter txnId entry.1 entry.2 logical with
    ⟨failure, run, -⟩ | ⟨-, run⟩ | ⟨oldRow, row, newBytes, -, -, ⟨-, run⟩ | ⟨-, run⟩⟩
  · exact run ▸ .refl _
  · exact run ▸ .refl _
  · rw [run]
    exact logged newBytes
  · rw [run]
    exact (logged newBytes).trans (adds_append (.inr ⟨_, rfl⟩))

theorem DeletesOn.writer {txnId : UInt32} {pageIds : List UInt32} {record : LogRecord}
    (deletes : DeletesOn txnId pageIds record) : record.txnId = some txnId := by
  rcases deletes with ⟨lsn, oldData, rid, -, rfl⟩
  rfl

theorem UpdatesOf.writer {txnId : UInt32} {heap : Heap} {record : LogRecord}
    (updates : UpdatesOf txnId heap record) : record.txnId = some txnId := by
  rcases updates with ⟨lsn, oldData, newData, rid, -, rfl⟩ | ⟨lsn, rfl⟩
  · rfl
  · rfl

/-- A transaction that succeeds leaves no loose ends. -/
theorem incomplete_transact {logical : Logical} {pageIds : List UInt32} {kind : LogRecord → Prop}
    {step : UInt32 → Rid → Bytes → Unit → Fallible Failure Logical (Bool × Unit)}
    (steps : ∀ entry ∈ logical.heap.live pageIds, ∀ logical',
      Adds kind logical' (step logical.nextTxnId entry.1 entry.2 () logical').2)
    (writer : ∀ record, kind record → record.txnId = some logical.nextTxnId)
    (done : Done (logical.transact step pageIds))
    (closed : WalManager.incomplete logical.log = ∅) :
    WalManager.incomplete (logical.transact step pageIds).state.log = ∅ := by
  rcases done with ⟨rows, ok⟩
  rcases transact_log steps with ⟨added, last, log, kinds, ⟨-, failure, failed⟩ | ⟨lsn, rfl⟩⟩
  · rw [ok] at failed
    simp at failed
  · rw [log]
    refine WalManager.incomplete_committed closed (fun record inside => ?_)
      (show LogRecord.commit lsn logical.nextTxnId ∈ _ by simp)
    rcases List.mem_cons.mp inside with rfl | inside
    · rfl
    · rcases List.mem_append.mp inside with here | here
      · exact writer record (kinds record here)
      · obtain rfl : record = .commit lsn logical.nextTxnId := by simpa using here
        rfl

theorem log_place {table : String} {length : ℕ} {pageIds : List UInt32} {pageId : UInt32}
    {logical logical' : Logical}
    (placed : logical.place table length pageIds = some (pageId, logical')) :
    logical'.log = logical.log := by
  rw [place] at placed
  split at placed
  · obtain ⟨-, rfl⟩ := Prod.mk.inj (Option.some.inj placed)
    rfl
  · split at placed
    · obtain ⟨-, rfl⟩ := Prod.mk.inj (Option.some.inj placed)
      rfl
    · simp at placed

/-- So does every statement that succeeds. -/
theorem incomplete_execute [Build] {logical : Logical} (order : HashOrder) (stmt : Statement)
    (done : Done (logical.execute order stmt)) (closed : WalManager.incomplete logical.log = ∅) :
    WalManager.incomplete (logical.execute order stmt).state.log = ∅ := by
  cases stmt with
  | createTable table columns =>
      rw [execute, execCreateTable]
      split <;> exact closed
  | select table columns filter orderBy limit => exact closed
  | insert table values =>
      rw [execute, execInsert] at done ⊢
      cases known : logical.catalog.get table with
      | none => exact closed
      | some schema =>
          rw [known] at done
          dsimp only at done ⊢
          generalize Executor.checkInsertKey schema logical.indexManager table values = checked
            at done ⊢
          generalize schema.serializeRow values = encoded at done ⊢
          rcases checked with _ | _ <;> rcases encoded with _ | rowBytes
          · exact closed
          · exact closed
          · exact closed
          · cases listed : logical.tablePages.lookup table with
            | none =>
                rw [listed] at done
                rcases done with ⟨rows, ok⟩
                simp [fail] at ok
            | some pageIds =>
                rw [listed] at done
                simp only [insertBytes] at done ⊢
                cases placed : logical.beginTxn.place table rowBytes.length pageIds with
                | none =>
                    rw [placed] at done
                    rcases done with ⟨rows, ok⟩
                    simp [fail] at ok
                | some place =>
                    rcases place with ⟨pageId, logical'⟩
                    have begun : logical'.log = logical.log ++
                        [.begin logical.currentLsn logical.nextTxnId] := log_place placed
                    have log : (logical'.insertRow table schema values rowBytes logical.nextTxnId
                        pageId).log = logical'.log ++ [.insert logical'.currentLsn logical.nextTxnId
                          pageId (UInt16.ofNat ((logical'.shadow pageId).getD .empty).cells.length)
                          rowBytes] ++ [.commit (logical'.currentLsn + 1) logical.nextTxnId] := rfl
                    dsimp only
                    rw [log, begun, List.append_assoc, List.append_assoc]
                    refine WalManager.incomplete_committed closed (fun record inside => ?_)
                      (show LogRecord.commit (logical'.currentLsn + 1) logical.nextTxnId ∈ _ by
                        simp)
                    simp only [List.cons_append, List.nil_append, List.mem_cons, List.not_mem_nil,
                      or_false] at inside
                    rcases inside with rfl | rfl | rfl <;> rfl
  | delete table filter =>
      rw [execute, execDelete] at done ⊢
      cases known : logical.catalog.get table with
      | none => exact closed
      | some schema =>
          cases listed : logical.tablePages.lookup table with
          | none => exact closed
          | some pageIds =>
              rw [known, listed] at done
              exact incomplete_transact (fun entry inside => adds_deleteStep inside)
                (fun record => DeletesOn.writer) done closed
  | update table assignments filter =>
      rw [execute, execUpdate] at done ⊢
      cases known : logical.catalog.get table with
      | none => exact closed
      | some schema =>
          cases listed : logical.tablePages.lookup table with
          | none => exact closed
          | some pageIds =>
              rw [known, listed] at done
              exact incomplete_transact (fun entry inside => adds_updateStep inside)
                (fun record => UpdatesOf.writer) done closed

end Logical

namespace Executor

variable [Crc32] [Build] {executor : Executor}

/-- A session of successful statements leaves no loose ends in the log. -/
theorem Session.follows_closed {stmts : List Statement}
    (session : Session Succeeds stmts executor) :
    ∃ logical, Rests executor logical ∧ Logical.Sound none logical ∧
      WalManager.incomplete logical.log = ∅ := by
  induction session with
  | @start order _ _ run =>
      rcases start_empty order with ⟨info, executor, same, rests, -⟩
      obtain ⟨-, rfl⟩ := Prod.mk.inj (same.symm.trans run)
      have started : Logical.Run Logical.Done (Logical.initial.restart order 0) := .start order
      exact ⟨_, rests, started.sound .inl, rfl⟩
  | @execute order stmts stmt result executor executor' before run admitted ih =>
      rcases ih with ⟨logical, rests, sound, closed⟩
      rcases result with failure | rows
      · simp [Succeeds, Except.isOk, Except.toBool] at admitted
      · rcases rests.execute_ok sound.usable run with ⟨ok, rests', -⟩
        exact ⟨_, rests', sound.execute rests.bounded order stmt (.inl ⟨rows, ok⟩),
          Logical.incomplete_execute order stmt ⟨rows, ok⟩ closed⟩

end Executor

namespace Heap

variable {heap : Heap} {rid : Rid} {bytes : Bytes}

/-- A change that leaves the page as it is. -/
theorem update_self {pageId : UInt32} {change : SlottedPage → SlottedPage}
    (same : ∀ page, heap pageId = some page → change page = page) :
    heap.update pageId change = heap := by
  rw [update]
  cases found : heap pageId with
  | none => rw [Option.map_none, ← found, Function.update_eq_self]
  | some page => rw [Option.map_some, same page found, ← found, Function.update_eq_self]

/-- UNDO of an update writes the bytes that are there. -/
theorem undo_update_self (live : heap.get rid = some bytes) (lsn : UInt64) (txnId : UInt32)
    (newData : Bytes) : heap.undo (.update lsn txnId rid.pageId rid.slotId bytes newData) =
      heap := by
  refine update_self fun page found => ?_
  rcases exists_page_of_get live with ⟨page', found', here⟩
  obtain rfl : page' = page := Option.some.inj (found'.symm.trans found)
  rcases SlottedPage.get_eq_some here with ⟨inside, -, rfl⟩
  rw [SlottedPage.updateTuple_of_get here, if_pos (Nat.le_refl _)]
  refine SlottedPage.ext (List.ext_getElem (by simp) fun index bound _ => ?_)
  simp only [SlottedPage.overwrite, List.getElem_modify]
  split
  · next same =>
      subst same
      simp
  · rfl

/-- UNDO of an insert finds no slot to delete. -/
theorem undo_insert_outside {pageId : UInt32} {slotId : UInt16}
    (outside : ∀ page, heap pageId = some page → page.cells.length ≤ slotId.toNat) (lsn : UInt64)
    (txnId : UInt32) (data : Bytes) : heap.undo (.insert lsn txnId pageId slotId data) = heap := by
  refine update_self fun page found => ?_
  have missing : page.get slotId.toNat = none := by
    simp [SlottedPage.get, List.getElem?_eq_none (outside page found)]
  simp [SlottedPage.deleteTuple, missing]

theorem foldl_undo_self {records : List LogRecord}
    (idle : ∀ record ∈ records, heap.undo record = heap) : records.foldl undo heap = heap := by
  induction records with
  | nil => rfl
  | cons record records ih =>
      rw [List.foldl_cons, idle record (by simp)]
      exact ih fun other inside => idle other (by simp [inside])

end Heap

namespace Page

/-- The live tuples in slot order. -/
def liveTuples (page : Page) : List Bytes :=
  (List.range page.numSlots.toNat).filterMap fun slot =>
    (page.getTuple (UInt16.ofNat slot)).toOption.join

/-- Two pages have the same slots, with the same tuples and tombstones in them. -/
def SameSlots (page other : Page) : Prop :=
  page.numSlots = other.numSlots ∧ ∀ slotId, page.getTuple slotId = other.getTuple slotId

/-- Two pages have the same live tuples, each as often. -/
def SameTuples (page other : Page) : Prop := page.liveTuples.Perm other.liveTuples

theorem sameSlots_of_represents {page other : Page} {content : SlottedPage}
    (represents : Represents page.data content) (represents' : Represents other.data content) :
    page.SameSlots other := by
  refine ⟨?_, fun slotId => ?_⟩
  · apply UInt16.toNat_inj.mp
    rw [represents.numSlots_eq, represents'.numSlots_eq]
  · rw [represents.getTuple_eq, represents'.getTuple_eq]

end Page

namespace SlottedPage

/-- The live tuples in slot order. -/
def live (page : SlottedPage) : List Bytes :=
  page.cells.filterMap fun cell => if cell.active then some cell.bytes else none

/-- UNDO of a delete: the tuple is appended if it fits. -/
def putBack (page : SlottedPage) (oldData : Bytes) : SlottedPage :=
  if page.HasRoom oldData.length then page.push oldData else page

variable {page : SlottedPage}

/-- Read slot by slot. -/
theorem filterMap_get (page : SlottedPage) :
    (List.range page.cells.length).filterMap page.get = page.live := by
  rcases page with ⟨cells⟩
  induction cells using List.reverseRecOn with
  | nil => rfl
  | append_singleton cells cell ih =>
      have front : (List.range cells.length).filterMap (get ⟨cells ++ [cell]⟩) =
          (List.range cells.length).filterMap (get ⟨cells⟩) := by
        refine List.filterMap_congr fun slot inside => ?_
        simp only [get, List.getElem?_append_left (List.mem_range.mp inside)]
      simp only [List.length_append, List.length_singleton, List.range_succ, List.filterMap_append,
        live] at ih ⊢
      rw [front, ih]
      simp [get, List.filterMap_cons]

theorem length_live_putBack (page : SlottedPage) (oldData : Bytes) :
    page.live.length ≤ (page.putBack oldData).live.length := by
  unfold putBack
  split
  · simp [live, push]
  · exact Nat.le_refl _

theorem length_live_foldl (tuples : List Bytes) (page : SlottedPage) :
    page.live.length ≤ (tuples.foldl putBack page).live.length := by
  induction tuples generalizing page with
  | nil => exact Nat.le_refl _
  | cons tuple tuples ih => exact (length_live_putBack page tuple).trans (ih _)

/-- One tuple that fits the page is enough to make it longer. -/
theorem length_live_lt {tuples : List Bytes} (fits : ∃ tuple ∈ tuples, page.HasRoom tuple.length) :
    page.live.length < (tuples.foldl putBack page).live.length := by
  induction tuples with
  | nil => simp at fits
  | cons tuple tuples ih =>
      rw [List.foldl_cons]
      by_cases room : page.HasRoom tuple.length
      · refine lt_of_lt_of_le ?_ (length_live_foldl tuples _)
        rw [putBack, if_pos room]
        simp [live, push]
      · rw [putBack, if_neg room]
        apply ih
        simpa [room] using fits

theorem foldl_putBack_self {tuples : List Bytes}
    (full : ∀ tuple ∈ tuples, ¬page.HasRoom tuple.length) : tuples.foldl putBack page = page := by
  induction tuples with
  | nil => rfl
  | cons tuple tuples ih =>
      rw [List.foldl_cons, putBack, if_neg (full tuple (by simp))]
      exact ih fun other inside => full other (by simp [inside])

end SlottedPage

/-- The old bytes of a `Delete` record of a page. -/
def LogRecord.deletedFrom (pageId : UInt32) : LogRecord → Option Bytes
  | .delete _ _ other _ oldData => if other = pageId then some oldData else none
  | _ => none

theorem LogRecord.mem_deletedFrom {records : List LogRecord} {pageId : UInt32} {oldData : Bytes} :
    oldData ∈ records.reverse.filterMap (deletedFrom pageId) ↔
      ∃ lsn txnId slotId, delete lsn txnId pageId slotId oldData ∈ records := by
  simp only [List.mem_filterMap, List.mem_reverse]
  constructor
  · rintro ⟨record, inside, same⟩
    cases record with
    | delete lsn txnId other slotId bytes =>
        simp only [deletedFrom, Option.ite_none_right_eq_some, Option.some.injEq] at same
        obtain ⟨rfl, rfl⟩ := same
        exact ⟨lsn, txnId, slotId, inside⟩
    | _ => simp [deletedFrom] at same
  · rintro ⟨lsn, txnId, slotId, inside⟩
    exact ⟨_, inside, by simp [deletedFrom]⟩

/-- UNDO of deletes, page by page. -/
theorem Heap.foldl_undo_deletes {records : List LogRecord} {heap : Heap}
    (kinds : ∀ record ∈ records, (∃ lsn txnId, record = .begin lsn txnId) ∨
      ∃ lsn txnId slotId oldData, ∃ pageId, (heap pageId).isSome ∧
        record = .delete lsn txnId pageId slotId oldData) (pageId : UInt32) :
    records.foldl Heap.undo heap pageId =
      (heap pageId).map fun page =>
        (records.filterMap (LogRecord.deletedFrom pageId)).foldl SlottedPage.putBack page := by
  induction records generalizing heap with
  | nil => simp
  | cons record records ih =>
      have rest := fun other inside => kinds other (List.mem_cons_of_mem record inside)
      rw [List.foldl_cons]
      rcases kinds record (by simp) with ⟨lsn, txnId, rfl⟩ |
        ⟨lsn, txnId, slotId, oldData, target, present, rfl⟩
      · exact ih rest
      · rcases Option.isSome_iff_exists.mp present with ⟨page, found⟩
        have undone : heap.undo (.delete lsn txnId target slotId oldData) =
            Function.update heap target (some (page.putBack oldData)) := by
          simp [Heap.undo, SlottedPage.putBack, found]
        rw [undone, ih]
        · by_cases here : pageId = target
          · subst here
            simp [found, LogRecord.deletedFrom]
          · simp [here, LogRecord.deletedFrom, Ne.symm here]
        · intro other inside
          refine (rest other inside).imp_right ?_
          rintro ⟨lsn', txnId', slotId', oldData', pageId', present', rfl⟩
          refine ⟨lsn', txnId', slotId', oldData', pageId', ?_, rfl⟩
          by_cases here : pageId' = target
          · simp [here]
          · simpa [here] using present'

namespace Executor

variable [Crc32] {executor : Executor} {logical : Logical}

/-- A page as the buffer pool shows it. -/
def pageAt (executor : Executor) (pageId : UInt32) : Option Page :=
  (executor.bufferPool.view pageId).map fun data => { id := pageId, data := data, dirty := false }

/-- Recovered pages are those of the tables as they were, up to a relation, and no others. -/
def Restores (same : Page → Page → Prop) (executor : Executor) (pages : WalPages) : Prop :=
  ∀ pageId,
    (Logical.Listed executor.tablePages pageId → ∃ page before, pages.lookup pageId = some page ∧
      executor.pageAt pageId = some before ∧ same page before) ∧
    (¬Logical.Listed executor.tablePages pageId → pages.lookup pageId = none)

/-- A recovered heap against the one before. -/
theorem Rests.restores {same : Page → Page → Prop} {recovered : Heap} {pages : WalPages}
    (rests : Rests executor logical) (sound : Logical.Sound none logical)
    (shadows : ∀ pageId, Shadows (pages.lookup pageId) (recovered pageId))
    (missing : ∀ pageId, logical.heap pageId = none → recovered pageId = none)
    (pagewise : ∀ pageId page, logical.heap pageId = some page →
      ∃ page', recovered pageId = some page' ∧ ∀ concrete before : Page,
        Represents concrete.data page' → Represents before.data page → same concrete before) :
    executor.Restores same pages := by
  have tablePages : executor.tablePages = logical.tablePages := rests.reflects.tablePages_eq
  intro pageId
  rw [tablePages, ← sound.owned pageId]
  constructor
  · intro present
    rcases Option.isSome_iff_exists.mp present with ⟨page, found⟩
    rcases pagewise pageId page found with ⟨page', found', related⟩
    rcases rests.reflects.heap found with ⟨data, seen, represents⟩
    rcases (shadows pageId).cases with ⟨-, absent⟩ | ⟨concrete, content, shown, copy, represents'⟩
    · simp [absent] at found'
    · obtain rfl : content = page' := Option.some.inj (copy.symm.trans found')
      exact ⟨concrete, { id := pageId, data := data, dirty := false }, shown,
        by simp [pageAt, seen], related _ _ represents' represents⟩
  · intro absent
    have none' := missing pageId (by simpa using absent)
    rcases (shadows pageId).cases with ⟨shown, -⟩ | ⟨-, content, -, copy, -⟩
    · exact shown
    · simp [none'] at copy

/-- An `Update` record with the bytes of a heap as its old ones. -/
def RewritesOf (heap : Heap) (record : LogRecord) : Prop :=
  ∃ lsn txnId oldData newData, ∃ rid : Rid, heap.get rid = some oldData ∧
    record = .update lsn txnId rid.pageId rid.slotId oldData newData

/-- What `DELETE` and `UPDATE` log, however they end. -/
theorem transact_logs {kind logged : LogRecord → Prop}
    {body : UInt32 → UInt32 → FrameId → UInt16 → Bool → Bytes → Unit → Action (Bool × Unit)}
    {step : UInt32 → Rid → Bytes → Unit → Fallible Failure Logical (Bool × Unit)}
    (refines : ∀ txnId, BodyRefines (body txnId) (step txnId)) (rests : Rests executor logical)
    (ready : executor.Ready) {pageIds : List UInt32} (nodup : pageIds.Nodup)
    (present : ∀ pageId ∈ pageIds, (logical.heap pageId).isSome)
    (steps : ∀ entry ∈ logical.heap.live pageIds, ∀ logical',
      Logical.Adds logged logical' (step logical.nextTxnId entry.1 entry.2 () logical').2)
    (kinds : ∀ record, logged record →
      record.txnId = some logical.nextTxnId ∧ (kind record ∨ record.ends = true)) :
    LogsTransaction kind logical.nextTxnId logical.log
      (transact body pageIds executor).2.wal.log := by
  rcases transact_core refines rests nodup present with core | core | core | overpinned
  · exact .inl (congrArg Core.log core)
  · right
    have log : (transact body pageIds executor).2.wal.log = logical.beginTxn.log :=
      congrArg Core.log core
    exact ⟨logical.currentLsn, [], log, by simp⟩
  · right
    have log : (transact body pageIds executor).2.wal.log =
        (logical.transact step pageIds).state.log := congrArg Core.log core
    rcases Logical.transact_log steps with ⟨added, last, log', isLogged, ends⟩
    refine ⟨logical.currentLsn, added ++ last, log.trans log', fun record inside => ?_⟩
    rcases List.mem_append.mp inside with here | here
    · exact kinds record (isLogged record here)
    · rcases ends with ⟨rfl, -⟩ | ⟨lsn, rfl⟩
      · simp at here
      · obtain rfl : record = .commit lsn logical.nextTxnId := by simpa using here
        exact ⟨rfl, .inr rfl⟩
  · exact absurd overpinned ready.not_overpinned

theorem execUpdate_logs (rests : Rests executor logical) (sound : Logical.Sound none logical)
    (ready : executor.Ready) (table : String) (assignments : List Assignment)
    (filter : Option Expr) :
    LogsTransaction (RewritesOf logical.heap) logical.nextTxnId logical.log
      (execUpdate table assignments filter executor).2.wal.log := by
  have log : executor.wal.log = logical.log := rests.reflects.log_eq
  rw [execUpdate]
  cases known : logical.catalog.get table with
  | none =>
      rw [Fallible.bind_error (rests.reflects.schemaOf_none known)]
      exact .inl log
  | some schema =>
      rw [Fallible.bind_ok (rests.reflects.schemaOf_some known)]
      cases listed : logical.tablePages.lookup table with
      | none =>
          rw [Fallible.bind_error (rests.reflects.pagesOf_none listed)]
          exact .inl log
      | some pageIds =>
          rw [Fallible.bind_ok (rests.reflects.pagesOf_some listed)]
          refine transact_logs (update_refines table schema assignments filter) rests
            ready (sound.usable.nodup listed) (sound.usable.present listed)
            (fun entry inside => Logical.adds_updateStep inside) fun record updates => ?_
          rcases updates with ⟨lsn, oldData, newData, rid, live, rfl⟩ | ⟨lsn, rfl⟩
          · exact ⟨rfl, .inl ⟨_, _, _, _, rid, live, rfl⟩⟩
          · exact ⟨rfl, .inr rfl⟩

theorem execDelete_logs (rests : Rests executor logical) (sound : Logical.Sound none logical)
    (ready : executor.Ready) (table : String) (filter : Option Expr) :
    LogsTransaction (fun record => ∃ lsn txnId slotId oldData, ∃ pageId,
        (logical.heap pageId).isSome ∧ record = .delete lsn txnId pageId slotId oldData)
      logical.nextTxnId logical.log (execDelete table filter executor).2.wal.log := by
  have log : executor.wal.log = logical.log := rests.reflects.log_eq
  rw [execDelete]
  cases known : logical.catalog.get table with
  | none =>
      rw [Fallible.bind_error (rests.reflects.schemaOf_none known)]
      exact .inl log
  | some schema =>
      rw [Fallible.bind_ok (rests.reflects.schemaOf_some known)]
      cases listed : logical.tablePages.lookup table with
      | none =>
          rw [Fallible.bind_error (rests.reflects.pagesOf_none listed)]
          exact .inl log
      | some pageIds =>
          rw [Fallible.bind_ok (rests.reflects.pagesOf_some listed)]
          refine transact_logs (delete_refines table schema filter) rests
            ready (sound.usable.nodup listed) (sound.usable.present listed)
            (fun entry inside => Logical.adds_deleteStep inside) fun record deletes => ?_
          rcases deletes with ⟨lsn, oldData, rid, inside, rfl⟩
          exact ⟨rfl, .inl ⟨_, _, _, _, _, sound.usable.present listed _ inside, rfl⟩⟩

/-- An `Insert` record. -/
def InsertsOf (record : LogRecord) : Prop :=
  ∃ lsn txnId pageId slotId data, record = .insert lsn txnId pageId slotId data

/-- A transaction of inserts has begun. -/
structure Inserting (before : WalManager) (txnId : UInt32) (wal : WalManager) : Prop where
  same : txnId = before.nextTxnId
  log : ∃ lsn rest, wal.log = before.log ++ .begin lsn txnId :: rest ∧
    ∀ record ∈ rest, record.txnId = some txnId ∧ (InsertsOf record ∨ record.ends = true)

omit [Crc32] in
theorem Inserting.appends {before wal wal' : WalManager} {txnId : UInt32} {kind : LogRecord → Prop}
    (inserting : Inserting before txnId wal) (appends : WalManager.Appends kind wal wal')
    (kinds : ∀ record, kind record →
      record.txnId = some txnId ∧ (InsertsOf record ∨ record.ends = true)) :
    Inserting before txnId wal' := by
  rcases inserting with ⟨same, lsn, rest, log, written⟩
  refine ⟨same, lsn, ?_⟩
  rcases appends.log with log' | ⟨last, isKind, log'⟩
  · exact ⟨rest, log'.trans log, written⟩
  · refine ⟨rest ++ [last], by rw [log', log]; simp, fun record inside => ?_⟩
    rcases List.mem_append.mp inside with old | new
    · exact written record old
    · obtain rfl : record = last := by simpa using new
      exact kinds record isKind

theorem execInsert_logs (table : String) (values : List Value) :
    LogsTransaction InsertsOf executor.wal.nextTxnId executor.wal.log
      (execInsert table values executor).2.wal.log := by
  have begins {wal wal' : WalManager} {txnId : UInt32} (same : wal = executor.wal)
      (run : WalManager.beginTxn wal = (.ok txnId, wal')) : Inserting executor.wal txnId wal' := by
    subst same
    rw [WalManager.beginTxn] at run
    split at run
    · obtain ⟨id, rfl⟩ := Prod.mk.inj run
      obtain rfl : executor.wal.nextTxnId = txnId := by simpa using id
      exact ⟨rfl, _, [], rfl, by simp⟩
    · simp at run
  have inserts (txnId pageId : UInt32) (data : Bytes) :
      Fallible.Keeps (Inserting executor.wal txnId) (WalManager.logInsert txnId pageId data) := by
    intro wal inserting
    refine inserting.appends (WalManager.appends_logInsert wal txnId pageId data) ?_
    rintro record ⟨lsn, slotId, rfl⟩
    exact ⟨rfl, .inl ⟨_, _, _, _, _, rfl⟩⟩
  have commits (txnId : UInt32) :
      Fallible.Keeps (Inserting executor.wal txnId) (WalManager.commit txnId) := by
    intro wal inserting
    refine inserting.appends (WalManager.appends_commit wal txnId) ?_
    rintro record ⟨lsn, rfl⟩
    exact ⟨rfl, .inr rfl⟩
  rcases walked_execInsert begins inserts commits table values rfl with same | ⟨txnId, rfl, logged⟩
  · exact .inl (congrArg WalManager.log same)
  · exact .inr logged

variable [Build]

/-- An `INSERT` or an `UPDATE`. -/
def IsInsertOrUpdate : Statement → Prop
  | .insert .. => True
  | .update .. => True
  | _ => False

/-- The ids in the log of a session are not the next one. -/
theorem Session.fresh {admits : Admits} {stmts : List Statement}
    (session : Session admits stmts executor) :
    ∀ record ∈ executor.wal.log, record.txnId ≠ some executor.wal.nextTxnId :=
  fun record inside same =>
    Nat.lt_irrefl _ (session.journal.numbered record inside _ same)

/-- UNDO of what an interrupted `INSERT` or `UPDATE` has logged changes no page. -/
theorem undo_interrupted {stmts : List Statement} (session : Session Succeeds stmts executor)
    (rests : Rests executor logical) (sound : Logical.Sound none logical) {order : HashOrder}
    {stmt : Statement} (kind : IsInsertOrUpdate stmt) {tail : List LogRecord}
    (crashed : executor.wal.log ++ tail <+: (execute order stmt executor).2.wal.log)
    (running : ∀ record ∈ tail, record.ends = false) (begun : tail ≠ []) :
    Unfinished executor.wal.nextTxnId tail ∧
      ∀ record ∈ tail, logical.heap.undo record = logical.heap := by
  have log : executor.wal.log = logical.log := rests.reflects.log_eq
  have next : executor.wal.nextTxnId = logical.nextTxnId := rests.reflects.nextTxnId_eq
  cases stmt with
  | createTable | select | delete => exact kind.elim
  | update table assignments filter =>
      have logs := execUpdate_logs rests sound session.reachable.idle.ready table assignments filter
      rw [← log, ← next] at logs
      rcases logs.unfinished crashed running begun with ⟨unfinished, kinds⟩
      refine ⟨unfinished, fun record inside => ?_⟩
      rcases kinds record inside with ⟨lsn, rfl⟩ | ⟨lsn, txnId, oldData, newData, rid, live, rfl⟩
      · rfl
      · exact Heap.undo_update_self live lsn txnId newData
  | insert table values =>
      have logs : LogsTransaction InsertsOf executor.wal.nextTxnId executor.wal.log
        (execute order (.insert table values) executor).2.wal.log := execInsert_logs table values
      rcases logs.unfinished crashed running begun with ⟨unfinished, kinds⟩
      refine ⟨unfinished, fun record inside => ?_⟩
      rcases kinds record inside with ⟨lsn, rfl⟩ | ⟨lsn, txnId, pageId, slotId, data, rfl⟩
      · rfl
      · -- the slot was counted after all tuples of the page
        have journal := journal_execute order (.insert table values) session.journal
        rcases crashed with ⟨rest, whole⟩
        rcases List.append_of_mem inside with ⟨front, back, split⟩
        have placed := journal.tracks.wellPlaced.placed
          (show (execute order (.insert table values) executor).2.wal.log =
            (executor.wal.log ++ front) ++ .insert lsn txnId pageId slotId data :: (back ++ rest) by
              rw [← whole, split]; simp)
        refine Heap.undo_insert_outside (fun page found => ?_) lsn txnId data
        have lengths := Heap.lengths_ofLog session.journal.tracks.wellPlaced pageId
        rw [log, sound.explains.replayed, found, Option.getD_some] at lengths
        rw [placed.slot, insertedLengths_append, List.length_append, log, ← lengths]
        simp [SlottedPage.lengths]

/-- Recovery of what a crash leaves in the log reads every record. -/
theorem Session.replays {admits : Admits} {stmts : List Statement}
    (session : Session admits stmts executor) {order : HashOrder} {stmt : Statement}
    {log : List LogRecord} (crashed : log <+: (Executor.execute order stmt executor).2.wal.log) :
    WalManager.Replays log (Heap.recovered log) := by
  have wellPlaced := (journal_execute order stmt session.journal).tracks.wellPlaced
  exact WalManager.replays_recovered
    (fun record inside => wellPlaced.short record (crashed.subset inside))
    (fun record inside _ => wellPlaced.undoable record (crashed.subset inside))

/-- Recovery of what an interrupted `INSERT` or `UPDATE` has left gives the heap before it. -/
theorem recovered_interrupted {stmts : List Statement} (session : Session Succeeds stmts executor)
    (rests : Rests executor logical) (sound : Logical.Sound none logical)
    (closed : WalManager.incomplete logical.log = ∅) {order : HashOrder} {stmt : Statement}
    (kind : IsInsertOrUpdate stmt) {tail : List LogRecord}
    (crashed : executor.wal.log ++ tail <+: (execute order stmt executor).2.wal.log)
    (running : ∀ record ∈ tail, record.ends = false) (begun : tail ≠ []) :
    WalManager.incomplete (executor.wal.log ++ tail) = {executor.wal.nextTxnId} ∧
      Heap.recovered (executor.wal.log ++ tail) = logical.heap := by
  have log : executor.wal.log = logical.log := rests.reflects.log_eq
  rcases undo_interrupted session rests sound kind crashed running begun with ⟨unfinished, idle⟩
  rw [← log] at closed
  refine ⟨unfinished.incomplete_eq closed session.fresh, ?_⟩
  rw [unfinished.recovered_eq (log ▸ sound.explains) closed session.fresh]
  exact Heap.foldl_undo_self fun record inside => idle record (List.mem_reverse.mp inside)

/-- An `INSERT` or `UPDATE` that is interrupted before its end is rolled back: recovery gives the
slots of every page as they were, and names its transaction alone. -/
theorem interrupted_rollsBack {stmts : List Statement} (session : Session Succeeds stmts executor)
    {order : HashOrder} {stmt : Statement} (kind : IsInsertOrUpdate stmt) {tail : List LogRecord}
    (crashed : executor.wal.log ++ tail <+: (execute order stmt executor).2.wal.log)
    (running : ∀ record ∈ tail, record.ends = false) (begun : tail ≠ []) :
    ∃ report wal,
      WalManager.recover (WalManager.new (executor.wal.log ++ tail)) = (.ok report, wal) ∧
      report.incompleteTxns = {executor.wal.nextTxnId} ∧
      executor.Restores Page.SameSlots wal.pages := by
  rcases session.follows_closed with ⟨logical, rests, sound, closed⟩
  rcases recovered_interrupted session rests sound closed kind crashed running begun with
    ⟨incomplete, recovered⟩
  rcases session.replays crashed with ⟨report, pages, run, reported, shadows⟩
  rw [recovered] at shadows
  refine ⟨report, _, run, ?_, rests.restores sound shadows (fun _ => id) fun pageId page found =>
    ⟨page, found, fun concrete before => Page.sameSlots_of_represents⟩⟩
  rw [reported, incomplete]

/-- Recovery gives every page the live tuples it had, each as often. -/
def KeepsTuples (executor : Executor) (log : List LogRecord) : Prop :=
  ∃ report wal, WalManager.recover (WalManager.new log) = (.ok report, wal) ∧
    executor.Restores Page.SameTuples wal.pages

omit [Crc32] [Build] in
theorem liveTuples_eq {page : Page} {content : SlottedPage}
    (represents : Represents page.data content) : page.liveTuples = content.live := by
  rw [Page.liveTuples, represents.numSlots_eq, ← content.filterMap_get]
  refine List.filterMap_congr fun slot inside => ?_
  have small := represents.numSlots_le
  have slots := List.mem_range.mp inside
  have back : (UInt16.ofNat slot).toNat = slot := by
    refine UInt16.toNat_ofNat_of_lt' ?_
    simp only [pageSize] at small
    simp only [UInt16.size]
    omega
  rw [represents.getTuple_eq, back]
  rfl

/-- UNDO of what an interrupted `DELETE` has logged, page by page. -/
theorem recovered_interrupted_delete {stmts : List Statement}
    (session : Session Succeeds stmts executor) (rests : Rests executor logical)
    (sound : Logical.Sound none logical) (closed : WalManager.incomplete logical.log = ∅)
    {order : HashOrder} {table : String} {filter : Option Expr} {tail : List LogRecord}
    (crashed : executor.wal.log ++ tail <+:
      (execute order (.delete table filter) executor).2.wal.log)
    (running : ∀ record ∈ tail, record.ends = false) (pageId : UInt32) :
    Heap.recovered (executor.wal.log ++ tail) pageId =
      (logical.heap pageId).map fun page =>
        (tail.reverse.filterMap (LogRecord.deletedFrom pageId)).foldl SlottedPage.putBack page := by
  have log : executor.wal.log = logical.log := rests.reflects.log_eq
  have next : executor.wal.nextTxnId = logical.nextTxnId := rests.reflects.nextTxnId_eq
  have explains : Explains none executor.wal.log logical.heap := log ▸ sound.explains
  by_cases begun : tail = []
  · subst begun
    rw [List.append_nil, explains.recovered]
    simp
  · have logs := execDelete_logs rests sound session.reachable.idle.ready table filter
    rw [← log, ← next] at logs
    rcases logs.unfinished crashed running begun with ⟨unfinished, kinds⟩
    rw [unfinished.recovered_eq explains (log ▸ closed) session.fresh]
    refine Heap.foldl_undo_deletes (fun record inside => ?_) pageId
    rcases kinds record (List.mem_reverse.mp inside) with ⟨lsn, rfl⟩ | deletes
    · exact .inl ⟨lsn, _, rfl⟩
    · exact .inr deletes

/-- UNDO of an interrupted `DELETE` duplicates a tuple as soon as one fits its page again. -/
theorem keepsTuples_iff {stmts : List Statement} (session : Session Succeeds stmts executor)
    (rests : Rests executor logical) (sound : Logical.Sound none logical)
    (closed : WalManager.incomplete logical.log = ∅) {order : HashOrder} {table : String}
    {filter : Option Expr} {tail : List LogRecord}
    (crashed : executor.wal.log ++ tail <+:
      (execute order (.delete table filter) executor).2.wal.log)
    (running : ∀ record ∈ tail, record.ends = false) :
    KeepsTuples executor (executor.wal.log ++ tail) ↔
      ∀ lsn txnId pageId slotId oldData, .delete lsn txnId pageId slotId oldData ∈ tail →
        ∀ page, logical.heap pageId = some page → ¬page.HasRoom oldData.length := by
  have tablePages : executor.tablePages = logical.tablePages := rests.reflects.tablePages_eq
  have pagewise := recovered_interrupted_delete session rests sound closed crashed running
  rcases session.replays crashed with ⟨report, pages, run, -, shadows⟩
  constructor
  · rintro ⟨report', wal, run', restores⟩ lsn txnId pageId slotId oldData inside page found room
    obtain ⟨-, rfl⟩ := Prod.mk.inj (run.symm.trans run')
    have listed : Logical.Listed executor.tablePages pageId := by
      rw [tablePages, ← sound.owned pageId, found]
      rfl
    rcases (restores pageId).1 listed with ⟨concrete, before, shown, seen, same⟩
    have grown := pagewise pageId
    rw [found, Option.map_some] at grown
    rcases (shadows pageId).cases with ⟨absent, -⟩ | ⟨concrete', content, shown', copy, represents⟩
    · have shown : pages.lookup pageId = some concrete := shown
      simp [absent] at shown
    · obtain rfl : concrete' = concrete := Option.some.inj (shown'.symm.trans shown)
      obtain rfl := Option.some.inj (copy.symm.trans grown)
      rcases rests.reflects.heap found with ⟨data, view, represents'⟩
      have represents' : Represents before.data page := by
        rw [pageAt, view, Option.map_some] at seen
        obtain rfl := Option.some.inj seen
        exact represents'
      have more := SlottedPage.length_live_lt
        ⟨oldData, LogRecord.mem_deletedFrom.mpr ⟨_, _, _, inside⟩, room⟩
      rw [← liveTuples_eq represents, ← liveTuples_eq represents', same.length_eq] at more
      exact Nat.lt_irrefl _ more
  · intro full
    refine ⟨report, _, run, rests.restores sound shadows (fun pageId absent => ?_)
      fun pageId page found => ⟨page, ?_, fun concrete before represents represents' => ?_⟩⟩
    · rw [pagewise, absent, Option.map_none]
    · rw [pagewise, found, Option.map_some, SlottedPage.foldl_putBack_self]
      intro oldData inside
      rcases LogRecord.mem_deletedFrom.mp inside with ⟨lsn, txnId, slotId, logged⟩
      exact full lsn txnId pageId slotId oldData logged page found
    · rw [Page.SameTuples, liveTuples_eq represents, liveTuples_eq represents']

omit [Build] in
/-- The bytes of a page have the room that the page has. -/
theorem Rests.freeSpace_eq {pageId : UInt32} {content : SlottedPage} {page : Page}
    (rests : Rests executor logical) (found : logical.heap pageId = some content)
    (seen : executor.pageAt pageId = some page) : page.freeSpace = content.freeSpace := by
  rcases rests.reflects.heap found with ⟨data, view, represents⟩
  rw [pageAt, view, Option.map_some] at seen
  obtain rfl := Option.some.inj seen
  exact Represents.freeSpace_eq represents

/-- A statement on the disk has logged what it has logged on the logical state. -/
theorem Rests.crashes {order : HashOrder} {stmt : Statement} {rows : List Row}
    {tail : List LogRecord} (rests : Rests executor logical) (sound : Logical.Sound none logical)
    (idle : executor.Idle) (roomy : Roomy logical)
    (done : (logical.execute order stmt).result = .ok rows)
    (begun : logical.log ++ tail <+: (logical.execute order stmt).state.log) :
    executor.wal.log ++ tail <+: (execute order stmt executor).2.wal.log := by
  rcases rests.execute_done sound.usable roomy idle.ready done with ⟨executor', run⟩
  rcases rests.execute_ok sound.usable run with ⟨-, rests', -⟩
  rw [run, rests.reflects.log_eq]
  rw [← rests'.reflects.log_eq] at begun
  exact begun

/-- A `DELETE` that is interrupted before its end loses and duplicates nothing exactly when none of
the tuples it has logged fits into the free space of its page. -/
theorem interrupted_delete_keepsTuples_iff {stmts : List Statement}
    (session : Session Succeeds stmts executor) {order : HashOrder} {table : String}
    {filter : Option Expr} {tail : List LogRecord}
    (crashed : executor.wal.log ++ tail <+:
      (execute order (.delete table filter) executor).2.wal.log)
    (running : ∀ record ∈ tail, record.ends = false) :
    KeepsTuples executor (executor.wal.log ++ tail) ↔
      ∀ lsn txnId pageId slotId oldData, .delete lsn txnId pageId slotId oldData ∈ tail →
        ∀ page, executor.pageAt pageId = some page → page.freeSpace < oldData.length + 5 := by
  rcases session.follows_closed with ⟨logical, rests, sound, closed⟩
  have log : executor.wal.log = logical.log := rests.reflects.log_eq
  have next : executor.wal.nextTxnId = logical.nextTxnId := rests.reflects.nextTxnId_eq
  have logs := execDelete_logs rests sound session.reachable.idle.ready table filter
  rw [← log, ← next] at logs
  rw [keepsTuples_iff session rests sound closed crashed running]
  constructor
  · intro full lsn txnId pageId slotId oldData inside page seen
    have begun : tail ≠ [] := List.ne_nil_of_mem inside
    rcases (logs.unfinished crashed running begun).2 _ inside with
      ⟨lsn', other⟩ | ⟨_, _, _, _, target, present, same⟩
    · simp at other
    · obtain ⟨-, -, rfl, -, -⟩ := LogRecord.delete.inj same
      rcases Option.isSome_iff_exists.mp present with ⟨content, found⟩
      have room := full lsn txnId pageId slotId oldData inside content found
      rw [SlottedPage.hasRoom_iff_freeSpace] at room
      rw [rests.freeSpace_eq found seen]
      omega
  · intro full lsn txnId pageId slotId oldData inside content found room
    rcases rests.reflects.heap found with ⟨data, view, -⟩
    have seen : executor.pageAt pageId =
        some { id := pageId, data := data, dirty := false } := by simp [pageAt, view]
    have small := full lsn txnId pageId slotId oldData inside _ seen
    rw [rests.freeSpace_eq found seen] at small
    rw [SlottedPage.hasRoom_iff_freeSpace] at room
    omega

end Executor

namespace Sample

attribute [local instance] Crc32.ieee Build.debug

open Executor

/-- An `UPDATE` of two rows, interrupted when it has logged both. -/
theorem interrupted_assignNine :
    ∃ executor tail, Session Succeeds [create, insertSeven, insertNull] executor ∧
      executor.wal.log ++ tail <+: (execute .ofInsertion assignNine executor).2.wal.log ∧
      tail.length = 3 ∧
      ∃ report wal,
        WalManager.recover (WalManager.new (executor.wal.log ++ tail)) = (.ok report, wal) ∧
        report.incompleteTxns = {executor.wal.nextTxnId} ∧
        executor.Restores Page.SameSlots wal.pages := by
  rcases attains_insertedTwo with ⟨executor, session, rests, follows, idle⟩
  rcases rests.execute_fails (follows.sound .inl).usable ⟨by decide, by decide⟩ idle
    (show insertedTwo.execute .ofInsertion assignNine =
      ⟨.error (.sql .updateLarger), true, halfAssigned⟩ from rfl) (by decide) (.inr rfl) with
    ⟨failed, run, rests', -⟩
  have log : executor.wal.log = insertedTwo.log := rests.reflects.log_eq
  have log' : failed.wal.log = halfAssigned.log := rests'.reflects.log_eq
  have crashed : executor.wal.log ++ (halfAssigned.log.drop 6).take 3 <+:
      (execute .ofInsertion assignNine executor).2.wal.log := by
    rw [run, log, log']
    exact ⟨halfAssigned.log.drop 9, rfl⟩
  exact ⟨executor, _, session, crashed, rfl,
    interrupted_rollsBack session (show IsInsertOrUpdate assignNine from trivial) crashed
      (by decide) (by decide)⟩

def deleteAll : Statement := .delete "t" none

/-- The state in which a `DELETE` of both rows ends. -/
def deletedBoth : Logical := (insertedTwo.execute .ofInsertion deleteAll).state

/-- What a `DELETE` of both rows has logged when it is interrupted after the first one. -/
def deletedOne : List LogRecord := (deletedBoth.log.drop 6).take 2

theorem crashes_deletedOne {executor : Executor} (rests : Rests executor insertedTwo)
    (sound : Logical.Sound none insertedTwo) (idle : executor.Idle) :
    executor.wal.log ++ deletedOne <+: (execute .ofInsertion deleteAll executor).2.wal.log := by
  exact rests.crashes sound idle ⟨by decide, by decide⟩
    (show (insertedTwo.execute .ofInsertion deleteAll).result = .ok [] from rfl)
    ⟨deletedBoth.log.drop 8, rfl⟩

/-- The deleted row is still there, and UNDO appends it again. -/
theorem interrupted_delete_duplicates :
    ∃ executor, Session Succeeds [create, insertSeven, insertNull] executor ∧
      executor.wal.log ++ deletedOne <+: (execute .ofInsertion deleteAll executor).2.wal.log ∧
      (∀ record ∈ deletedOne, record.ends = false) ∧
      ¬KeepsTuples executor (executor.wal.log ++ deletedOne) := by
  rcases attains_insertedTwo with ⟨executor, session, rests, follows, idle⟩
  have sound := follows.sound .inl
  have crashed := crashes_deletedOne rests sound idle
  refine ⟨executor, session, crashed, by decide, fun keeps => ?_⟩
  rw [keepsTuples_iff session rests sound rfl crashed (by decide)] at keeps
  exact keeps 7 3 0 0 (Bytes.toLe 9 256 ++ Bytes.toLe 9 (7 * 256)) (by decide)
    ((insertedTwo.heap 0).getD .empty) rfl (by decide)

/-- A table with many columns. -/
def createWide : Statement := .createTable "t" (List.replicate 230 ⟨"a", .int, false⟩)

/-- A row that takes more than half of a page. -/
def insertWide : Statement := .insert "t" (List.replicate 230 (.int 0))

def createdWide : Logical := (opened.execute .ofInsertion createWide).state

def insertedWide : Logical := (createdWide.execute .ofInsertion insertWide).state

def deletedWide : Logical := (insertedWide.execute .ofInsertion deleteAll).state

/-- What a `DELETE` of the row has logged when it is interrupted after it. -/
def deletedRow : List LogRecord := (deletedWide.log.drop 3).take 2

set_option maxRecDepth 20000 in
theorem attains_insertedWide : Attains [createWide, insertWide] insertedWide := by
  have started : Attains [] opened := attains_start .ofInsertion
  have first := started.execute .ofInsertion createWide ⟨by decide, by decide⟩ rfl
  have done : (createdWide.execute .ofInsertion insertWide).result.isOk = true := by decide +kernel
  rcases ran : (createdWide.execute .ofInsertion insertWide).result with failure | rows
  · rw [ran] at done
    exact absurd done Bool.false_ne_true
  · exact first.execute .ofInsertion insertWide ⟨by decide, by decide⟩ ran

set_option maxRecDepth 20000 in
theorem crashes_deletedRow {executor : Executor} (rests : Rests executor insertedWide)
    (sound : Logical.Sound none insertedWide) (idle : executor.Idle) :
    executor.wal.log ++ deletedRow <+: (execute .ofInsertion deleteAll executor).2.wal.log := by
  have done : (insertedWide.execute .ofInsertion deleteAll).result.isOk = true := by
    decide +kernel
  have begun : (insertedWide.log ++ deletedRow).isPrefixOf deletedWide.log = true := by
    decide +kernel
  rcases ran : (insertedWide.execute .ofInsertion deleteAll).result with failure | rows
  · rw [ran] at done
    exact absurd done Bool.false_ne_true
  · exact rests.crashes sound idle ⟨by decide +kernel, by decide +kernel⟩ ran
      (List.isPrefixOf_iff_prefix.mp begun)

set_option maxRecDepth 20000 in
/-- The page has no room for the row again. -/
theorem interrupted_delete_kept :
    ∃ executor, Session Succeeds [createWide, insertWide] executor ∧
      executor.wal.log ++ deletedRow <+: (execute .ofInsertion deleteAll executor).2.wal.log ∧
      (∃ lsn txnId slotId oldData, LogRecord.delete lsn txnId 0 slotId oldData ∈ deletedRow) ∧
      KeepsTuples executor (executor.wal.log ++ deletedRow) := by
  rcases attains_insertedWide with ⟨executor, session, rests, follows, idle⟩
  have crashed := crashes_deletedRow rests (follows.sound .inl) idle
  have lengths : (deletedRow.reverse.filterMap (LogRecord.deletedFrom 0)).map List.length =
      [2070] := by decide +kernel
  have pageIds : deletedRow.filterMap LogRecord.pageId = [0] := by decide +kernel
  have full : ((insertedWide.heap 0).any fun page => decide (page.freeSpace < 2075)) = true := by
    decide +kernel
  rcases (Option.any_eq_true _ _).mp full with ⟨content, found, small⟩
  refine ⟨executor, session, crashed, ?_, ?_⟩
  · rcases List.map_eq_singleton_iff.mp lengths with ⟨oldData, logged, -⟩
    rcases LogRecord.mem_deletedFrom.mp (logged ▸ List.mem_singleton_self oldData) with
      ⟨lsn, txnId, slotId, inside⟩
    exact ⟨lsn, txnId, slotId, oldData, inside⟩
  · apply (interrupted_delete_keepsTuples_iff session crashed (by decide +kernel)).mpr
    intro lsn txnId pageId slotId oldData inside page seen
    have here : pageId ∈ deletedRow.filterMap LogRecord.pageId :=
      List.mem_filterMap.mpr ⟨_, inside, rfl⟩
    rw [pageIds] at here
    obtain rfl := List.mem_singleton.mp here
    have long := List.mem_map_of_mem (f := List.length)
      (LogRecord.mem_deletedFrom.mpr ⟨lsn, txnId, slotId, inside⟩)
    rw [lengths] at long
    have small : content.freeSpace < 2075 := of_decide_eq_true small
    rw [rests.freeSpace_eq found seen, List.mem_singleton.mp long]
    exact small

end Sample

end VenomDb
