import VenomDb.Engine.Journal

/-!
# The moments of a statement

A crash leaves the files as they are at some moment between two calls. Up to its
commit record a statement that changes rows has moments without that record; from
then on the log, the page lists and the catalog are those of the statement's end, and
only the data file is still written.
-/

namespace VenomDb

/-- A statement that inserts, updates or deletes rows. -/
def Statement.ChangesRows : Statement → Prop
  | .insert .. => True
  | .update .. => True
  | .delete .. => True
  | _ => False

namespace BufferPool

variable {poolSize : ℕ} [Crc32] {pool : BufferPool poolSize}

/-- The disk answers every call. -/
def Faultless (disk : DiskManager) : Prop := disk.faults = []

omit [Crc32] in
theorem systemCall_faultless {disk : DiskManager} (faultless : Faultless disk) :
    DiskManager.systemCall disk = (.ok (), disk) := by
  rw [DiskManager.systemCall, show disk.faults = [] from faultless]

theorem faultless_writePage (page : Page) :
    Fallible.Keeps Faultless (DiskManager.writePage page) := by
  intro disk faultless
  rw [DiskManager.writePage, Fallible.bind_ok (systemCall_faultless faultless)]
  exact faultless

theorem faultless_readPage (pageId : UInt32) :
    Fallible.Keeps Faultless (DiskManager.readPage pageId) := by
  intro disk faultless
  rw [DiskManager.readPage, Fallible.bind_ok (systemCall_faultless faultless), Fallible.get_bind]
  cases disk.file[pageId.toNat]? with
  | none => exact faultless
  | some data =>
      dsimp only
      split_ifs
      · exact faultless
      · exact faultless

omit [Crc32] in
theorem faultless_allocatePage : Fallible.Keeps Faultless DiskManager.allocatePage := by
  intro disk faultless
  rw [DiskManager.allocatePage]
  split_ifs
  · exact faultless
  · exact faultless

/-- A flush never fails on its own. -/
theorem flushPage_ok (faultless : Faultless pool.disk) (pageId : UInt32) :
    ∃ pool', flushPage pageId pool = (.ok (), pool') := by
  rw [flushPage, Fallible.get_bind]
  rcases pool.pageTable.lookup pageId with _ | frameId
  · exact ⟨pool, rfl⟩
  · dsimp only
    split_ifs
    · rcases found : (pool.frames frameId).page with _ | page
      · have idle : writeFrame frameId pool = (.ok (), pool) := by
          rw [writeFrame, Fallible.get_bind, found]
          rfl
        rw [Fallible.bind_ok idle]
        exact ⟨_, rfl⟩
      · rw [Fallible.bind_ok (writeFrame_eq faultless found)]
        exact ⟨_, rfl⟩
    · exact ⟨pool, rfl⟩

theorem length_writePage (count : ℕ) (page : Page) :
    Fallible.Keeps (fun disk : DiskManager => count ≤ disk.file.length)
      (DiskManager.writePage page) := by
  intro disk long
  rw [DiskManager.writePage, Fallible.bind_apply, DiskManager.systemCall]
  rcases disk.faults with _ | ⟨_ | _, faults⟩
  · exact long.trans (by simp [Fallible.modify])
  · exact long.trans (by simp [Fallible.modify])
  · exact long

end BufferPool

namespace Executor

open Fallible

/-- Something happened between two states at this moment. -/
def During (executor executor' : Executor) (moment : Moment) : Prop :=
  ∃ moments, executor'.history = moments ++ executor.history ∧ moment ∈ moments

/-- The moments since a state satisfy a condition. -/
def Recorded (base : Executor) (condition : Moment → Prop) (executor : Executor) : Prop :=
  ∃ moments, executor.history = moments ++ base.history ∧ ∀ moment ∈ moments, condition moment

section Recorded

variable {base executor executor' : Executor} {condition condition' : Moment → Prop}

theorem Recorded.nothing : Recorded base condition base := ⟨[], rfl, by simp⟩

theorem Recorded.record (recorded : Recorded base condition executor)
    (same : executor'.history = executor.history) (here : condition executor'.moment) :
    Recorded base condition executor'.record := by
  rcases recorded with ⟨moments, history, conditions⟩
  refine ⟨executor'.moment :: moments, ?_, ?_⟩
  · rw [Executor.record, same, history, List.cons_append]
  · intro moment inside
    rcases List.mem_cons.mp inside with rfl | inside
    · exact here
    · exact conditions moment inside

theorem Recorded.mono (recorded : Recorded base condition executor)
    (weaker : ∀ moment, condition moment → condition' moment) :
    Recorded base condition' executor := by
  rcases recorded with ⟨moments, history, conditions⟩
  exact ⟨moments, history, fun moment inside => weaker moment (conditions moment inside)⟩

theorem Recorded.during {moment : Moment} (recorded : Recorded base condition executor)
    (during : During base executor moment) : condition moment := by
  rcases recorded with ⟨moments, history, conditions⟩
  rcases during with ⟨moments', history', inside⟩
  rw [history'] at history
  exact conditions moment (List.append_cancel_right history ▸ inside)

end Recorded

/-- Nothing was committed after the log that there was before. -/
def Uncommitted (before log : List LogRecord) : Prop :=
  ∃ tail, log = before ++ tail ∧ ∀ lsn txnId, LogRecord.commit lsn txnId ∉ tail

section Quiet

variable {base executor : Executor}

/-- A statement that has not written its commit record. -/
structure Quiet (base executor : Executor) : Prop where
  log : Uncommitted base.wal.log executor.wal.log
  faultless : BufferPool.Faultless executor.bufferPool.disk
  recorded : Recorded base (fun moment => Uncommitted base.wal.log moment.log) executor

theorem Quiet.start (faultless : BufferPool.Faultless base.bufferPool.disk) : Quiet base base :=
  ⟨⟨[], by simp, by simp⟩, faultless, .nothing⟩

theorem Quiet.pool {pool : BufferPool frameCount} (quiet : Quiet base executor)
    (faultless : BufferPool.Faultless pool.disk) :
    Quiet base (record { executor with bufferPool := pool }) :=
  ⟨quiet.log, faultless, quiet.recorded.record rfl quiet.log⟩

theorem Quiet.wal {wal : WalManager} (quiet : Quiet base executor)
    (appends : wal.log = executor.wal.log ∨ ∃ last, (∀ lsn txnId, last ≠ .commit lsn txnId) ∧
      wal.log = executor.wal.log ++ [last]) :
    Quiet base (record { executor with wal := wal }) := by
  have log : Uncommitted base.wal.log wal.log := by
    rcases quiet.log with ⟨tail, log, noCommit⟩
    rcases appends with same | ⟨last, notCommit, same⟩
    · exact ⟨tail, by rw [same, log], noCommit⟩
    · refine ⟨tail ++ [last], by rw [same, log, List.append_assoc], ?_⟩
      intro lsn txnId inside
      rcases List.mem_append.mp inside with old | new
      · exact noCommit lsn txnId old
      · exact notCommit lsn txnId (List.mem_singleton.mp new).symm
  exact ⟨log, quiet.faultless, quiet.recorded.record rfl log⟩

theorem Quiet.appends {α : Type} {kind : LogRecord → Prop} {call : Fallible Failure WalManager α}
    (appends : ∀ wal, WalManager.Appends kind wal (call wal).2)
    (notCommit : ∀ record, kind record → ∀ lsn txnId, record ≠ .commit lsn txnId) :
    Keeps (Quiet base) (onWal call) := by
  intro executor quiet
  apply quiet.wal
  rcases (appends executor.wal).log with same | ⟨record, isKind, log⟩
  · exact .inl same
  · exact .inr ⟨record, notCommit record isKind, log⟩

theorem Quiet.beginTxn : Keeps (Quiet base) (onWal WalManager.beginTxn) := by
  intro executor quiet
  have begun : (WalManager.beginTxn executor.wal).2.log = executor.wal.log ∨
      ∃ last, (∀ lsn txnId, last ≠ .commit lsn txnId) ∧
        (WalManager.beginTxn executor.wal).2.log = executor.wal.log ++ [last] := by
    rw [WalManager.beginTxn]
    split_ifs
    · exact .inr ⟨_, by simp [LogRecord.withLsn], rfl⟩
    · exact .inl rfl
  exact quiet.wal begun

variable [Crc32]

theorem indifferent_quiet : Indifferent (Quiet base) where
  fetch := fun pageId executor quiet => quiet.pool (BufferPool.onDisk_fetchPage
    BufferPool.faultless_writePage BufferPool.faultless_readPage pageId _ quiet.faultless)
  allocate := fun executor quiet => quiet.pool (BufferPool.onDisk_newPage
    BufferPool.faultless_writePage BufferPool.faultless_allocatePage _ quiet.faultless)
  flush := fun pageId executor quiet => quiet.pool (BufferPool.onDisk_flushPage
    BufferPool.faultless_writePage pageId _ quiet.faultless)
  unpin := by
    intro frameId dirty executor quiet
    refine quiet.pool ?_
    rw [BufferPool.disk_unpin]
    exact quiet.faultless
  edit := fun _ _ quiet => quiet.pool quiet.faultless
  indexes := fun _ _ quiet => ⟨quiet.log, quiet.faultless, quiet.recorded⟩
  pageFile := fun _ _ quiet => ⟨quiet.log, quiet.faultless, quiet.recorded.record rfl quiet.log⟩
  catalogFile := fun _ _ quiet => ⟨quiet.log, quiet.faultless, quiet.recorded.record rfl quiet.log⟩

end Quiet

section Settled

variable {base executor : Executor}

/-- The files but for the data file are those of a state, and the data file is no longer. -/
structure Precedes (moment : Moment) (executor : Executor) : Prop where
  log : moment.log = executor.wal.log
  pages : moment.pages = executor.pageFiles
  catalog : moment.catalog = executor.catalogFile
  length : moment.db.length ≤ executor.bufferPool.disk.file.length

/-- A statement that has written its commit record, and nothing but pages since. -/
structure Settled (base executor : Executor) : Prop where
  faultless : BufferPool.Faultless executor.bufferPool.disk
  recorded : Recorded base
    (fun moment => Uncommitted base.wal.log moment.log ∨ Precedes moment executor) executor

theorem Quiet.commit (quiet : Quiet base executor) (txnId : UInt32) :
    ∃ executor', onWal (WalManager.commit txnId) executor = (.ok (), executor') ∧
      Settled base executor' := by
  refine ⟨_, rfl, quiet.faultless, ?_⟩
  refine (quiet.recorded.mono fun _ before => .inl before).record ?_ ?_
  · rfl
  · exact .inr ⟨rfl, rfl, rfl, le_refl _⟩

variable [Crc32]

theorem Settled.flushPage (settled : Settled base executor) (pageId : UInt32) :
    ∃ executor', onPool (BufferPool.flushPage pageId) executor = (.ok (), executor') ∧
      Settled base executor' := by
  rcases BufferPool.flushPage_ok settled.faultless pageId with ⟨pool, run⟩
  have faultless : BufferPool.OnDisk BufferPool.Faultless
      (BufferPool.flushPage pageId executor.bufferPool).2 :=
    BufferPool.onDisk_flushPage BufferPool.faultless_writePage pageId _ settled.faultless
  have longer : BufferPool.OnDisk
      (fun disk => executor.bufferPool.disk.file.length ≤ disk.file.length)
      (BufferPool.flushPage pageId executor.bufferPool).2 :=
    BufferPool.onDisk_flushPage (BufferPool.length_writePage _) pageId _ (le_refl _)
  rw [run] at faultless longer
  refine ⟨record { executor with bufferPool := pool }, by rw [onPool, run], faultless, ?_⟩
  refine (settled.recorded.mono fun moment before => ?_).record rfl ?_
  · exact before.imp_right fun precedes =>
      ⟨precedes.log, precedes.pages, precedes.catalog, precedes.length.trans longer⟩
  · exact .inr ⟨rfl, rfl, rfl, le_refl _⟩

theorem Settled.flushPages (settled : Settled base executor) (pageIds : List UInt32) :
    ∃ executor', flushPages pageIds executor = (.ok (), executor') ∧ Settled base executor' := by
  induction pageIds generalizing executor with
  | nil => exact ⟨executor, rfl, settled⟩
  | cons pageId pageIds ih =>
      rcases settled.flushPage pageId with ⟨flushed, run, settled'⟩
      rcases ih settled' with ⟨executor', rest, settled''⟩
      refine ⟨executor', ?_, settled''⟩
      rw [Executor.flushPages, forEach, bind_ok (mapError_ok run)]
      exact rest

/-- How a statement ends: it fails before its commit record is written, or it succeeds. -/
inductive Closes (base : Executor) : Except Failure (List Row) × Executor → Prop
  | failed {failure : Failure} {executor : Executor} (quiet : Quiet base executor) :
      Closes base (.error failure, executor)
  | done {rows : List Row} {executor : Executor} (settled : Settled base executor) :
      Closes base (.ok rows, executor)

omit [Crc32] in
theorem Closes.bind {α : Type} {action : Action α} {next : α → Action (List Row)}
    (kept : Keeps (Quiet base) action) (quiet : Quiet base executor)
    (rest : ∀ value executor, Quiet base executor → Closes base (next value executor)) :
    Closes base ((action >>= next) executor) := by
  have between := kept executor quiet
  rw [bind_apply]
  generalize action executor = ended at between ⊢
  rcases ended with ⟨failure | value, executor'⟩
  · exact .failed between
  · exact rest value executor' between

theorem Quiet.finish (quiet : Quiet base executor) (txnId : UInt32) (pageIds : List UInt32) :
    Closes base ((do
      onWal (WalManager.commit txnId)
      flushPages pageIds
      return [] : Action (List Row)) executor) := by
  rcases quiet.commit txnId with ⟨committed, commit, settled⟩
  rcases settled.flushPages pageIds with ⟨flushed, flush, settled'⟩
  rw [bind_ok commit, bind_ok flush]
  exact .done settled'

theorem closes_transact
    {body : UInt32 → UInt32 → FrameId → UInt16 → Bool → Bytes → Unit → Action (Bool × Unit)}
    (kept : ∀ txnId pageId frameId slotId dirty tuple result,
      Keeps (Quiet base) (body txnId pageId frameId slotId dirty tuple result))
    (pageIds : List UInt32) (quiet : Quiet base executor) :
    Closes base (transact body pageIds executor) := by
  refine Closes.bind Quiet.beginTxn quiet fun txnId executor quiet => ?_
  refine Closes.bind (indifferent_quiet.steady.calm.scanPages (kept txnId) pageIds ()) quiet ?_
  exact fun scanned executor quiet => quiet.finish txnId scanned.1

theorem closes_execInsert (table : String) (values : List Value) (quiet : Quiet base executor) :
    Closes base (execInsert table values executor) := by
  refine Closes.bind (keeps_schemaOf table) quiet fun schema executor quiet => ?_
  rw [get_bind]
  refine Closes.bind (keeps_ofExcept _) quiet fun _ executor quiet => ?_
  refine Closes.bind (keeps_ofExcept _) quiet fun rowBytes executor quiet => ?_
  refine Closes.bind Quiet.beginTxn quiet fun txnId executor quiet => ?_
  refine Closes.bind (keeps_pagesOf table) quiet fun pageIds executor quiet => ?_
  have inserts (pageId : UInt32) :
      Keeps (Quiet base) (onWal (WalManager.logInsert txnId pageId rowBytes)) :=
    Quiet.appends (WalManager.appends_logInsert · txnId pageId rowBytes)
      (by rintro _ ⟨_, _, rfl⟩ lsn txnId ⟨⟩)
  have fresh : Keeps (Quiet base) (insertFresh txnId table rowBytes) :=
    indifferent_quiet.insertFresh inserts
      (fun _ quiet => ⟨quiet.log, quiet.faultless, quiet.recorded⟩) table
  refine Closes.bind (indifferent_quiet.placeRow inserts fresh pageIds) quiet
    fun rid executor quiet => ?_
  refine Closes.bind (indifferent_quiet.indexes _) quiet fun _ executor quiet => ?_
  exact quiet.finish txnId [rid.pageId]

/-- A statement that changes rows fails before it commits or succeeds. -/
theorem closes_execute [Build] {stmt : Statement} (changes : stmt.ChangesRows) (order : HashOrder)
    (quiet : Quiet base executor) : Closes base (execute order stmt executor) := by
  cases stmt with
  | createTable table columns => exact changes.elim
  | insert table values => exact closes_execInsert table values quiet
  | select table columns filter orderBy limit => exact changes.elim
  | delete table filter =>
      refine Closes.bind (keeps_schemaOf table) quiet fun schema executor quiet => ?_
      refine Closes.bind (keeps_pagesOf table) quiet fun pageIds executor quiet => ?_
      refine closes_transact (fun txnId => ?_) pageIds quiet
      refine indifferent_quiet.steady.deleteBody (fun pageId slotId => ?_) table schema filter
      exact Quiet.appends (WalManager.appends_logDelete · txnId pageId slotId)
        (by rintro _ ⟨_, _, rfl⟩ lsn txnId ⟨⟩)
  | update table assignments filter =>
      refine Closes.bind (keeps_schemaOf table) quiet fun schema executor quiet => ?_
      refine Closes.bind (keeps_pagesOf table) quiet fun pageIds executor quiet => ?_
      refine closes_transact (fun txnId => ?_) pageIds quiet
      refine indifferent_quiet.steady.updateBody (fun pageId slotId oldData newData => ?_) ?_
        table schema assignments filter
      · exact Quiet.appends (WalManager.appends_logUpdate · txnId pageId slotId oldData newData)
          (by rintro _ ⟨_, rfl⟩ lsn txnId ⟨⟩)
      · exact Quiet.appends (WalManager.appends_abort · txnId)
          (by rintro _ ⟨_, rfl⟩ lsn txnId ⟨⟩)

end Settled

end Executor

end VenomDb
