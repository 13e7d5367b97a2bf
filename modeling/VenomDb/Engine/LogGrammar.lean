import VenomDb.Engine.Durability

/-!
# The grammar of the log

What a session appends to the log can be read back as what its statements did. Each
statement leaves no records or one block of them, the blocks are numbered one after
another, and a block ends with a commit record if and only if its statement succeeded.
A log that a crash cuts off is the beginning of such a text.
-/

namespace VenomDb

open Fallible

/-- The data records of a statement that got to its end. -/
def Statement.Logs (txnId : UInt32) : Statement → List LogRecord → Prop
  | .insert .., data =>
      ∃ lsn pageId slotId bytes, data = [.insert lsn txnId pageId slotId bytes]
  | .delete .., data =>
      ∀ record ∈ data, ∃ lsn pageId slotId oldData,
        record = .delete lsn txnId pageId slotId oldData
  | .update .., data =>
      ∀ record ∈ data, ∃ lsn pageId slotId oldData newData,
        record = .update lsn txnId pageId slotId oldData newData
  | _, _ => False

/-- The records that a statement leaves under a transaction id, by its result. -/
inductive Block (txnId : UInt32) :
    Statement → Except Failure (List Row) → List LogRecord → Prop
  | committed {stmt : Statement} {rows : List Row} {first last : UInt64} {data : List LogRecord}
      (logged : stmt.Logs txnId data) :
      Block txnId stmt (.ok rows) (.begin first txnId :: data ++ [.commit last txnId])
  /-- A new row did not fit. -/
  | aborted {table : String} {assignments : List Assignment} {filter : Option Expr}
      {first last : UInt64} {data : List LogRecord}
      (logged : (Statement.update table assignments filter).Logs txnId data) :
      Block txnId (.update table assignments filter) (.error (.sql .updateLarger))
        (.begin first txnId :: data ++ [.abort last txnId])
  /-- Any other error or panic: nothing marks the end of the transaction. -/
  | unfinished {stmt : Statement} {failure : Failure} {first : UInt64}
      {data rest : List LogRecord} (logged : stmt.Logs txnId (data ++ rest)) :
      Block txnId stmt (.error failure) (.begin first txnId :: data)

/-- A statement and its result. -/
abbrev Entry := Statement × Except Failure (List Row)

/-- The records of statements with their results, and the number of their transactions. -/
inductive Transcribes : List Entry → ℕ → List LogRecord → Prop
  | start : Transcribes [] 0 []
  | silent {entries : List Entry} {count : ℕ}
      {log : List LogRecord} {stmt : Statement} {result : Except Failure (List Row)}
      (before : Transcribes entries count log) (nothing : stmt.ChangesRows → ¬result.isOk) :
      Transcribes (entries ++ [(stmt, result)]) count log
  | transaction {entries : List Entry} {count : ℕ}
      {log records : List LogRecord} {stmt : Statement} {result : Except Failure (List Row)}
      {txnId : UInt32} (before : Transcribes entries count log)
      (number : txnId.toNat = count + 1) (block : Block txnId stmt result records) :
      Transcribes (entries ++ [(stmt, result)]) (count + 1) (log ++ records)

/-- A session as it went: it ended with the program, or a crash interrupted its last statement,
which stands here with what it would have returned. -/
inductive Course
  | ended (entries : List Entry)
  | crashed (entries : List Entry) (last : Entry)

/-- What a session leaves in the log: the records of its statements. Only those of an interrupted
statement may break off. -/
inductive Text : Course → List LogRecord → Prop
  | whole {entries : List Entry} {count : ℕ} {log : List LogRecord}
      (transcribes : Transcribes entries count log) : Text (.ended entries) log
  | idle {entries : List Entry} {count : ℕ} {log : List LogRecord} {stmt : Statement}
      {result : Except Failure (List Row)} (before : Transcribes entries count log)
      (nothing : stmt.ChangesRows → ¬result.isOk) : Text (.crashed entries (stmt, result)) log
  | broken {entries : List Entry} {count : ℕ} {log part rest : List LogRecord} {stmt : Statement}
      {result : Except Failure (List Row)} {txnId : UInt32}
      (before : Transcribes entries count log) (number : txnId.toNat = count + 1)
      (block : Block txnId stmt result (part ++ rest)) :
      Text (.crashed entries (stmt, result)) (log ++ part)

/-- Records numbered from zero. -/
def Stamped (records : List LogRecord) : Prop :=
  records.map LogRecord.lsn = (List.range records.length).map UInt64.ofNat

theorem Stamped.of_prefix {part records : List LogRecord} (stamped : Stamped records)
    (before : part <+: records) : Stamped part := by
  rcases before with ⟨rest, rfl⟩
  rw [Stamped, List.map_append, List.length_append, List.range_add, List.map_append] at stamped
  apply (List.append_inj stamped _).1
  rw [List.length_map, List.length_map, List.length_range]

namespace WalManager

section Stamps

variable {old log : List LogRecord} {wal : WalManager}

/-- The log continues an old one by numbered records, and has got at least this far. -/
structure Continues (old log : List LogRecord) (wal : WalManager) : Prop where
  reaches : log <+: wal.log
  stamps : ∃ added, wal.log = old ++ added ∧ Stamped added ∧
    wal.currentLsn = UInt64.ofNat added.length

theorem Continues.append (continues : Continues old log wal) (record : LogRecord) :
    Continues old log (append record wal) := by
  rcases continues.stamps with ⟨added, appended, stamped, current⟩
  apply Continues.mk
  · exact continues.reaches.trans (List.prefix_append _ _)
  refine ⟨added ++ [record.withLsn wal.currentLsn], ?_, ?_, ?_⟩
  · change wal.log ++ [record.withLsn wal.currentLsn] = _
    rw [appended, List.append_assoc]
  · have last : (record.withLsn wal.currentLsn).lsn = UInt64.ofNat added.length := by
      rw [← current]
      cases record <;> rfl
    rw [Stamped, List.map_append, stamped, List.length_append, List.length_singleton,
      List.range_succ, List.map_append, List.map_singleton, List.map_singleton, last]
  · change wal.currentLsn + 1 = _
    rw [current, List.length_append, List.length_singleton, UInt64.ofNat_add]
    rfl

theorem continues_append (record : LogRecord) :
    Keeps (Continues old log) (Fallible.modify (WalManager.append record) :
      Fallible Failure WalManager Unit) :=
  keeps_modify fun _ continues => continues.append record

theorem continues_modify {change : WalManager → WalManager}
    (same : ∀ wal, (change wal).log = wal.log ∧ (change wal).currentLsn = wal.currentLsn) :
    Keeps (Continues old log) (Fallible.modify change : Fallible Failure WalManager Unit) := by
  apply keeps_modify
  intro wal continues
  rcases same wal with ⟨sameLog, sameLsn⟩
  apply Continues.mk
  · rw [sameLog]
    exact continues.reaches
  · rw [sameLog, sameLsn]
    exact continues.stamps

theorem continues_beginTxn : Keeps (Continues old log) beginTxn := by
  intro wal continues
  rw [beginTxn]
  split_ifs
  · apply Continues.append
    exact ⟨continues.reaches, continues.stamps⟩
  · exact continues

theorem continues_logInsert (txnId pageId : UInt32) (data : Bytes) :
    Keeps (Continues old log) (logInsert txnId pageId data) := by
  apply keeps_get_bind
  intro wal
  refine Keeps.bind (keeps_ofExcept _) (fun inserted => ?_) wal
  rcases inserted with ⟨slotId, page⟩
  apply Keeps.bind
  · apply continues_modify
    exact fun _ => ⟨rfl, rfl⟩
  · intro _
    cases slotId with
    | none => exact keeps_throw _
    | some slotId => exact (continues_append _).bind fun _ => keeps_pure _

theorem continues_logDelete (txnId pageId : UInt32) (slotId : UInt16) :
    Keeps (Continues old log) (logDelete txnId pageId slotId) := by
  apply keeps_get_bind
  intro wal
  cases wal.pages.lookup pageId with
  | none => exact Keeps.bind (continues_append _) (fun _ => keeps_pure _) wal
  | some page =>
      refine Keeps.bind (keeps_ofExcept _) (fun oldData => ?_) wal
      refine (keeps_ofExcept _).bind fun deleted => ?_
      rcases deleted with ⟨deleted, page'⟩
      apply Keeps.bind
      · apply continues_modify
        exact fun _ => ⟨rfl, rfl⟩
      · exact fun _ => (continues_append _).bind fun _ => keeps_pure _

theorem continues_logUpdate (txnId pageId : UInt32) (slotId : UInt16) (oldData newData : Bytes) :
    Keeps (Continues old log) (logUpdate txnId pageId slotId oldData newData) :=
  continues_append _

theorem continues_commit (txnId : UInt32) : Keeps (Continues old log) (commit txnId) := by
  refine (continues_append _).bind fun _ => continues_modify ?_
  exact fun _ => ⟨rfl, rfl⟩

theorem continues_abort (txnId : UInt32) : Keeps (Continues old log) (abort txnId) := by
  refine (continues_append _).bind fun _ => continues_modify ?_
  exact fun _ => ⟨rfl, rfl⟩

end Stamps

section Added

variable {base wal wal' : WalManager} {txnId : UInt32} {shape shape' : List LogRecord → Prop}
  {logged : List LogRecord → Prop}

/-- A transaction was begun, and records of a certain shape were added since. -/
structure Added (base : WalManager) (shape : List LogRecord → Prop) (txnId : UInt32)
    (wal : WalManager) : Prop where
  given : txnId = base.nextTxnId
  next : wal.nextTxnId.toNat = base.nextTxnId.toNat + 1
  log : ∃ records, shape records ∧ wal.log = base.log ++ records

/-- A begin record and data records. -/
def Begun (logged : List LogRecord → Prop) (txnId : UInt32) (records : List LogRecord) : Prop :=
  ∃ first data, logged data ∧ records = .begin first txnId :: data

theorem Added.imp (added : Added base shape txnId wal)
    (weaker : ∀ records, shape records → shape' records) : Added base shape' txnId wal := by
  rcases added.log with ⟨records, shaped, log⟩
  exact ⟨added.given, added.next, records, weaker records shaped, log⟩

theorem Added.append {record : LogRecord} (added : Added base shape txnId wal)
    (nextTxnId : wal'.nextTxnId = wal.nextTxnId) (log : wal'.log = wal.log ++ [record])
    (grows : ∀ records, shape records → shape' (records ++ [record])) :
    Added base shape' txnId wal' := by
  rcases added.log with ⟨records, shaped, before⟩
  apply Added.mk added.given
  · rw [nextTxnId]
    exact added.next
  · refine ⟨records ++ [record], grows records shaped, ?_⟩
    rw [log, before, List.append_assoc]

/-- A call that appends another data record, or none. -/
theorem Added.data {kind : LogRecord → Prop} (added : Added base (Begun logged txnId) txnId wal)
    (appends : Appends kind wal wal')
    (another : ∀ data record, logged data → kind record → logged (data ++ [record])) :
    Added base (Begun logged txnId) txnId wal' := by
  rcases appends.log with same | ⟨record, isKind, log⟩
  · rcases added.log with ⟨records, shaped, before⟩
    apply Added.mk added.given
    · rw [appends.nextTxnId]
      exact added.next
    · exact ⟨records, shaped, same.trans before⟩
  · apply added.append appends.nextTxnId log
    rintro _ ⟨first, data, isLogged, rfl⟩
    exact ⟨first, data ++ [record], another data record isLogged isKind, rfl⟩

theorem ends_beginTxn :
    Ends (fun wal => wal = base) beginTxn
      (fun txnId => Added base (Begun (fun data => data = []) txnId) txnId)
      (fun _ wal => wal = base) := by
  rintro wal rfl
  rw [beginTxn]
  split_ifs with room
  · refine ⟨rfl, ?_, [.begin wal.currentLsn wal.nextTxnId], ⟨_, [], rfl, rfl⟩, rfl⟩
    exact Counter.toNat_succ room
  · rfl

/-- An insert that does not fail is logged. -/
theorem ends_logInsert (table : String) (values : List Value) {pageId : UInt32} {data : Bytes} :
    Ends (Added base (Begun (fun data => data = []) txnId) txnId) (logInsert txnId pageId data)
      (fun _ => Added base (Begun ((Statement.insert table values).Logs txnId) txnId) txnId)
      (fun _ => Added base (Begun (fun data => data = []) txnId) txnId) := by
  intro wal added
  rw [logInsert, get_bind, bind_apply, ofExcept_apply]
  rcases (entry wal.pages pageId).insertTuple data with failure | ⟨_ | slotId, page⟩
  · exact added
  · exact ⟨added.given, added.next, added.log⟩
  · refine added.append rfl rfl ?_
    rintro _ ⟨first, _, rfl, rfl⟩
    exact ⟨first, _, ⟨_, _, _, _, rfl⟩, rfl⟩

variable {stmt : Statement}

theorem ends_commit :
    Ends (Added base (Begun (stmt.Logs txnId) txnId) txnId) (commit txnId)
      (fun _ => Added base (fun records => ∀ rows, Block txnId stmt (.ok rows) records) txnId)
      (fun _ _ => False) := by
  intro wal added
  refine added.append rfl rfl ?_
  rintro _ ⟨first, data, logged, rfl⟩ rows
  exact .committed logged

theorem ends_abort {table : String} {assignments : List Assignment} {filter : Option Expr} :
    Ends (Added base (Begun ((Statement.update table assignments filter).Logs txnId) txnId) txnId)
      (abort txnId)
      (fun _ => Added base
        (Block txnId (.update table assignments filter) (.error (.sql .updateLarger))) txnId)
      (fun _ _ => False) := by
  intro wal added
  refine added.append rfl rfl ?_
  rintro _ ⟨first, data, logged, rfl⟩
  exact .aborted logged

theorem keeps_logDelete {pageId : UInt32} {slotId : UInt16} {table : String}
    {filter : Option Expr} :
    Keeps (Added base (Begun ((Statement.delete table filter).Logs txnId) txnId) txnId)
      (logDelete txnId pageId slotId) := by
  intro wal added
  apply added.data (appends_logDelete wal txnId pageId slotId)
  rintro data record logged ⟨lsn, oldData, rfl⟩ other inside
  rcases List.mem_append.mp inside with old | new
  · exact logged other old
  · exact ⟨_, _, _, _, List.mem_singleton.mp new⟩

theorem keeps_logUpdate {pageId : UInt32} {slotId : UInt16} {oldData newData : Bytes}
    {table : String} {assignments : List Assignment} {filter : Option Expr} :
    Keeps (Added base (Begun ((Statement.update table assignments filter).Logs txnId) txnId) txnId)
      (logUpdate txnId pageId slotId oldData newData) := by
  intro wal added
  apply added.data (appends_logUpdate wal txnId pageId slotId oldData newData)
  rintro data record logged ⟨lsn, rfl⟩ other inside
  rcases List.mem_append.mp inside with old | new
  · exact logged other old
  · exact ⟨_, _, _, _, _, List.mem_singleton.mp new⟩

/-- What a statement leaves in the log: nothing, or a block. -/
inductive Leaves (base : WalManager) (stmt : Statement) (result : Except Failure (List Row)) :
    WalManager → Prop
  | nothing (idle : stmt.ChangesRows → ¬result.isOk) : Leaves base stmt result base
  | block {txnId : UInt32} {wal : WalManager}
      (added : Added base (Block txnId stmt result) txnId wal) : Leaves base stmt result wal

/-- A transaction that nothing ends. -/
theorem Added.unfinished {failure : Failure} (added : Added base (Begun logged txnId) txnId wal)
    (cut : ∀ data, logged data → ∃ rest, stmt.Logs txnId (data ++ rest)) :
    Leaves base stmt (.error failure) wal := by
  apply Leaves.block (added.imp _)
  rintro _ ⟨first, data, isLogged, rfl⟩
  rcases cut data isLogged with ⟨rest, logs⟩
  exact .unfinished logs

/-- One more statement, one more block or none. -/
theorem Leaves.transcribes {entries : List Entry} {count : ℕ}
    {old added : List LogRecord} {result : Except Failure (List Row)}
    (leaves : Leaves base stmt result wal) (before : Transcribes entries count added)
    (log : base.log = old ++ added) (next : base.nextTxnId.toNat = count + 1) :
    ∃ count' added', Transcribes (entries ++ [(stmt, result)]) count' added' ∧
      wal.log = old ++ added' ∧ wal.nextTxnId.toNat = count' + 1 := by
  cases leaves with
  | nothing idle => exact ⟨count, added, before.silent idle, log, next⟩
  | block block =>
      rcases block.log with ⟨records, shaped, appended⟩
      refine ⟨count + 1, added ++ records, before.transaction ?_ shaped, ?_, ?_⟩
      · rw [block.given]
        exact next
      · rw [appended, log, List.append_assoc]
      · rw [block.next, next]

/-- The same where the statement was cut off. -/
theorem Leaves.text {entries : List Entry} {count : ℕ} {added part rest : List LogRecord}
    {result : Except Failure (List Row)} (leaves : Leaves base stmt result wal)
    (before : Transcribes entries count added) (next : base.nextTxnId.toNat = count + 1)
    (grown : base.log ++ part ++ rest = wal.log) :
    Text (.crashed entries (stmt, result)) (added ++ part) := by
  rw [List.append_assoc] at grown
  cases leaves with
  | nothing idle =>
      rcases List.append_eq_nil_iff.mp (List.append_right_eq_self.mp grown) with ⟨rfl, -⟩
      rw [List.append_nil]
      exact .idle before idle
  | block block =>
      rcases block.log with ⟨records, shaped, appended⟩
      rw [appended] at grown
      rw [← List.append_cancel_left grown] at shaped
      apply Text.broken before _ shaped
      rw [block.given]
      exact next

end Added

end WalManager

namespace Executor

section Failing

variable [Crc32] {α : Type} {before : Executor → Prop} {failed : Failure → Executor → Prop}

omit [Crc32] in
/-- The loop over the slots, where an error may leave less than what holds otherwise. -/
theorem scanSlots_failing {frameId : FrameId}
    {body : UInt16 → Bool → Bytes → α → Action (Bool × α)}
    (weaker : ∀ failure executor, before executor → failed failure executor)
    (steps : ∀ slotId dirty tuple result,
      Ends before (body slotId dirty tuple result) (fun _ => before) failed)
    (slotIds : List UInt16) (dirty : Bool) (result : α) :
    Ends before (scanSlots frameId body slotIds dirty result) (fun _ => before) failed := by
  induction slotIds generalizing dirty result with
  | nil => exact ends_pure fun _ holds => holds
  | cons slotId slotIds ih =>
      rw [scanSlots]
      refine ((keeps_getTuple frameId slotId).ends.failing weaker).bind fun tuple => ?_
      cases tuple with
      | none => exact ih dirty result
      | some tuple => exact (steps slotId dirty tuple result).bind fun changed => ih _ _

/-- The loop over the pages, likewise. -/
theorem Calm.scanPages_failing (calm : Calm before)
    {body : UInt32 → FrameId → UInt16 → Bool → Bytes → α → Action (Bool × α)}
    (weaker : ∀ failure executor, before executor → failed failure executor)
    (steps : ∀ pageId frameId slotId dirty tuple result,
      Ends before (body pageId frameId slotId dirty tuple result) (fun _ => before) failed)
    (pageIds : List UInt32) (result : α) :
    Ends before (Executor.scanPages body pageIds result) (fun _ => before) failed := by
  induction pageIds generalizing result with
  | nil => exact ends_pure fun _ holds => holds
  | cons pageId pageIds ih =>
      rw [Executor.scanPages]
      refine ((calm.fetchPage pageId).ends.failing weaker).bind fun frameId => ?_
      refine ((keeps_slots frameId).ends.failing weaker).bind fun slotIds => ?_
      refine (scanSlots_failing weaker (steps pageId frameId) slotIds false result).bind
        fun scanned => ?_
      refine ((calm.unpin frameId scanned.1).ends.failing weaker).bind fun _ => ?_
      exact (ih scanned.2).bind fun _ => ends_pure fun _ holds => holds

end Failing

section Serves

variable {α : Type} {holds : WalManager → Prop}

/-- The disk answers every call, and the log manager satisfies a condition. -/
structure Serves (holds : WalManager → Prop) (executor : Executor) : Prop where
  faultless : BufferPool.Faultless executor.bufferPool.disk
  wal : holds executor.wal

theorem serves_onWal {call : Fallible Failure WalManager α} {before : WalManager → Prop}
    {after : α → WalManager → Prop} {failed : Failure → WalManager → Prop}
    (ends : Ends before call after failed) :
    Ends (Serves before) (onWal call) (fun value => Serves (after value))
      (fun failure => Serves (failed failure)) := by
  intro executor serves
  have ended := ends executor.wal serves.wal
  rw [onWal]
  generalize call executor.wal = result at ended ⊢
  rcases result with ⟨failure | value, wal⟩
  · exact ⟨serves.faultless, ended⟩
  · exact ⟨serves.faultless, ended⟩

variable [Crc32]

theorem indifferent_serves : Indifferent (Serves holds) where
  fetch := fun pageId executor serves => ⟨BufferPool.onDisk_fetchPage
    BufferPool.faultless_writePage BufferPool.faultless_readPage pageId _ serves.faultless,
    serves.wal⟩
  allocate := fun executor serves => ⟨BufferPool.onDisk_newPage
    BufferPool.faultless_writePage BufferPool.faultless_allocatePage _ serves.faultless,
    serves.wal⟩
  flush := fun pageId executor serves => ⟨BufferPool.onDisk_flushPage
    BufferPool.faultless_writePage pageId _ serves.faultless, serves.wal⟩
  unpin := by
    intro frameId dirty executor serves
    refine ⟨?_, serves.wal⟩
    change BufferPool.Faultless (executor.bufferPool.unpin frameId dirty).disk
    rw [BufferPool.disk_unpin]
    exact serves.faultless
  edit := fun _ _ serves => ⟨serves.faultless, serves.wal⟩
  indexes := fun _ _ serves => ⟨serves.faultless, serves.wal⟩
  pageFile := fun _ _ serves => ⟨serves.faultless, serves.wal⟩
  catalogFile := fun _ _ serves => ⟨serves.faultless, serves.wal⟩

/-- A flush never fails. -/
theorem serves_flushPages (pageIds : List UInt32) :
    Ends (Serves holds) (flushPages pageIds) (fun _ => Serves holds) (fun _ _ => False) := by
  apply ends_forEach
  intro pageId executor serves
  have kept := indifferent_serves.flush pageId executor serves
  rcases BufferPool.flushPage_ok serves.faultless pageId with ⟨pool, run⟩
  have flushed : onPool (BufferPool.flushPage pageId) executor =
      (.ok (), record { executor with bufferPool := pool }) := by rw [onPool, run]
  rw [flushed] at kept
  rw [mapError_ok flushed]
  exact kept

end Serves

section Statements

open WalManager

variable [Crc32] {base : WalManager} {stmt : Statement} {txnId : UInt32}

/-- A statement that fails has left what it should. -/
def Fails (base : WalManager) (stmt : Statement) (failure : Failure) : Executor → Prop :=
  Serves (Leaves base stmt (.error failure))

/-- The transaction of a statement, while its data records are written. -/
def Running (base : WalManager) (stmt : Statement) (txnId : UInt32) : Executor → Prop :=
  Serves (Added base (Begun (stmt.Logs txnId) txnId) txnId)

omit [Crc32] in
theorem idle_fails (failure : Failure) (executor : Executor)
    (idle : Serves (fun wal => wal = base) executor) : Fails base stmt failure executor := by
  rcases idle with ⟨faultless, same⟩
  refine ⟨faultless, ?_⟩
  rw [same]
  exact .nothing fun _ => by simp [Except.isOk, Except.toBool]

omit [Crc32] in
theorem running_fails (failure : Failure) (executor : Executor)
    (running : Running base stmt txnId executor) : Fails base stmt failure executor := by
  refine ⟨running.faultless, running.wal.unfinished fun data logged => ⟨[], ?_⟩⟩
  rw [List.append_nil]
  exact logged

/-- Commit and flush. -/
theorem leaves_finish (pageIds : List UInt32) :
    Ends (Running base stmt txnId) (do
      onWal (WalManager.commit txnId)
      flushPages pageIds
      return ([] : List Row))
      (fun rows => Serves (Leaves base stmt (.ok rows))) (Fails base stmt) := by
  refine ((serves_onWal ends_commit).failing ?_).bind fun _ => ?_
  · exact fun _ _ impossible => impossible.wal.elim
  refine ((serves_flushPages pageIds).failing fun _ _ impossible => impossible.elim).bind fun _ =>
    ?_
  apply ends_pure
  exact fun executor finished =>
    ⟨finished.faultless, .block (finished.wal.imp fun _ blocks => blocks [])⟩

theorem leaves_transact
    {body : UInt32 → UInt32 → FrameId → UInt16 → Bool → Bytes → Unit → Action (Bool × Unit)}
    (empty : ∀ txnId, stmt.Logs txnId [])
    (steps : ∀ txnId pageId frameId slotId dirty tuple result,
      Ends (Running base stmt txnId) (body txnId pageId frameId slotId dirty tuple result)
        (fun _ => Running base stmt txnId) (Fails base stmt))
    (pageIds : List UInt32) :
    Ends (Serves fun wal => wal = base) (transact body pageIds)
      (fun rows => Serves (Leaves base stmt (.ok rows))) (Fails base stmt) := by
  refine ((serves_onWal ends_beginTxn).failing idle_fails).bind fun txnId => ?_
  have scan := indifferent_serves.steady.calm.scanPages_failing running_fails (steps txnId)
    pageIds ()
  have starts (executor : Executor)
      (begun : Serves (Added base (Begun (fun data => data = []) txnId) txnId) executor) :
      Running base stmt txnId executor := by
    refine ⟨begun.faultless, begun.wal.imp ?_⟩
    rintro _ ⟨first, _, rfl, rfl⟩
    exact ⟨first, [], empty txnId, rfl⟩
  refine (scan.imp starts (fun _ _ running => running) fun _ _ fails => fails).bind fun scanned =>
    ?_
  exact leaves_finish scanned.1

theorem running_deleteBody (table : String) (schema : Schema) (filter : Option Expr)
    (pageId : UInt32) (frameId : FrameId) (slotId : UInt16) (dirty : Bool) (tuple : Bytes)
    (result : Unit) :
    Ends (Running base (.delete table filter) txnId)
      (deleteBody table schema filter txnId pageId frameId slotId dirty tuple result)
      (fun _ => Running base (.delete table filter) txnId)
      (Fails base (.delete table filter)) := by
  have kept := indifferent_serves.steady.deleteBody (fun pageId slotId =>
    (serves_onWal keeps_logDelete.ends : Ends (Running base (.delete table filter) txnId)
      (onWal (logDelete txnId pageId slotId)) _ _).keeps) table schema filter pageId frameId slotId
      dirty tuple result
  exact kept.ends.failing running_fails

theorem running_updateBody (table : String) (schema : Schema) (assignments : List Assignment)
    (filter : Option Expr) (pageId : UInt32) (frameId : FrameId) (slotId : UInt16) (dirty : Bool)
    (oldBytes : Bytes) (result : Unit) :
    Ends (Running base (.update table assignments filter) txnId)
      (updateBody table schema assignments filter txnId pageId frameId slotId dirty oldBytes result)
      (fun _ => Running base (.update table assignments filter) txnId)
      (Fails base (.update table assignments filter)) := by
  refine ((keeps_ofExcept _).ends.failing running_fails).bind fun oldRow => ?_
  refine ((keeps_ofExcept _).ends.failing running_fails).bind fun selected => ?_
  split_ifs
  · apply ends_get_then
    intro executor
    refine ((keeps_ofExcept _).ends.failing running_fails).bind fun rewritten => ?_
    rcases rewritten with ⟨row, newBytes⟩
    refine ((serves_onWal keeps_logUpdate.ends).failing running_fails).bind fun _ => ?_
    have steady : Steady (Running base (.update table assignments filter) txnId) :=
      indifferent_serves.steady
    have overwrites := steady.onPage frameId false
      (fun updated => ⟨slotId, _, .inr ⟨newBytes, updated⟩⟩)
    refine (overwrites.ends.failing running_fails).bind fun ok => ?_
    split_ifs
    · refine ((steady.indexes _).ends.failing running_fails).bind fun _ => ?_
      exact ends_pure fun _ running => running
    · refine ((steady.unpin _ _).ends.failing running_fails).bind fun _ => ?_
      refine ((serves_onWal ends_abort).failing ?_).bind fun _ => ?_
      · exact fun _ _ impossible => impossible.wal.elim
      · exact ends_throw fun _ aborted => ⟨aborted.faultless, .block aborted.wal⟩
  · exact ends_pure fun _ running => running

section Insert

variable {table : String} {values : List Value} {rowBytes : Bytes}

/-- The transaction of an `INSERT`, before its row is logged. -/
def Started (base : WalManager) (txnId : UInt32) : Executor → Prop :=
  Serves (Added base (Begun (fun data => data = []) txnId) txnId)

omit [Crc32] in
theorem started_fails (failure : Failure) (executor : Executor)
    (started : Started base txnId executor) :
    Fails base (.insert table values) failure executor := by
  refine ⟨started.faultless, started.wal.unfinished ?_⟩
  rintro _ rfl
  exact ⟨[.insert 0 txnId 0 0 []], _, _, _, _, rfl⟩

theorem running_insertInto (pageId : UInt32) (frameId : FrameId) (wrap : IoError → SqlError) :
    Ends (Started base txnId) (insertInto txnId pageId frameId wrap rowBytes)
      (fun _ => Running base (.insert table values) txnId) (Fails base (.insert table values)) := by
  have steady : Indifferent (Running base (.insert table values) txnId) := indifferent_serves
  refine Ends.bind ((serves_onWal (ends_logInsert table values)).mapError ?_) fun _ => ?_
  · exact fun failure executor started => started_fails _ executor started
  have inserts : Keeps (Running base (.insert table values) txnId)
      (onPage frameId none fun page => page.insertTuple rowBytes) :=
    steady.onPage frameId none Page.insertTuple_id
  refine (inserts.ends.failing running_fails).bind fun _ => ?_
  refine ((steady.unpin frameId true).ends.failing running_fails).bind fun _ => ?_
  exact ends_pure fun _ running => running

/-- The row is logged once it has got its place. -/
def Placing (base : WalManager) (table : String) (values : List Value) (txnId : UInt32) :
    Option Rid → Executor → Prop
  | none => Started base txnId
  | some _ => Running base (.insert table values) txnId

theorem placing_insertExisting (pageIds : List UInt32) :
    Ends (Started base txnId) (insertExisting txnId rowBytes pageIds)
      (Placing base table values txnId) (Fails base (.insert table values)) := by
  have calm : Calm (Started base txnId) := indifferent_serves.steady.calm
  induction pageIds with
  | nil => exact ends_pure fun _ started => started
  | cons pageId pageIds ih =>
      rw [insertExisting]
      refine ((calm.fetchPage pageId).ends.failing started_fails).bind fun frameId => ?_
      apply ends_get_then
      intro executor
      dsimp only
      split_ifs
      · refine (running_insertInto pageId frameId _).bind fun slotId => ?_
        exact ends_pure fun _ running => running
      · refine ((calm.unpin frameId false).ends.failing started_fails).bind fun _ => ?_
        exact ih

theorem running_insertFresh (name : String) :
    Ends (Started base txnId) (insertFresh txnId name rowBytes)
      (fun _ => Running base (.insert table values) txnId) (Fails base (.insert table values)) := by
  have unlogged : Indifferent (Started base txnId) := indifferent_serves
  have logged : Indifferent (Running base (.insert table values) txnId) := indifferent_serves
  refine ((unlogged.allocate.mapError _).ends.failing started_fails).bind fun fresh => ?_
  rcases fresh with ⟨pageId, frameId⟩
  refine (running_insertInto pageId frameId _).bind fun slotId => ?_
  apply ends_modify_bind (Running base (.insert table values) txnId)
  · exact fun _ running => ⟨running.faultless, running.wal⟩
  refine ((logged.pageFile name).ends.failing running_fails).bind fun _ => ?_
  exact ends_pure fun _ running => running

theorem running_placeRow (name : String) (pageIds : List UInt32) :
    Ends (Started base txnId) (placeRow txnId name rowBytes pageIds)
      (fun _ => Running base (.insert table values) txnId) (Fails base (.insert table values)) := by
  refine (placing_insertExisting pageIds).bind fun found => ?_
  cases found with
  | none => exact running_insertFresh name
  | some rid => exact ends_pure fun _ running => running

theorem leaves_execInsert (table : String) (values : List Value) :
    Ends (Serves fun wal => wal = base) (execInsert table values)
      (fun rows => Serves (Leaves base (.insert table values) (.ok rows)))
      (Fails base (.insert table values)) := by
  refine ((keeps_schemaOf table).ends.failing idle_fails).bind fun schema => ?_
  apply ends_get_then
  intro executor
  refine ((keeps_ofExcept _).ends.failing idle_fails).bind fun _ => ?_
  refine ((keeps_ofExcept _).ends.failing idle_fails).bind fun rowBytes => ?_
  refine ((serves_onWal ends_beginTxn).failing idle_fails).bind fun txnId => ?_
  have pages : Keeps (Started base txnId) (pagesOf table) := keeps_pagesOf table
  refine (pages.ends.failing started_fails).bind fun pageIds => ?_
  refine (running_placeRow table pageIds).bind fun rid => ?_
  refine ((indifferent_serves.indexes _).ends.failing running_fails).bind fun _ => ?_
  exact leaves_finish [rid.pageId]

end Insert

omit [Crc32] in
/-- A statement that changes no rows leaves the log manager alone. -/
theorem leaves_of_keeps {action : Action (List Row)} (reads : ¬stmt.ChangesRows)
    (kept : Keeps (Serves fun wal => wal = base) action) :
    Ends (Serves fun wal => wal = base) action
      (fun rows => Serves (Leaves base stmt (.ok rows))) (Fails base stmt) := by
  apply kept.ends.imp (fun _ idle => idle)
  · rintro rows executor ⟨faultless, same⟩
    refine ⟨faultless, ?_⟩
    rw [same]
    exact .nothing fun changes => absurd changes reads
  · exact idle_fails

/-- Every statement leaves nothing or a block, however it ends. -/
theorem leaves_execute [Build] (order : HashOrder) (stmt : Statement) :
    Ends (Serves fun wal => wal = base) (execute order stmt)
      (fun rows => Serves (Leaves base stmt (.ok rows))) (Fails base stmt) := by
  have calm : Calm (Serves fun wal => wal = base) := indifferent_serves.steady.calm
  cases stmt with
  | createTable table columns =>
      apply leaves_of_keeps id
      exact calm.execCreateTable (fun _ idle => ⟨idle.faultless, idle.wal⟩) order columns
  | insert table values => exact leaves_execInsert table values
  | select table columns filter orderBy limit =>
      apply leaves_of_keeps id
      exact calm.execSelect table columns filter orderBy limit
  | delete table filter =>
      refine ((keeps_schemaOf table).ends.failing idle_fails).bind fun schema => ?_
      refine ((keeps_pagesOf table).ends.failing idle_fails).bind fun pageIds => ?_
      apply leaves_transact
      · exact fun txnId record inside => absurd inside List.not_mem_nil
      · exact fun txnId => running_deleteBody table schema filter
  | update table assignments filter =>
      refine ((keeps_schemaOf table).ends.failing idle_fails).bind fun schema => ?_
      refine ((keeps_pagesOf table).ends.failing idle_fails).bind fun pageIds => ?_
      apply leaves_transact
      · exact fun txnId record inside => absurd inside List.not_mem_nil
      · exact fun txnId => running_updateBody table schema assignments filter

end Statements

section Ledger

open WalManager

variable {α : Type} {old : List LogRecord} {base executor executor' : Executor}

/-- The log continues an old one by numbered records, and since a certain state it only grew. -/
structure Ledger (old : List LogRecord) (base executor : Executor) : Prop where
  continues : Continues old base.wal.log executor.wal
  recorded : Recorded base
    (fun moment => base.wal.log <+: moment.log ∧ moment.log <+: executor.wal.log) executor

theorem Ledger.record (ledger : Ledger old base executor)
    (history : executor'.history = executor.history)
    (longer : executor.wal.log <+: executor'.wal.log)
    (continues : Continues old base.wal.log executor'.wal) : Ledger old base executor'.record := by
  refine ⟨continues, ?_⟩
  have before : Recorded base
      (fun moment => base.wal.log <+: moment.log ∧ moment.log <+: executor'.wal.log) executor :=
    ledger.recorded.mono fun _ kept => ⟨kept.1, kept.2.trans longer⟩
  exact before.record history ⟨continues.reaches, List.prefix_refl _⟩

theorem Ledger.same (ledger : Ledger old base executor)
    (history : executor'.history = executor.history) (wal : executor'.wal = executor.wal) :
    Ledger old base executor'.record := by
  apply ledger.record history
  · rw [wal]
  · rw [wal]
    exact ledger.continues

theorem indifferent_ledger [Crc32] : Indifferent (Ledger old base) where
  fetch := fun _ _ ledger => ledger.same rfl rfl
  allocate := fun _ ledger => ledger.same rfl rfl
  flush := fun _ _ ledger => ledger.same rfl rfl
  unpin := fun _ _ _ ledger => ledger.same rfl rfl
  edit := fun _ _ ledger => ledger.same rfl rfl
  indexes := fun _ _ ledger => ⟨ledger.continues, ledger.recorded⟩
  pageFile := fun _ _ ledger => ledger.same rfl rfl
  catalogFile := fun _ _ ledger => ledger.same rfl rfl

theorem ledger_onWal {call : Fallible Failure WalManager α}
    (kept : ∀ log, Keeps (Continues old log) call) : Keeps (Ledger old base) (onWal call) := by
  intro executor ledger
  have further := kept executor.wal.log executor.wal
    ⟨List.prefix_refl _, ledger.continues.stamps⟩
  have continues : Continues old base.wal.log (call executor.wal).2 :=
    ⟨ledger.continues.reaches.trans further.reaches, further.stamps⟩
  have recorded : Ledger old base
    (Executor.record { executor with wal := (call executor.wal).2 }) :=
    ledger.record rfl further.reaches continues
  exact recorded

theorem transacts_ledger : Transacts (Ledger old base) where
  begins := ledger_onWal fun _ => continues_beginTxn
  inserts := fun txnId pageId rowBytes =>
    ledger_onWal fun _ => continues_logInsert txnId pageId rowBytes
  updates := fun txnId pageId slotId oldData newData =>
    ledger_onWal fun _ => continues_logUpdate txnId pageId slotId oldData newData
  commits := fun txnId => ledger_onWal fun _ => continues_commit txnId
  aborts := fun txnId => ledger_onWal fun _ => continues_abort txnId
  tables := fun _ _ ledger => ⟨ledger.continues, ledger.recorded⟩

variable [Crc32] [Build]

theorem ledger_execute (order : HashOrder) (stmt : Statement) :
    Keeps (Ledger old base) (execute order stmt) := by
  apply indifferent_ledger.execute transacts_ledger
  intro table filter _
  apply indifferent_ledger.steady.execDelete transacts_ledger.marks
  exact fun txnId pageId slotId => ledger_onWal fun _ => continues_logDelete txnId pageId slotId

omit [Build] in
/-- Recovery writes nothing to the log. -/
theorem ledger_start (order : HashOrder) (files : Files) :
    Ledger files.log («open» files) (start order files).2 := by
  apply indifferent_ledger.recover (fun ledger => ⟨ledger.continues, ledger.recorded⟩)
  · apply ledger_onWal
    intro log wal continues
    rcases (recover_state : ∃ pages, (WalManager.recover wal).2 = { wal with pages := pages }) with
      ⟨pages, same⟩
    rw [same]
    exact ⟨continues.reaches, continues.stamps⟩
  · refine ⟨⟨List.prefix_refl _, [], (List.append_nil _).symm, rfl, rfl⟩, .nothing⟩

omit [Build] in
/-- Transaction ids start over. -/
theorem serves_start (order : HashOrder) (files : Files) :
    Serves (fun wal => wal.log = files.log ∧ wal.nextTxnId = 1) (start order files).2 := by
  apply indifferent_serves.recover (fun serves => ⟨serves.faultless, serves.wal⟩)
  · rintro executor ⟨faultless, log, next⟩
    rcases (recover_state : ∃ pages, (WalManager.recover executor.wal).2 =
      { executor.wal with pages := pages }) with ⟨pages, same⟩
    refine ⟨faultless, ?_⟩
    change (WalManager.recover executor.wal).2.log = _ ∧
      (WalManager.recover executor.wal).2.nextTxnId = _
    rw [same]
    exact ⟨log, next⟩
  · exact ⟨rfl, rfl, rfl⟩

end Ledger

section Diaries

variable [Crc32] [Build] {files : Files} {entries : List Entry} {executor : Executor}

/-- A session on some files: its statements with their results, of any kind. -/
inductive Diary (files : Files) : List Entry → Executor → Prop
  | start {order : HashOrder} {info : RecoveryInfo} {executor : Executor}
      (run : start order files = (.ok info, executor)) : Diary files [] executor
  | execute {order : HashOrder} {entries : List Entry} {stmt : Statement}
      {result : Except Failure (List Row)} {executor executor' : Executor}
      (before : Diary files entries executor)
      (run : execute order stmt executor = (result, executor')) :
      Diary files (entries ++ [(stmt, result)]) executor'

theorem Diary.ledger (diary : Diary files entries executor) :
    Ledger files.log («open» files) executor := by
  induction diary with
  | @start order info executor run =>
      have ledger := ledger_start order files
      rwa [run] at ledger
  | @execute order entries stmt result executor executor' before run ih =>
      have kept := ledger_execute order stmt executor ih
      rwa [run] at kept

/-- What a session has added to the log transcribes its statements. -/
theorem Diary.transcribes (diary : Diary files entries executor) :
    ∃ count added, Transcribes entries count added ∧
      Serves (fun wal => wal.log = files.log ++ added ∧ wal.nextTxnId.toNat = count + 1)
        executor := by
  induction diary with
  | @start order info executor run =>
      have serves := serves_start order files
      rw [run] at serves
      refine ⟨0, [], .start, serves.faultless, ?_, ?_⟩
      · rw [List.append_nil]
        exact serves.wal.1
      · rw [serves.wal.2]
        rfl
  | @execute order entries stmt result executor executor' before run ih =>
      rcases ih with ⟨count, added, transcribes, faultless, log, next⟩
      have ended := leaves_execute order stmt executor ⟨faultless, rfl⟩
      rw [run] at ended
      rcases result with failure | rows
      · rcases ended.wal.transcribes transcribes log next with ⟨count', added', after, same⟩
        exact ⟨count', added', after, ended.faultless, same⟩
      · rcases ended.wal.transcribes transcribes log next with ⟨count', added', after, same⟩
        exact ⟨count', added', after, ended.faultless, same⟩

theorem Diary.stamped {added : List LogRecord} (diary : Diary files entries executor)
    (log : executor.wal.log = files.log ++ added) : Stamped added := by
  rcases diary.ledger.continues.stamps with ⟨added', log', stamped, -⟩
  rw [log] at log'
  rw [List.append_cancel_left log']
  exact stamped

/-- At a moment of a statement the log has the blocks before and a part of its own. -/
theorem Diary.interrupted {order : HashOrder} {stmt : Statement}
    {result : Except Failure (List Row)} {executor' : Executor} {moment : Moment}
    (diary : Diary files entries executor)
    (run : Executor.execute order stmt executor = (result, executor'))
    (during : During executor executor' moment) :
    ∃ part, moment.log = files.log ++ part ∧ Text (.crashed entries (stmt, result)) part ∧
      Stamped part := by
  have starts : Ledger files.log executor executor :=
    ⟨⟨List.prefix_refl _, diary.ledger.continues.stamps⟩, .nothing⟩
  have ledger := ledger_execute order stmt executor starts
  rw [run] at ledger
  rcases ledger.recorded.during during with ⟨⟨part, reached⟩, rest, grown⟩
  rcases diary.transcribes with ⟨count, added, transcribes, faultless, log, next⟩
  have ended := leaves_execute order stmt executor ⟨faultless, rfl⟩
  rw [run] at ended
  have leaves : WalManager.Leaves executor.wal stmt result executor'.wal := by
    rcases result with failure | rows
    · exact ended.wal
    · exact ended.wal
  have whole : ∃ added', executor'.wal.log = files.log ++ added' ∧ Stamped added' := by
    rcases (diary.execute run).ledger.continues.stamps with ⟨added', log', stamped, -⟩
    exact ⟨added', log', stamped⟩
  rcases whole with ⟨added', log', stamped⟩
  have shown : moment.log = files.log ++ (added ++ part) := by
    rw [← reached, log, List.append_assoc]
  refine ⟨added ++ part, shown, ?_, stamped.of_prefix ⟨rest, ?_⟩⟩
  · rw [← reached] at grown
    exact leaves.text transcribes next grown
  · rw [log', shown, List.append_assoc] at grown
    exact List.append_cancel_left grown

/-- The files of a directory after some sessions. A session ends with the program or with a crash,
which may be in a statement or in a recovery. -/
inductive Directory : List Course → Files → Prop
  | empty : Directory [] Files.empty
  | ended {courses : List Course} {files : Files} {entries : List Entry}
      {executor : Executor} (before : Directory courses files)
      (diary : Diary files entries executor) :
      Directory (courses ++ [.ended entries]) executor.files
  | crashed {courses : List Course} {files : Files} {entries : List Entry}
      {order : HashOrder} {stmt : Statement} {result : Except Failure (List Row)}
      {executor executor' : Executor} {moment : Moment} (before : Directory courses files)
      (diary : Diary files entries executor)
      (run : execute order stmt executor = (result, executor'))
      (during : During executor executor' moment) :
      Directory (courses ++ [.crashed entries (stmt, result)]) moment.toFiles
  | recovering {courses : List Course} {files : Files} {order : HashOrder}
      {result : Except Failure RecoveryInfo} {executor : Executor} {moment : Moment}
      (before : Directory courses files) (run : start order files = (result, executor))
      (inside : moment ∈ executor.history) : Directory courses moment.toFiles

omit [Build] in
/-- A crash of recovery leaves the log that there was. -/
theorem log_recovering {order : HashOrder} {moment : Moment}
    (inside : moment ∈ (start order files).2.history) : moment.log = files.log := by
  have during : During («open» files) (start order files).2 moment :=
    ⟨(start order files).2.history, (List.append_nil _).symm, inside⟩
  rcases (ledger_start order files).recorded.during during with ⟨longer, shorter⟩
  have same : (start order files).2.wal.log = files.log := (serves_start order files).wal.1
  rw [same] at shorter
  exact (shorter.eq_of_length_le longer.length_le)

/-- The log file is a sequence of texts, one for each session: the blocks of its statements, which
are numbered and stamped. A crash breaks off the block of the statement that it interrupts. -/
theorem Directory.grammar {courses : List Course} (directory : Directory courses files) :
    ∃ parts, files.log = parts.flatten ∧
      List.Forall₂ (fun course part => Text course part ∧ Stamped part) courses parts := by
  induction directory with
  | empty => exact ⟨[], rfl, .nil⟩
  | @ended courses files entries executor before diary ih =>
      rcases ih with ⟨parts, log, texts⟩
      rcases diary.transcribes with ⟨count, added, transcribes, serves⟩
      refine ⟨parts ++ [added], ?_, List.rel_append texts (.cons ⟨.whole transcribes, ?_⟩ .nil)⟩
      · rw [List.flatten_concat, ← log]
        exact serves.wal.1
      · exact diary.stamped serves.wal.1
  | @crashed courses files entries order stmt result executor executor' moment before diary run
      during ih =>
      rcases ih with ⟨parts, log, texts⟩
      rcases diary.interrupted run during with ⟨part, shown, text, stamped⟩
      refine ⟨parts ++ [part], ?_, List.rel_append texts (.cons ⟨text, stamped⟩ .nil)⟩
      rw [List.flatten_concat, ← log]
      exact shown
  | @recovering courses files order result executor moment before run inside ih =>
      rcases ih with ⟨parts, log, texts⟩
      refine ⟨parts, ?_, texts⟩
      rw [← log]
      apply log_recovering
      rw [run]
      exact inside

end Diaries

end Executor

namespace Sample

open Executor

attribute [local instance] Crc32.ieee Build.debug

/-- The insert record is written, the commit record is not. -/
def halfLogged : Moment := insertedDb.history.getD 3 insertedDb.moment

theorem grammar_halfLogged :
    Directory [.crashed [(create, .ok [])] (insertSeven, .ok [])] halfLogged.toFiles ∧
      ∃ parts, halfLogged.log = parts.flatten ∧
        List.Forall₂ (fun course part => Text course part ∧ Stamped part)
          [.crashed [(create, .ok [])] (insertSeven, .ok [])] parts := by
  have opened : Diary Files.empty [] openedDb := @Diary.start _ _ _ .ofInsertion _ _ rfl
  have created : Diary Files.empty [(create, .ok [])] createdDb :=
    opened.execute (show execute .ofInsertion create openedDb = (.ok [], createdDb) from rfl)
  have run : execute .ofInsertion insertSeven createdDb = (.ok [], insertedDb) := rfl
  have directory := Directory.crashed .empty created run
    (during_insertedDb (show 3 < 8 by decide) rfl)
  exact ⟨directory, directory.grammar⟩

end Sample

end VenomDb
