import VenomDb.Buffer.Throughout
import VenomDb.Engine.Alignment
import VenomDb.Engine.Durability
import VenomDb.Recovery.Vouched

/-!
# Write-ahead order

In a session on an empty directory the log vouches for all pages, in frames and in the data file,
after every call. A statement logs a change and makes it right away, on the page that the fetch
put into the frame; an insert gets the slot that was logged because page and copy are aligned.
-/

namespace VenomDb

open Fallible BufferPool

/-- What is on the pages was in the log before. -/
structure Moment.WrittenAhead (moment : Moment) : Prop where
  vouched : Covers (fun pageId => Vouched pageId moment.log) moment.frames moment.db
  attested : Covers (fun pageId => Attested moment.log pageId) moment.frames moment.db

namespace WalManager

/-- The log grows by a record or stays as it is. -/
def Lengthens (log log' : List LogRecord) : Prop := log' = log ∨ ∃ record, log' = log ++ [record]

theorem lengthens_beginTxn (wal : WalManager) :
    Lengthens wal.log (beginTxn wal).2.log := by
  rw [beginTxn]
  split_ifs
  · exact .inr ⟨_, rfl⟩
  · exact .inl rfl

theorem Appends.lengthens {kind : LogRecord → Prop} {wal wal' : WalManager}
    (appends : Appends kind wal wal') : Lengthens wal.log wal'.log :=
  appends.log.imp_right fun ⟨record, _, grown⟩ => ⟨record, grown⟩

/-- A delete that does not panic is logged. -/
theorem log_logDelete_of_ok {txnId pageId : UInt32} {slotId : UInt16} {wal wal' : WalManager}
    {deleted : Bool} (run : logDelete txnId pageId slotId wal = (.ok deleted, wal')) :
    ∃ lsn oldData, wal'.log = wal.log ++ [.delete lsn txnId pageId slotId oldData] := by
  rw [logDelete, get_bind] at run
  rcases found : wal.pages.lookup pageId with _ | page
  · rw [found] at run
    exact ⟨_, _, congrArg log (Prod.mk.inj run).2.symm⟩
  · rw [found] at run
    rcases bind_eq_ok run with ⟨oldData, _, read, rest⟩
    rcases bind_eq_ok rest with ⟨⟨done, page'⟩, _, changed, rest⟩
    obtain ⟨-, rfl⟩ := Prod.mk.inj read
    obtain ⟨-, rfl⟩ := Prod.mk.inj changed
    exact ⟨_, _, congrArg log (Prod.mk.inj rest).2.symm⟩

end WalManager

namespace Executor

variable {executor executor' : Executor} {pageId txnId : UInt32} {frameId : FrameId}
  {page page' : Page} {α : Type}

theorem lenient_vouched (log : List LogRecord) : Lenient fun pageId => Vouched pageId log where
  hole := fun _ => .hole log
  unhashed := fun _ _ _ same before => before.summed same

/-- The log vouches for all pages, now and at all moments so far. -/
structure Vouches (executor : Executor) : Prop where
  pages : executor.bufferPool.Throughout fun pageId => Vouched pageId executor.wal.log
  moments : ∀ moment ∈ executor.history,
    Covers (fun pageId => Vouched pageId moment.log) moment.frames moment.db

namespace Vouches

theorem record (vouches : Vouches executor) (history : executor'.history = executor.history)
    (pages : executor'.bufferPool.Throughout fun pageId => Vouched pageId executor'.wal.log) :
    Vouches executor'.record := by
  refine ⟨pages, ?_⟩
  intro moment inside
  rcases List.mem_cons.mp inside with rfl | inside
  · exact pages
  · rw [history] at inside
    exact vouches.moments moment inside

theorem pool {pool : BufferPool frameCount} (vouches : Vouches executor)
    (pages : pool.Throughout fun pageId => Vouched pageId executor.wal.log) :
    Vouches (Executor.record { executor with bufferPool := pool }) :=
  vouches.record rfl pages

theorem onPool {call : Fallible Failure (BufferPool frameCount) α} (vouches : Vouches executor)
    (kept : Keeps (Throughout fun pageId => Vouched pageId executor.wal.log) call) :
    Vouches (Executor.onPool call executor).2 :=
  vouches.pool (kept executor.bufferPool vouches.pages)

theorem wal {wal : WalManager} (vouches : Vouches executor)
    (longer : WalManager.Lengthens executor.wal.log wal.log) :
    Vouches (Executor.record { executor with wal := wal }) := by
  refine vouches.record rfl (vouches.pages.mono fun pageId data before => ?_)
  rcases longer with same | ⟨record, grown⟩
  · exact same ▸ before
  · exact grown ▸ before.later record

theorem setPage (vouches : Vouches executor)
    (content : Vouched page'.id executor.wal.log page'.data) :
    Vouches (Executor.record
      { executor with bufferPool := executor.bufferPool.setPage frameId page' }) :=
  vouches.pool (vouches.pages.setPage content)

theorem unpin (vouches : Vouches executor) (frameId : FrameId) (dirty : Bool) :
    Vouches (Executor.record
      { executor with bufferPool := executor.bufferPool.unpin frameId dirty }) :=
  vouches.pool (vouches.pages.unpin frameId dirty)

end Vouches

/-- Pages and copies are aligned, and the log vouches for the pages. -/
structure Ahead [Crc32] (executor : Executor) : Prop where
  aligned : Aligned executor
  vouches : Vouches executor

section Calls

variable [Crc32]

theorem calm_ahead : Calm Ahead where
  fetch := fun pageId executor ahead => ⟨calm_aligned.fetch pageId executor ahead.aligned,
    ahead.vouches.onPool (throughout_fetchPage (lenient_vouched _) pageId)⟩
  flush := fun pageId executor ahead => ⟨calm_aligned.flush pageId executor ahead.aligned,
    ahead.vouches.onPool (throughout_flushPage (lenient_vouched _) pageId)⟩
  unpin := fun frameId dirty executor ahead =>
    ⟨calm_aligned.unpin frameId dirty executor ahead.aligned, ahead.vouches.unpin frameId dirty⟩
  indexes := fun change executor ahead => ⟨calm_aligned.indexes change executor ahead.aligned,
    ahead.vouches.pages, ahead.vouches.moments⟩
  pageFile := fun table executor ahead => ⟨calm_aligned.pageFile table executor ahead.aligned,
    ahead.vouches.record rfl ahead.vouches.pages⟩
  catalogFile := fun order executor ahead =>
    ⟨calm_aligned.catalogFile order executor ahead.aligned,
      ahead.vouches.record rfl ahead.vouches.pages⟩

theorem marks_ahead : Marks Ahead where
  begins := fun executor ahead => ⟨marks_aligned.begins executor ahead.aligned,
    ahead.vouches.wal (WalManager.lengthens_beginTxn executor.wal)⟩
  updates := fun txnId pageId slotId oldData newData executor ahead =>
    ⟨marks_aligned.updates txnId pageId slotId oldData newData executor ahead.aligned,
      ahead.vouches.wal (.inr ⟨_, rfl⟩)⟩
  commits := fun txnId executor ahead => ⟨marks_aligned.commits txnId executor ahead.aligned,
    ahead.vouches.wal (.inr ⟨_, rfl⟩)⟩
  aborts := fun txnId executor ahead => ⟨marks_aligned.aborts txnId executor ahead.aligned,
    ahead.vouches.wal (.inr ⟨_, rfl⟩)⟩

end Calls

section Scan

variable [Crc32] {record : LogRecord}

/-- A fetch has put a page into a frame, and it is pinned there. -/
structure Pinned (pageId : UInt32) (frameId : FrameId) (executor : Executor) : Prop where
  ahead : Ahead executor
  held : ∃ page, executor.bufferPool.Held frameId page ∧ page.id = pageId

/-- A page is in a frame, pinned or not. -/
structure Inside (pageId : UInt32) (frameId : FrameId) (executor : Executor) : Prop where
  ahead : Ahead executor
  page : ∃ page, executor.bufferPool.getPage frameId = some page ∧ page.id = pageId

/-- A change of the page in a frame has been logged, and nothing since. -/
structure Announced (pageId : UInt32) (frameId : FrameId) (record : LogRecord)
    (executor : Executor) : Prop where
  inside : Inside pageId frameId executor
  last : executor.wal.log.getLast? = some record

theorem pinned_fetchPage (pageId : UInt32) :
    Ends Ahead (fetchPage pageId) (Pinned pageId) fun _ => Ahead := by
  intro executor ahead
  have kept := calm_ahead.fetchPage pageId executor ahead
  have held := held_fetchPage pageId executor.bufferPool ahead.aligned.tabled
  rw [Executor.fetchPage, mapError, Executor.onPool] at kept ⊢
  generalize BufferPool.fetchPage pageId executor.bufferPool = outcome at kept held ⊢
  rcases outcome with ⟨failure | frameId, pool⟩
  · exact kept
  · exact ⟨kept, held⟩

theorem inside_fetchPage (pageId : UInt32) :
    Ends Ahead (fetchPage pageId) (Inside pageId) fun _ => Ahead :=
  (pinned_fetchPage pageId).imp (fun _ ahead => ahead)
    (fun _ _ ⟨ahead, page, held, isPage⟩ => ⟨ahead, page, held.page, isPage⟩) fun _ _ ahead => ahead

/-- The change that was announced is made. -/
theorem Announced.onPage {operation : Page → Except Failure (Bool × Page)}
    (amends : ∀ {page result}, operation page = .ok result → page.Amended result.2)
    (vouched : ∀ {log page result}, log.getLast? = some record → operation page = .ok result →
      Vouched pageId log page.data → Vouched pageId log result.2.data) :
    Ends (Announced pageId frameId record) (onPage frameId false operation)
      (fun _ => Inside pageId frameId) fun _ => Inside pageId frameId := by
  refine ends_get_bind fun executor announced => ?_
  rcases announced with ⟨⟨ahead, page, held, rfl⟩, last⟩
  rw [held]
  dsimp only
  rcases made : operation page with failure | ⟨done, page'⟩
  · exact ends_throw fun _ same => same ▸ ⟨ahead, page, held, rfl⟩
  · rintro _ rfl
    have amended := amends made
    refine ⟨⟨ahead.aligned.setPage held amended, ahead.vouches.setPage ?_⟩, page', ?_, amended.id⟩
    · rw [amended.id]
      exact vouched last made (ahead.vouches.pages.frame held)
    · simp [Executor.record, BufferPool.getPage, BufferPool.setPage]

theorem announced_logDelete (slotId : UInt16) :
    Ends (Inside pageId frameId) (onWal (WalManager.logDelete txnId pageId slotId))
      (fun _ executor => ∃ lsn oldData,
        Announced pageId frameId (.delete lsn txnId pageId slotId oldData) executor)
      fun _ => Inside pageId frameId := by
  rintro executor ⟨ahead, page⟩
  have longer := (WalManager.appends_logDelete executor.wal txnId pageId slotId).lengthens
  have ahead' : Ahead (onWal (WalManager.logDelete txnId pageId slotId) executor).2 :=
    ⟨aligned_logDelete txnId pageId slotId executor ahead.aligned, ahead.vouches.wal longer⟩
  rw [onWal] at ahead' ⊢
  rcases run : WalManager.logDelete txnId pageId slotId executor.wal with ⟨failure | deleted, wal⟩
  · rw [run] at ahead'
    exact ⟨ahead', page⟩
  · rw [run] at ahead'
    rcases WalManager.log_logDelete_of_ok run with ⟨lsn, oldData, log⟩
    refine ⟨lsn, oldData, ⟨ahead', page⟩, ?_⟩
    rw [show (Executor.record { executor with wal := wal }).wal.log = _ from log]
    exact List.getLast?_concat

theorem announced_logUpdate (slotId : UInt16) (oldData newData : Bytes) :
    Ends (Inside pageId frameId) (onWal (WalManager.logUpdate txnId pageId slotId oldData newData))
      (fun _ executor => ∃ lsn,
        Announced pageId frameId (.update lsn txnId pageId slotId oldData newData) executor)
      fun _ => Inside pageId frameId := by
  rintro executor ⟨ahead, page⟩
  refine ⟨executor.wal.currentLsn, ⟨?_, page⟩, List.getLast?_concat⟩
  exact marks_ahead.updates txnId pageId slotId oldData newData executor ahead

theorem inside_modifyIndexes (change : IndexManager → IndexManager) :
    Keeps (Inside pageId frameId) (modifyIndexes change) :=
  fun executor inside => ⟨calm_ahead.indexes change executor inside.ahead, inside.page⟩

theorem inside_unpin (frame : FrameId) (dirty : Bool) :
    Keeps (Inside pageId frameId) (modifyPool (BufferPool.unpin frame dirty)) := by
  rintro executor ⟨ahead, page⟩
  refine ⟨calm_ahead.unpin frame dirty executor ahead, ?_⟩
  simpa [modifyPool, Fallible.modify, Executor.record, getPage_unpin] using page

theorem inside_deleteBody (table : String) (schema : Schema) (filter : Option Expr)
    (pageId : UInt32) (frameId : FrameId) (slotId : UInt16) (dirty : Bool) (tuple : Bytes)
    (result : Unit) : Keeps (Inside pageId frameId)
      (deleteBody table schema filter txnId pageId frameId slotId dirty tuple result) := by
  refine (keeps_ofExcept _).bind fun row => (keeps_ofExcept _).bind fun selected => ?_
  split_ifs
  · refine Ends.keeps ((announced_logDelete slotId).bind fun _ => ?_)
    rintro executor ⟨lsn, oldData, announced⟩
    refine (Ends.bind (Announced.onPage (fun deleted => ⟨slotId, _, .inl deleted⟩) ?_) fun _ =>
      Keeps.ends ((inside_modifyIndexes _).bind fun _ => keeps_pure _)) executor announced
    exact fun last deleted before => before.deleteTuple last deleted
  · exact keeps_pure _

theorem inside_updateBody (table : String) (schema : Schema) (assignments : List Assignment)
    (filter : Option Expr) (pageId : UInt32) (frameId : FrameId) (slotId : UInt16) (dirty : Bool)
    (oldBytes : Bytes) (result : Unit) : Keeps (Inside pageId frameId)
      (updateBody table schema assignments filter txnId pageId frameId slotId dirty oldBytes
        result) := by
  refine (keeps_ofExcept _).bind fun oldRow => (keeps_ofExcept _).bind fun selected => ?_
  split_ifs
  · refine keeps_get_bind fun executor => ?_
    refine Keeps.bind (keeps_ofExcept _) (fun made => ?_) executor
    refine Ends.keeps ((announced_logUpdate slotId oldBytes made.2).bind fun _ => ?_)
    rintro executor ⟨lsn, announced⟩
    refine (Ends.bind (Announced.onPage (fun updated => ⟨slotId, _, .inr ⟨made.2, updated⟩⟩) ?_)
      fun ok => Keeps.ends ?_) executor announced
    · exact fun last updated before => before.updateTuple last updated
    · split_ifs
      · exact (inside_modifyIndexes _).bind fun _ => keeps_pure _
      · refine (inside_unpin _ _).bind fun _ => ?_
        have aborts : Keeps (Inside pageId frameId) (onWal (WalManager.abort txnId)) :=
          fun executor inside => ⟨marks_ahead.aborts txnId executor inside.ahead, inside.page⟩
        exact aborts.bind fun _ => keeps_throw _
  · exact keeps_pure _

end Scan

section Insert

variable [Crc32] {rowBytes : Bytes}

/-- Page and copy take the row to the same slot, or neither takes it. -/
theorem ahead_insertInto (wrap : IoError → SqlError) :
    Ends (Pinned pageId frameId) (insertInto txnId pageId frameId wrap rowBytes)
      (fun _ => Ahead) fun _ => Ahead := by
  rintro executor ⟨⟨aligned, vouches⟩, page, held, rfl⟩
  have given : executor.GivenOut page.id := aligned.tabled.allocated held.page
  have logs := logInsert_eq txnId page.id rowBytes executor.wal
  rcases (aligned.frame held.page).insertTuple rowBytes with
    ⟨panic, logged, -⟩ | ⟨logged, -⟩ | ⟨slotId, copy', page', logged, placed, sameId, matching⟩
  · have fails : onWal (WalManager.logInsert txnId page.id rowBytes) executor =
        (.error (.panic panic), executor.record) := by
      rw [onWal, logs, logged]
    rw [insertInto, bind_error (mapError_error fails)]
    exact ⟨aligned.log rfl, vouches.wal (.inl rfl)⟩
  · let wal : WalManager := { executor.wal with
      pages := executor.wal.pages.insert page.id (WalManager.entry executor.wal.pages page.id) }
    have fails : onWal (WalManager.logInsert txnId page.id rowBytes) executor =
        (.error (.io .pageFull), Executor.record { executor with wal := wal }) := by
      rw [onWal, logs, logged]
    rw [insertInto, bind_error (mapError_error fails)]
    exact ⟨aligned.copy given rfl fun copied => copied, vouches.wal (.inl rfl)⟩
  · let wal : WalManager := WalManager.append (.insert 0 txnId page.id slotId rowBytes)
      { executor.wal with pages := executor.wal.pages.insert page.id copy' }
    let written := Executor.record { executor with wal := wal }
    let edited := Executor.record
      { written with bufferPool := written.bufferPool.setPage frameId page' }
    let released := Executor.record
      { edited with bufferPool := edited.bufferPool.unpin frameId true }
    have logs' : onWal (WalManager.logInsert txnId page.id rowBytes) executor =
        (.ok slotId, written) := by
      rw [onWal, logs, logged]
    have edits : Executor.onPage frameId none (fun page => page.insertTuple rowBytes) written =
        (.ok (some slotId), edited) := by
      have found : written.bufferPool.getPage frameId = some page := held.page
      rw [Executor.onPage, get_bind, found]
      dsimp only
      rw [placed, ofExcept_ok_bind]
      rfl
    have run : insertInto txnId page.id frameId wrap rowBytes executor =
        (.ok slotId, released) := by
      rw [insertInto, bind_ok (mapError_ok logs'), bind_ok edits]
      rfl
    have announced : Vouches written := vouches.wal (.inr ⟨_, rfl⟩)
    have made : Vouches edited := by
      refine announced.setPage ?_
      rw [sameId]
      exact (announced.pages.frame held.page).inserted List.getLast?_concat placed
    rw [run]
    exact ⟨aligned.rewrite held sameId rfl rfl matching, made.unpin frameId true⟩

theorem ahead_insertExisting (pageIds : List UInt32) :
    Keeps Ahead (insertExisting txnId rowBytes pageIds) := by
  induction pageIds with
  | nil => exact keeps_pure _
  | cons pageId pageIds ih =>
      rw [insertExisting]
      refine Ends.keeps ((pinned_fetchPage pageId).bind fun frameId => ?_)
      refine ends_get_then fun fetched => ?_
      dsimp only
      split_ifs
      · exact (ahead_insertInto .walInsert).bind fun slotId => ends_pure fun _ ahead => ahead
      · have leaves : Ends (Pinned pageId frameId) (modifyPool (BufferPool.unpin frameId false))
            (fun _ => Ahead) fun _ => Ahead :=
          (calm_ahead.unpin frameId false).ends.imp (fun _ holding => holding.ahead)
            (fun _ _ ahead => ahead) fun _ _ ahead => ahead
        exact leaves.bind fun _ => ih.ends

theorem pinned_newPage :
    Ends Ahead (onPool newPage) (fun out => Pinned out.1 out.2) fun _ => Ahead := by
  intro executor ahead
  have aligned := aligned_newPage executor ahead.aligned
  have vouches := ahead.vouches.onPool
    (throughout_newPage (lenient_vouched executor.wal.log) fun _ => .new _)
  rw [Executor.onPool] at aligned vouches ⊢
  generalize newPage executor.bufferPool = outcome at aligned vouches ⊢
  rcases outcome with ⟨failure | ⟨pageId, frameId⟩, pool⟩
  · exact ⟨aligned, vouches⟩
  · exact ⟨⟨aligned.1, vouches⟩, _, aligned.2, rfl⟩

theorem ahead_insertFresh (table : String) : Keeps Ahead (insertFresh txnId table rowBytes) := by
  refine Ends.keeps ((pinned_newPage.mapError fun _ _ ahead => ahead).bind fun fresh => ?_)
  refine (ahead_insertInto .walInsertNewPage).bind fun slotId => Keeps.ends ?_
  have lists (change : Executor → AList fun _ : String => List UInt32) :
      Keeps Ahead (Fallible.modify fun executor =>
        { executor with tablePages := change executor } : Action Unit) := by
    rintro executor ⟨aligned, vouches⟩
    exact ⟨⟨aligned.tabled, aligned.visible, aligned.versions, aligned.copies⟩,
      vouches.pages, vouches.moments⟩
  exact (lists _).bind fun _ => (calm_ahead.pageFile table).bind fun _ => keeps_pure _

theorem ahead_execInsert (table : String) (values : List Value) :
    Keeps Ahead (execInsert table values) := by
  refine (keeps_schemaOf table).bind fun schema => keeps_get_bind fun executor => ?_
  refine Keeps.bind (keeps_ofExcept _) (fun _ => ?_) executor
  refine (keeps_ofExcept _).bind fun rowBytes => marks_ahead.begins.bind fun txnId => ?_
  refine (keeps_pagesOf table).bind fun pageIds => ?_
  have places : Keeps Ahead (placeRow txnId table rowBytes pageIds) := by
    refine (ahead_insertExisting pageIds).bind fun found => ?_
    cases found with
    | some rid => exact keeps_pure _
    | none => exact ahead_insertFresh table
  refine places.bind fun rid => (calm_ahead.indexes _).bind fun _ => ?_
  exact calm_ahead.finish marks_ahead txnId [rid.pageId]

end Insert

section Runs

variable [Crc32]

theorem ahead_empty : Ahead («open» Files.empty) where
  aligned := by
    have none (pageId : UInt32) : ¬GivenOut («open» Files.empty) pageId := by
      simp [GivenOut, «open», BufferPool.new, DiskManager.new, Files.empty]
    refine ⟨tabled_new (by simp [DiskManager.new, Files.empty]) rfl, ?_, ?_, ?_⟩
    · exact fun given => absurd given (none _)
    · exact shows_new fun given => absurd given (none _)
    · simp [«open», WalManager.new]
  vouches := by
    refine ⟨⟨?_, ?_⟩, by simp [«open»]⟩
    · simp [«open», BufferPool.new, BufferPool.getPage, Frame.new]
    · simp [«open», BufferPool.new, DiskManager.new, Files.empty]

/-- There is nothing to recover in an empty directory. -/
theorem ahead_start (order : HashOrder) : Ahead (start order Files.empty).2 := by
  let loaded := («open» Files.empty).loadTables
  have replayed : Ahead loaded.record := by
    rcases ahead_empty with ⟨aligned, vouches⟩
    exact ⟨⟨aligned.tabled, aligned.visible, aligned.versions, aligned.copies⟩,
      vouches.record rfl vouches.pages⟩
  have replays : onWal WalManager.recover loaded =
      (.ok { redone := 0, undone := 0, incompleteTxns := ∅ }, loaded.record) := rfl
  have pushes : Fallible.forEach (order.pages loaded.record.wal.pages.keys) pushPage loaded.record =
      (.ok (), loaded.record) := by
    rw [show loaded.record.wal.pages.keys = [] from rfl, (order.pages_perm []).eq_nil]
    rfl
  rw [start, Executor.recover, modify_bind, bind_ok replays, get_bind, bind_ok pushes]
  exact calm_ahead.recover_of_pushed order _ _ replayed

variable [Build]

/-- Every statement keeps the order, whatever it returns. -/
theorem ahead_execute (order : HashOrder) (stmt : Statement) :
    Keeps Ahead (execute order stmt) := by
  cases stmt with
  | createTable table columns =>
      refine calm_ahead.execCreateTable ?_ order columns
      rintro executor catalog ⟨aligned, vouches⟩
      exact ⟨⟨aligned.tabled, aligned.visible, aligned.versions, aligned.copies⟩,
        vouches.pages, vouches.moments⟩
  | insert table values => exact ahead_execInsert table values
  | select table columns filter orderBy limit =>
      exact calm_ahead.execSelect table columns filter orderBy limit
  | delete table filter =>
      refine (keeps_schemaOf table).bind fun schema => (keeps_pagesOf table).bind fun pageIds => ?_
      refine calm_ahead.transact marks_ahead fun txnId => ?_
      exact calm_ahead.scanPages_inside inside_fetchPage Inside.ahead
        (inside_deleteBody table schema filter) pageIds ()
  | update table assignments filter =>
      refine (keeps_schemaOf table).bind fun schema => (keeps_pagesOf table).bind fun pageIds => ?_
      refine calm_ahead.transact marks_ahead fun txnId => ?_
      exact calm_ahead.scanPages_inside inside_fetchPage Inside.ahead
        (inside_updateBody table schema assignments filter) pageIds ()

/-- All states of a session on an empty directory keep the order. -/
theorem Session.ahead {admits : Admits} {stmts : List Statement}
    (session : Session admits stmts executor) : Ahead executor := by
  induction session with
  | @start order _ _ run =>
      have ahead := ahead_start order
      rwa [run] at ahead
  | @execute order _ stmt _ executor _ _ run _ ih =>
      have ahead := ahead_execute order stmt executor ih
      rwa [run] at ahead

/-- In a session on an empty directory every change of a page, in memory or in the data file, comes
after the record of it in the log, with the same page, slot and bytes; and a page and the log
manager's copy of it put the next tuple into the same slot. -/
theorem Session.writes_ahead {stmts : List Statement} (session : Session Returns stmts executor) :
    (∀ moment ∈ executor.history, moment.WrittenAhead) ∧
      ∀ {pageId data}, executor.bufferPool.view pageId = some data → ∀ tuple,
        ((WalManager.entry executor.wal.pages pageId).insertTuple tuple).map Prod.fst =
          ((Page.fromBytes pageId data).insertTuple tuple).map Prod.fst := by
  have ahead := session.ahead
  refine ⟨?_, fun seen tuple => ahead.aligned.sameSlot seen tuple⟩
  intro moment inside
  have vouched := ahead.vouches.moments moment inside
  exact ⟨vouched, vouched.mono fun _ _ before => before.attested⟩

end Runs

end Executor

namespace Sample

attribute [local instance] Crc32.ieee Build.debug

open Executor

theorem session_insertedDb : Session Returns [create, insertSeven] insertedDb := by
  have returned (executor : Executor) (stmt : Statement) (result : Except Failure (List Row))
      (ok : Succeeds executor stmt result) : Returns executor stmt result := by
    rintro panic rfl
    exact absurd ok (by simp [Succeeds, Except.isOk, Except.toBool])
  refine Session.mono returned ?_
  exact @Session.execute _ _ _ .ofInsertion _ _ _ _ _ session_createdDb rfl rfl

/-- A row in the data file, and its record. -/
theorem writtenAhead_flushed :
    flushed.WrittenAhead ∧ flushed.db.length = 1 ∧
      ∃ tuple, flushed.log[1]? = some (.insert 1 1 0 0 tuple) :=
  ⟨session_insertedDb.writes_ahead.1 flushed
    (List.mem_of_getElem? (show insertedDb.history[0]? = _ from rfl)), rfl, _, rfl⟩

end Sample

end VenomDb
