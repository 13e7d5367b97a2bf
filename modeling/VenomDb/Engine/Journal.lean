import VenomDb.Engine.Invariants
import VenomDb.Engine.Runs
import VenomDb.Engine.SlotReplay

/-!
# What statements do to the log manager

A statement begins at most one transaction and makes its calls of the log manager
under the id it got. `Walks` says what such calls keep, before the transaction and
inside it; every statement then keeps it, whether it succeeds, fails or panics.
-/

namespace VenomDb

namespace WalManager

/-- What the calls of a statement keep: `idle` before its transaction, `busy` inside it. -/
structure Walks (idle : WalManager → Prop) (busy : UInt32 → WalManager → Prop) : Prop where
  begins : ∀ {wal wal' txnId}, idle wal → beginTxn wal = (.ok txnId, wal') → busy txnId wal'
  inserts : ∀ txnId pageId data, Fallible.Keeps (busy txnId) (logInsert txnId pageId data)
  deletes : ∀ txnId pageId slotId, Fallible.Keeps (busy txnId) (logDelete txnId pageId slotId)
  updates : ∀ txnId pageId slotId oldData newData,
    Fallible.Keeps (busy txnId) (logUpdate txnId pageId slotId oldData newData)
  commits : ∀ txnId, Fallible.Keeps (busy txnId) (commit txnId)
  aborts : ∀ txnId, Fallible.Keeps (busy txnId) (abort txnId)

/-- A transaction that cannot begin leaves the log manager alone. -/
theorem beginTxn_error {wal wal' : WalManager} {failure : Failure}
    (run : beginTxn wal = (.error failure, wal')) : wal' = wal := by
  rw [beginTxn] at run
  split at run
  · simp at run
  · exact (Prod.mk.inj run).2.symm

end WalManager

namespace Executor

open Fallible

section Parts

variable {holds : WalManager → Prop} {α : Type}

/-- An invariant of the log manager. -/
def OnWal (holds : WalManager → Prop) (executor : Executor) : Prop := holds executor.wal

theorem keeps_onWal {call : Fallible Failure WalManager α} (kept : Keeps holds call) :
    Keeps (OnWal holds) (onWal call) := fun executor here => kept executor.wal here

theorem indifferent_onWal [Crc32] : Indifferent (OnWal holds) where
  fetch := fun _ _ here => here
  allocate := fun _ here => here
  flush := fun _ _ here => here
  unpin := fun _ _ _ here => here
  edit := fun _ _ here => here
  indexes := fun _ _ here => here
  pageFile := fun _ _ here => here
  catalogFile := fun _ _ here => here

end Parts

section Statements

variable {idle : WalManager → Prop} {busy : UInt32 → WalManager → Prop}

/-- The log manager after a statement: nothing was begun, or a transaction was. -/
def Walked (idle : WalManager → Prop) (busy : UInt32 → WalManager → Prop) (executor : Executor) :
    Prop :=
  idle executor.wal ∨ ∃ txnId, busy txnId executor.wal

/-- Beginning a transaction and going on with it. -/
theorem walked_begin {α : Type} {next : UInt32 → Action α}
    (begins : ∀ {wal wal' txnId}, idle wal → WalManager.beginTxn wal = (.ok txnId, wal') →
      busy txnId wal')
    (rest : ∀ txnId, Keeps (OnWal (busy txnId)) (next txnId)) {executor : Executor}
    (here : idle executor.wal) :
    Walked idle busy ((onWal WalManager.beginTxn >>= next) executor).2 := by
  rcases run : WalManager.beginTxn executor.wal with ⟨failure | txnId, wal'⟩
  · have same := WalManager.beginTxn_error run
    rw [bind_apply, onWal, run]
    subst same
    exact .inl here
  · have begun := begins here run
    rw [bind_ok (show onWal WalManager.beginTxn executor =
      (.ok txnId, record { executor with wal := wal' }) by rw [onWal, run])]
    exact .inr ⟨txnId, rest txnId _ begun⟩

/-- Going on after a part that leaves the log manager alone. -/
theorem walked_bind {α β : Type} {action : Action α} {next : α → Action β} {executor : Executor}
    (first : Keeps (OnWal idle) action) (here : idle executor.wal)
    (rest : ∀ value executor, idle executor.wal → Walked idle busy (next value executor).2) :
    Walked idle busy ((action >>= next) executor).2 := by
  have kept := first executor here
  rw [bind_apply]
  generalize action executor = ended at kept ⊢
  rcases ended with ⟨failure | value, between⟩
  · exact .inl kept
  · exact rest value between kept

variable [Crc32]

theorem walked_transact (walks : WalManager.Walks idle busy)
    {body : UInt32 → UInt32 → FrameId → UInt16 → Bool → Bytes → Unit → Action (Bool × Unit)}
    (kept : ∀ txnId pageId frameId slotId dirty tuple result,
      Keeps (OnWal (busy txnId)) (body txnId pageId frameId slotId dirty tuple result))
    (pageIds : List UInt32) {executor : Executor} (here : idle executor.wal) :
    Walked idle busy (transact body pageIds executor).2 := by
  refine walked_begin walks.begins (fun txnId => ?_) here
  refine (indifferent_onWal.steady.calm.scanPages (kept txnId) pageIds ()).bind fun scanned => ?_
  refine (keeps_onWal (walks.commits txnId)).bind fun _ => ?_
  exact (indifferent_onWal.steady.calm.flushPages _).bind fun _ => keeps_pure _

theorem walked_execInsert
    (begins : ∀ {wal wal' txnId}, idle wal → WalManager.beginTxn wal = (.ok txnId, wal') →
      busy txnId wal')
    (inserts : ∀ txnId pageId data, Keeps (busy txnId) (WalManager.logInsert txnId pageId data))
    (commits : ∀ txnId, Keeps (busy txnId) (WalManager.commit txnId))
    (table : String) (values : List Value) {executor : Executor} (here : idle executor.wal) :
    Walked idle busy (execInsert table values executor).2 := by
  refine walked_bind (keeps_schemaOf table) here fun schema executor here => ?_
  rw [get_bind]
  refine walked_bind (keeps_ofExcept _) here fun _ executor here => ?_
  refine walked_bind (keeps_ofExcept _) here fun rowBytes executor here => ?_
  refine walked_begin begins (fun txnId => ?_) here
  refine (keeps_pagesOf table).bind fun pageIds => ?_
  have logs (pageId : UInt32) := keeps_onWal (inserts txnId pageId rowBytes)
  refine (indifferent_onWal.placeRow logs (indifferent_onWal.insertFresh logs
    (fun _ here => here) table) pageIds).bind fun rid => ?_
  refine (indifferent_onWal.indexes _).bind fun _ => ?_
  refine (keeps_onWal (commits txnId)).bind fun _ => ?_
  exact (indifferent_onWal.steady.calm.flushPages _).bind fun _ => keeps_pure _

theorem walked_execute [Build] (walks : WalManager.Walks idle busy) (order : HashOrder)
    (stmt : Statement) {executor : Executor} (here : idle executor.wal) :
    Walked idle busy (execute order stmt executor).2 := by
  cases stmt with
  | createTable table columns =>
      exact .inl (indifferent_onWal.steady.calm.execCreateTable (fun _ here => here) order columns
        executor here)
  | insert table values =>
      exact walked_execInsert walks.begins walks.inserts walks.commits table values here
  | select table columns filter orderBy limit =>
      exact .inl (indifferent_onWal.steady.calm.execSelect table columns filter orderBy limit
        executor here)
  | delete table filter =>
      refine walked_bind (keeps_schemaOf table) here fun schema executor here => ?_
      refine walked_bind (keeps_pagesOf table) here fun pageIds executor here => ?_
      refine walked_transact walks (fun txnId => ?_) pageIds here
      exact indifferent_onWal.steady.deleteBody (fun pageId slotId =>
        keeps_onWal (walks.deletes txnId pageId slotId)) table schema filter
  | update table assignments filter =>
      refine walked_bind (keeps_schemaOf table) here fun schema executor here => ?_
      refine walked_bind (keeps_pagesOf table) here fun pageIds executor here => ?_
      refine walked_transact walks (fun txnId => ?_) pageIds here
      exact indifferent_onWal.steady.updateBody (fun pageId slotId oldData newData =>
        keeps_onWal (walks.updates txnId pageId slotId oldData newData))
        (keeps_onWal (walks.aborts txnId)) table schema assignments filter

end Statements

end Executor

namespace WalManager

/-- A call appends at most one record, and one of a certain kind. -/
structure Appends (kind : LogRecord → Prop) (wal wal' : WalManager) : Prop where
  nextTxnId : wal'.nextTxnId = wal.nextTxnId
  log : wal'.log = wal.log ∨ ∃ record, kind record ∧ wal'.log = wal.log ++ [record]

section Appends

variable (wal : WalManager) (txnId pageId : UInt32) (slotId : UInt16)

theorem appends_logInsert (data : Bytes) :
    Appends (fun record => ∃ lsn slotId, record = .insert lsn txnId pageId slotId data) wal
      (logInsert txnId pageId data wal).2 := by
  simp only [logInsert, Fallible.bind_apply, Fallible.get_apply, Fallible.ofExcept_apply]
  cases (entry wal.pages pageId).insertTuple data with
  | error failure => exact ⟨rfl, .inl rfl⟩
  | ok result =>
      rcases result with ⟨_ | slotId, page⟩
      · exact ⟨rfl, .inl rfl⟩
      · exact ⟨rfl, .inr ⟨_, ⟨_, _, rfl⟩, rfl⟩⟩

theorem appends_logDelete :
    Appends (fun record => ∃ lsn oldData, record = .delete lsn txnId pageId slotId oldData) wal
      (logDelete txnId pageId slotId wal).2 := by
  simp only [logDelete, Fallible.bind_apply, Fallible.get_apply]
  cases wal.pages.lookup pageId with
  | none => exact ⟨rfl, .inr ⟨_, ⟨_, _, rfl⟩, rfl⟩⟩
  | some page =>
      simp only [Fallible.bind_apply, Fallible.ofExcept_apply]
      cases page.getTuple slotId with
      | error failure => exact ⟨rfl, .inl rfl⟩
      | ok oldData =>
          dsimp only
          cases page.deleteTuple slotId with
          | error failure => exact ⟨rfl, .inl rfl⟩
          | ok result => exact ⟨rfl, .inr ⟨_, ⟨_, _, rfl⟩, rfl⟩⟩

theorem appends_logUpdate (oldData newData : Bytes) :
    Appends (fun record => ∃ lsn, record = .update lsn txnId pageId slotId oldData newData) wal
      (logUpdate txnId pageId slotId oldData newData wal).2 :=
  ⟨rfl, .inr ⟨_, ⟨_, rfl⟩, rfl⟩⟩

theorem appends_commit :
    Appends (fun record => ∃ lsn, record = .commit lsn txnId) wal (commit txnId wal).2 :=
  ⟨rfl, .inr ⟨_, ⟨_, rfl⟩, rfl⟩⟩

theorem appends_abort :
    Appends (fun record => ∃ lsn, record = .abort lsn txnId) wal (abort txnId wal).2 :=
  ⟨rfl, .inr ⟨_, ⟨_, rfl⟩, rfl⟩⟩

end Appends

/-- The ids in the log were given out before. -/
def Numbered (wal : WalManager) : Prop :=
  ∀ record ∈ wal.log, ∀ txnId, record.txnId = some txnId → txnId.toNat < wal.nextTxnId.toNat

theorem Numbered.appends {wal wal' : WalManager} {kind : LogRecord → Prop} {txnId : UInt32}
    (numbered : Numbered wal) (appends : Appends kind wal wal')
    (writer : ∀ record, kind record → record.txnId = some txnId)
    (known : txnId.toNat < wal.nextTxnId.toNat) : Numbered wal' := by
  intro record inside other same
  rw [appends.nextTxnId]
  rcases appends.log with log | ⟨last, isKind, log⟩
  · exact numbered record (log ▸ inside) other same
  · rcases List.mem_append.mp (log ▸ inside) with old | new
    · exact numbered record old other same
    · obtain rfl : record = last := by simpa using new
      obtain rfl : txnId = other := Option.some.inj ((writer _ isKind).symm.trans same)
      exact known

/-- The state of the log manager that a session keeps. -/
structure Journal (wal : WalManager) : Prop where
  tracks : Tracks wal
  numbered : Numbered wal

/-- The journal inside a transaction. -/
structure JournalOf (txnId : UInt32) (wal : WalManager) : Prop extends Journal wal where
  known : txnId.toNat < wal.nextTxnId.toNat

theorem JournalOf.appends {wal wal' : WalManager} {kind : LogRecord → Prop} {txnId : UInt32}
    (journal : JournalOf txnId wal) (tracks : Tracks wal') (appends : Appends kind wal wal')
    (writer : ∀ record, kind record → record.txnId = some txnId) : JournalOf txnId wal' where
  tracks := tracks
  numbered := journal.numbered.appends appends writer journal.known
  known := by rw [appends.nextTxnId]; exact journal.known

theorem Journal.beginTxn {wal wal' : WalManager} {txnId : UInt32} (journal : Journal wal)
    (run : beginTxn wal = (.ok txnId, wal')) : JournalOf txnId wal' := by
  have tracks := journal.tracks.run .beginTxn
  rw [Call.run, Fallible.bind_ok run] at tracks
  rw [WalManager.beginTxn] at run
  split at run
  · next room =>
      obtain ⟨same, rfl⟩ := Prod.mk.inj run
      obtain rfl : wal.nextTxnId = txnId := by simpa using same
      have next := Counter.toNat_succ room
      refine ⟨⟨tracks, fun record inside txnId same => ?_⟩, ?_⟩
      · change txnId.toNat < (wal.nextTxnId + 1).toNat
        rw [next]
        rcases List.mem_append.mp inside with old | new
        · exact Nat.lt_succ_of_lt (journal.numbered record old txnId same)
        · obtain rfl : record = .begin wal.currentLsn wal.nextTxnId := List.mem_singleton.mp new
          obtain rfl : wal.nextTxnId = txnId := Option.some.inj same
          exact Nat.lt_succ_self _
      · change wal.nextTxnId.toNat < (wal.nextTxnId + 1).toNat
        omega
  · simp at run

theorem walks_journal : Walks Journal JournalOf where
  begins := Journal.beginTxn
  inserts := fun txnId pageId data wal journal =>
    journal.appends (journal.tracks.logInsert txnId pageId data)
      (appends_logInsert wal txnId pageId data) (by rintro _ ⟨_, _, rfl⟩; rfl)
  deletes := fun txnId pageId slotId wal journal =>
    journal.appends (journal.tracks.logDelete txnId pageId slotId)
      (appends_logDelete wal txnId pageId slotId) (by rintro _ ⟨_, _, rfl⟩; rfl)
  updates := fun txnId pageId slotId oldData newData wal journal =>
    journal.appends (journal.tracks.run (.logUpdate txnId pageId slotId oldData newData))
      (appends_logUpdate wal txnId pageId slotId oldData newData) (by rintro _ ⟨_, rfl⟩; rfl)
  commits := fun txnId wal journal =>
    journal.appends (journal.tracks.run (.commit txnId)) (appends_commit wal txnId)
      (by rintro _ ⟨_, rfl⟩; rfl)
  aborts := fun txnId wal journal =>
    journal.appends (journal.tracks.run (.abort txnId)) (appends_abort wal txnId)
      (by rintro _ ⟨_, rfl⟩; rfl)

end WalManager

namespace Executor

variable [Crc32] [Build] {executor : Executor}

/-- A statement keeps the journal, however it ends. -/
theorem journal_execute (order : HashOrder) (stmt : Statement)
    (journal : executor.wal.Journal) : (execute order stmt executor).2.wal.Journal := by
  rcases walked_execute WalManager.walks_journal order stmt journal with idle | ⟨txnId, busy⟩
  · exact idle
  · exact busy.toJournal

/-- A session on an empty directory keeps the journal. -/
theorem Session.journal {admits : Admits} {stmts : List Statement}
    (session : Session admits stmts executor) : executor.wal.Journal := by
  induction session with
  | @start order info executor run =>
      rcases start_empty order with ⟨info', executor', same, rests, -⟩
      obtain ⟨-, rfl⟩ := Prod.mk.inj (same.symm.trans run)
      have log : executor'.wal.log = [] := rests.reflects.log_eq
      refine ⟨⟨⟨Heap.empty, ?_, ?_⟩, ?_⟩, ?_⟩
      · exact rests.reflects.shadow
      · intro pageId
        rw [log]
        rfl
      · rw [log]
        exact ⟨fun split => by simp at split, by simp⟩
      · intro record inside
        simp [log] at inside
  | @execute order stmts stmt result executor executor' before run admitted ih =>
      have kept := journal_execute order stmt ih
      rwa [run] at kept

end Executor

end VenomDb
