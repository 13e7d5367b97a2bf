import VenomDb.Recovery.Wal

/-!
# Sessions over one log file

A session opens the log, recovers, and then makes any calls of the log manager; a
crash is a session that ends early. Transaction ids start over in every session, but
recovery matches them over the whole file.
-/

namespace VenomDb

namespace WalManager

/-- A call of the log manager. -/
inductive Call where
  | beginTxn
  | logInsert (txnId pageId : UInt32) (data : Bytes)
  | logUpdate (txnId pageId : UInt32) (slotId : UInt16) (oldData newData : Bytes)
  | logDelete (txnId pageId : UInt32) (slotId : UInt16)
  | commit (txnId : UInt32)
  | abort (txnId : UInt32)

def Call.run : Call → Fallible Failure WalManager Unit
  | beginTxn => do
      let _ ← WalManager.beginTxn
      return ()
  | logInsert txnId pageId data => do
      let _ ← WalManager.logInsert txnId pageId data
      return ()
  | logUpdate txnId pageId slotId oldData newData =>
      WalManager.logUpdate txnId pageId slotId oldData newData
  | logDelete txnId pageId slotId => do
      let _ ← WalManager.logDelete txnId pageId slotId
      return ()
  | commit txnId => WalManager.commit txnId
  | abort txnId => WalManager.abort txnId

/-- Make calls one after another. An error is returned to the caller, who goes on; a panic ends
the session. -/
def runCalls : List Call → WalManager → WalManager
  | [], wal => wal
  | call :: calls, wal =>
      match call.run wal with
      | (.error (.panic _), wal') => wal'
      | (_, wal') => runCalls calls wal'

/-- A session: open the log, recover, make calls. -/
def session (log : List LogRecord) (calls : List Call) : WalManager :=
  match recover (new log) with
  | (.ok _, wal) => runCalls calls wal
  | (.error _, wal) => wal

/-- The records that each session of a history adds to the log. -/
def sessionLogs : List LogRecord → List (List Call) → List (List LogRecord)
  | _, [] => []
  | log, calls :: history =>
      (session log calls).log.drop log.length :: sessionLogs (session log calls).log history

/-- The log file after a history. -/
def logAfter : List LogRecord → List (List Call) → List LogRecord
  | log, [] => log
  | log, calls :: history => logAfter (session log calls).log history

section Append

variable {wal : WalManager}

/-- Recovery changes nothing but the pages. -/
theorem recover_state : ∃ pages, (recover wal).2 = { wal with pages := pages } := by
  rw [recover, Fallible.get_bind]
  split
  · exact ⟨wal.pages, rfl⟩
  · rw [Fallible.bind_apply]
    cases replay (isRedone (committed wal.log)) redoRecord wal.log wal.pages with
    | error failure => exact ⟨wal.pages, rfl⟩
    | ok redone =>
        rw [Fallible.ofExcept_apply]
        dsimp only
        rw [Fallible.bind_apply, Fallible.ofExcept_apply]
        split
        · next undone state equation =>
            obtain ⟨-, rfl⟩ := Prod.mk.inj equation
            exact ⟨undone.1, rfl⟩
        · next failure state equation =>
            obtain ⟨-, rfl⟩ := Prod.mk.inj equation
            exact ⟨wal.pages, rfl⟩

theorem recover_log : (recover wal).2.log = wal.log := by
  rcases (recover_state : ∃ pages, (recover wal).2 = { wal with pages := pages }) with
    ⟨pages, same⟩
  rw [same]

/-- A call only ever appends to the log. -/
theorem Call.run_log (call : Call) : wal.log <+: (call.run wal).2.log := by
  cases call with
  | beginTxn =>
      simp only [Call.run, WalManager.beginTxn, Fallible.bind_apply]
      by_cases room : wal.nextTxnId.toNat + 1 < 2 ^ 32
      · simp only [if_pos room]
        exact List.prefix_append _ _
      · simp only [if_neg room]
        exact List.prefix_refl _
  | logInsert txnId pageId data =>
      simp only [Call.run, WalManager.logInsert, Fallible.bind_apply, Fallible.get_apply,
        Fallible.ofExcept_apply]
      cases (entry wal.pages pageId).insertTuple data with
      | error failure => exact List.prefix_refl _
      | ok result =>
          rcases result with ⟨slotId, page⟩
          cases slotId with
          | none => exact List.prefix_refl _
          | some slotId => exact List.prefix_append _ _
  | logUpdate txnId pageId slotId oldData newData => exact List.prefix_append _ _
  | logDelete txnId pageId slotId =>
      simp only [Call.run, WalManager.logDelete, Fallible.bind_apply, Fallible.get_apply]
      cases wal.pages.lookup pageId with
      | none => exact List.prefix_append _ _
      | some page =>
          simp only [Fallible.bind_apply, Fallible.ofExcept_apply]
          cases page.getTuple slotId with
          | error failure => exact List.prefix_refl _
          | ok oldData =>
              dsimp only
              cases page.deleteTuple slotId with
              | error failure => exact List.prefix_refl _
              | ok result => exact List.prefix_append _ _
  | commit txnId => exact List.prefix_append _ _
  | abort txnId => exact List.prefix_append _ _

theorem runCalls_log (calls : List Call) (wal : WalManager) :
    wal.log <+: (runCalls calls wal).log := by
  induction calls generalizing wal with
  | nil => exact List.prefix_refl _
  | cons call calls ih =>
      have step : wal.log <+: (call.run wal).2.log := call.run_log
      rw [runCalls]
      split
      · next panic wal' equation => simpa [equation] using step
      · next result wal' _ equation =>
          rw [equation] at step
          exact step.trans (ih wal')

theorem session_log (log : List LogRecord) (calls : List Call) :
    log <+: (session log calls).log := by
  have kept : (recover (new log)).2.log = log := recover_log
  rw [session]
  split
  · next report wal equation =>
      rw [equation] at kept
      have grows := runCalls_log calls wal
      rwa [kept] at grows
  · next failure wal equation =>
      rw [equation] at kept
      exact kept ▸ List.prefix_refl _

/-- The log file is the records of the sessions one after another. -/
theorem logAfter_eq (history : List (List Call)) (log : List LogRecord) :
    logAfter log history = log ++ (sessionLogs log history).flatten := by
  induction history generalizing log with
  | nil => simp [logAfter, sessionLogs]
  | cons calls history ih =>
      rcases session_log log calls with ⟨added, equation⟩
      rw [logAfter, ih, sessionLogs, List.flatten_cons, ← equation, List.drop_left' rfl,
        List.append_assoc]

end Append

section Commit

/-- A session has a `Commit` record of the transaction. -/
def Commits (records : List LogRecord) (txnId : UInt32) : Prop :=
  ∃ lsn, LogRecord.commit lsn txnId ∈ records

theorem mem_committed {records : List LogRecord} {txnId : UInt32} :
    txnId ∈ committed records ↔ Commits records txnId := by
  simp only [committed, List.mem_toFinset, List.mem_filterMap, Commits]
  constructor
  · rintro ⟨record, inside, shown⟩
    cases record <;> simp at shown
    subst shown
    exact ⟨_, inside⟩
  · rintro ⟨lsn, inside⟩
    exact ⟨_, inside, rfl⟩

end Commit

end WalManager

end VenomDb
