import VenomDb.Recovery.LogRecord
import Mathlib.Data.List.AList
import Mathlib.Data.Finset.Basic

/-!
# The write-ahead log

`WalManager` appends records to the log and keeps pages of its own, which recovery
fills by REDO and UNDO. Appending and syncing always succeed here.
-/

namespace VenomDb

/-- The pages of the log manager, by page id. -/
abbrev WalPages := AList fun _ : UInt32 => Page

structure WalManager where
  /-- The records in the log file. -/
  log : List LogRecord
  currentLsn : UInt64
  nextTxnId : UInt32
  activeTxns : Finset UInt32
  pages : WalPages

structure RecoveryReport where
  redone : ℕ
  undone : ℕ
  incompleteTxns : Finset UInt32

namespace WalManager

/-- Open a log file. Transaction ids and sequence numbers start over. -/
def new (log : List LogRecord) : WalManager where
  log := log
  currentLsn := 0
  nextTxnId := 1
  activeTxns := ∅
  pages := ∅

def append (record : LogRecord) (wal : WalManager) : WalManager :=
  { wal with
    log := wal.log ++ [record.withLsn wal.currentLsn]
    currentLsn := wal.currentLsn + 1 }

/-- `pages.entry(page_id).or_insert_with(..)`. -/
def entry (pages : WalPages) (pageId : UInt32) : Page :=
  (pages.lookup pageId).getD (Page.new pageId)

/-- Begins a transaction under the next id. Overflow of the counter panics. -/
def beginTxn : Fallible Failure WalManager UInt32 := fun wal =>
  let txnId := wal.nextTxnId
  if txnId.toNat + 1 < 2 ^ 32 then
    (.ok txnId,
      append (.begin 0 txnId)
        { wal with nextTxnId := txnId + 1, activeTxns := insert txnId wal.activeTxns })
  else (.error (.panic .overflow), wal)

/-- Logs an insert and does it on the log manager's copy of the page. A new page stays even if
the tuple does not fit. -/
def logInsert (txnId pageId : UInt32) (data : Bytes) : Fallible Failure WalManager UInt16 := do
  let wal ← Fallible.get
  let (slotId, page) ← Fallible.ofExcept ((entry wal.pages pageId).insertTuple data)
  Fallible.modify fun wal => { wal with pages := wal.pages.insert pageId page }
  match slotId with
  | none => Fallible.throw (.io .pageFull)
  | some slotId => do
      Fallible.modify (append (.insert 0 txnId pageId slotId data))
      return slotId

/-- Logs a delete and does it on the log manager's copy, if there is one. -/
def logDelete (txnId pageId : UInt32) (slotId : UInt16) : Fallible Failure WalManager Bool := do
  let wal ← Fallible.get
  match wal.pages.lookup pageId with
  | none => do
      Fallible.modify (append (.delete 0 txnId pageId slotId []))
      return false
  | some page => do
      let oldData ← Fallible.ofExcept (page.getTuple slotId)
      let (deleted, page) ← Fallible.ofExcept (page.deleteTuple slotId)
      Fallible.modify fun wal => { wal with pages := wal.pages.insert pageId page }
      Fallible.modify (append (.delete 0 txnId pageId slotId (oldData.getD [])))
      return deleted

/-- Logs an update; the log manager's copy of the page is left as it was. -/
def logUpdate (txnId pageId : UInt32) (slotId : UInt16) (oldData newData : Bytes) :
    Fallible Failure WalManager Unit :=
  Fallible.modify (append (.update 0 txnId pageId slotId oldData newData))

def commit (txnId : UInt32) : Fallible Failure WalManager Unit := do
  Fallible.modify (append (.commit 0 txnId))
  Fallible.modify fun wal => { wal with activeTxns := wal.activeTxns.erase txnId }

def abort (txnId : UInt32) : Fallible Failure WalManager Unit := do
  Fallible.modify (append (.abort 0 txnId))
  Fallible.modify fun wal => { wal with activeTxns := wal.activeTxns.erase txnId }

section Recover

/-- The transactions with a `Begin` record, wherever it is in the log. -/
def started (records : List LogRecord) : Finset UInt32 :=
  (records.filterMap fun record => match record with
    | .begin _ txnId => some txnId
    | _ => none).toFinset

/-- The transactions with a `Commit` record, wherever it is in the log. -/
def committed (records : List LogRecord) : Finset UInt32 :=
  (records.filterMap fun record => match record with
    | .commit _ txnId => some txnId
    | _ => none).toFinset

/-- The transactions with an `Abort` record, wherever it is in the log. -/
def aborted (records : List LogRecord) : Finset UInt32 :=
  (records.filterMap fun record => match record with
    | .abort _ txnId => some txnId
    | _ => none).toFinset

def incomplete (records : List LogRecord) : Finset UInt32 :=
  (started records).filter fun txnId => txnId ∉ committed records ∧ txnId ∉ aborted records

/-- The guard of the REDO loop: a data record of a committed transaction. -/
def isRedone (committed : Finset UInt32) (record : LogRecord) : Bool :=
  record.isData && record.txnId.any fun txnId => txnId ∈ committed

/-- REDO of one record. Gives the pages and how many records were redone. -/
def redoRecord (record : LogRecord) (pages : WalPages) : Except Failure (WalPages × ℕ) :=
  match record with
  | .insert _ _ pageId _ data => do
      let (_, page) ← (entry pages pageId).insertTuple data
      return (pages.insert pageId page, 1)
  | .delete _ _ pageId slotId _ =>
      match pages.lookup pageId with
      | none => return (pages, 0)
      | some page => do
          let (_, page) ← page.deleteTuple slotId
          return (pages.insert pageId page, 1)
  | .update _ _ pageId slotId _ newData => do
      -- a page that no insert has touched is made up, and the update fails on it
      let (_, page) ← (entry pages pageId).updateTuple slotId newData
      return (pages.insert pageId page, 1)
  | _ => return (pages, 0)

/-- UNDO of one record. -/
def undoRecord (record : LogRecord) (pages : WalPages) : Except Failure (WalPages × ℕ) :=
  match record with
  | .insert _ _ pageId slotId _ =>
      match pages.lookup pageId with
      | none => return (pages, 0)
      | some page => do
          let (_, page) ← page.deleteTuple slotId
          return (pages.insert pageId page, 1)
  | .delete _ _ pageId _ oldData => do
      -- appended, not put back into its slot
      let (_, page) ← (entry pages pageId).insertTuple oldData
      return (pages.insert pageId page, 1)
  | .update _ _ pageId slotId oldData _ =>
      match pages.lookup pageId with
      | none => return (pages, 0)
      | some page => do
          let (_, page) ← page.updateTuple slotId oldData
          return (pages.insert pageId page, 1)
  | _ => return (pages, 0)

/-- Run a step for the records that a guard lets through, counting. -/
def replay (guard : LogRecord → Bool)
    (step : LogRecord → WalPages → Except Failure (WalPages × ℕ)) :
    List LogRecord → WalPages → Except Failure (WalPages × ℕ)
  | [], pages => .ok (pages, 0)
  | record :: records, pages =>
      if guard record then do
        let (pages, count) ← step record pages
        let (pages, counts) ← replay guard step records pages
        return (pages, count + counts)
      else replay guard step records pages

/-- REDO everything committed, then UNDO everything incomplete in reverse order. -/
def recover : Fallible Failure WalManager RecoveryReport := do
  let wal ← Fallible.get
  let records := wal.log
  if records.isEmpty then return { redone := 0, undone := 0, incompleteTxns := ∅ }
  else
    let guard : LogRecord → Bool := fun record =>
      record.txnId.any fun txnId => txnId ∈ incomplete records
    let (pages, redone) ←
      Fallible.ofExcept (replay (isRedone (committed records)) redoRecord records wal.pages)
    let (pages, undone) ← Fallible.ofExcept (replay guard undoRecord records.reverse pages)
    Fallible.modify fun wal => { wal with pages := pages }
    return {
      redone := redone
      undone := undone
      incompleteTxns :=
        (((records.reverse.filter guard).filterMap LogRecord.txnId).toFinset) }

end Recover

end WalManager

end VenomDb
