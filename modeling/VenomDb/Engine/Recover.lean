import VenomDb.Engine.Executor

/-!
# Opening a data directory

`recover` loads the catalog and the page lists, replays the log, pushes the replayed
pages through the buffer pool into the data file and rebuilds the indexes from the
heap. Pages that are not in the data file are skipped.
-/

namespace VenomDb

/-- Summary of what happened during recovery. -/
structure RecoveryInfo where
  redone : ℕ
  undone : ℕ
  tablesLoaded : ℕ

namespace Executor

/-- The page list of every table of the catalog; a missing file is an empty list. -/
def loadAllTableMetas (executor : Executor) : AList fun _ : String => List UInt32 :=
  executor.catalog.tables.keys.foldl
    (fun pages name => pages.insert name ((executor.pageFiles.lookup name).getD [])) ∅

/-- Load the catalog and the page lists. -/
def loadTables (executor : Executor) : Executor :=
  let executor := { executor with catalog := CatalogFile.load executor.catalogFile }
  { executor with tablePages := executor.loadAllTableMetas }

/-- Create the indexes that the catalog lists, all of them empty. -/
def createIndexes (executor : Executor) : Executor :=
  { executor with
    indexManager := executor.catalog.indexDefs.foldl
      (fun manager (table, column) => manager.createIndex table column) executor.indexManager }

variable [Crc32]

/-- A fetch whose I/O errors are ignored. -/
def tryFetchPage (pageId : UInt32) : Action (Option FrameId) := fun executor =>
  match onPool (BufferPool.fetchPage pageId) executor with
  | (.ok frameId, executor) => (.ok (some frameId), executor)
  | (.error (.io _), executor) => (.ok none, executor)
  | (.error failure, executor) => (.error failure, executor)

/-- Overwrite a page of the pool with the log manager's copy. -/
def pushPage (pageId : UInt32) : Action Unit := do
  let executor ← Fallible.get
  match executor.wal.pages.lookup pageId with
  | none => return ()
  | some walPage => do
      match ← tryFetchPage pageId with
      | none => return () -- "a known gap"
      | some frameId => do
          let _ ← onPage frameId () fun page =>
            .ok ((), { page with data := walPage.data, dirty := true })
          modifyPool (BufferPool.unpin frameId true)

/-- The keys a rebuilt index gets from a row: a column is looked up by its name. -/
def rebuildCells (schema : Schema) (row : Row) : List (String × Option Int64 × Option Int64) :=
  schema.columns.map fun column =>
    (column.name, none,
      (schema.colIndex column.name).bind fun index => (row[index]?).bind Value.intKey)

/-- One tuple of the rebuild. Tuples that do not decode are skipped. -/
def rebuildBody (table : String) (schema : Schema) (pageId : UInt32) (slotId : UInt16)
    (_dirty : Bool) (tuple : Bytes) (_ : Unit) : Action (Bool × Unit) :=
  match schema.deserializeRow tuple with
  | .error (.panic panic) => Fallible.throw (.panic panic)
  | .error _ => return (false, ())
  | .ok row => do
      modifyIndexes (IndexManager.maintain table ⟨pageId, slotId⟩ (rebuildCells schema row))
      return (false, ())

def rebuildPages (table : String) (schema : Schema) : List UInt32 → Action Unit
  | [] => return ()
  | pageId :: pageIds => do
      match ← tryFetchPage pageId with
      | none => rebuildPages table schema pageIds
      | some frameId => do
          let slotIds ← slots frameId
          let _ ← scanSlots frameId (rebuildBody table schema pageId) slotIds false ()
          modifyPool (BufferPool.unpin frameId false)
          rebuildPages table schema pageIds

def rebuildTable (table : String) : Action Unit := do
  let executor ← Fallible.get
  match executor.catalog.get table with
  | none => return ()
  | some schema => rebuildPages table schema ((executor.tablePages.lookup table).getD [])

/-- Run after `open`, before any statement. -/
def recover (order : HashOrder) : Action RecoveryInfo := do
  Fallible.modify loadTables
  let report ← onWal WalManager.recover
  let executor ← Fallible.get
  Fallible.forEach (order.pages executor.wal.pages.keys) pushPage
  let executor ← Fallible.get
  Fallible.forEach (order.pages executor.bufferPool.pageTable.keys) fun pageId =>
    onPool (BufferPool.flushPage pageId)
  Fallible.modify createIndexes
  let executor ← Fallible.get
  Fallible.forEach (order.tables executor.tablePages.keys) rebuildTable
  let executor ← Fallible.get
  return {
    redone := report.redone
    undone := report.undone
    tablesLoaded := executor.catalog.tables.keys.length }

/-- Open and recover. -/
def start (order : HashOrder) (files : Files) : Except Failure RecoveryInfo × Executor :=
  recover order («open» files)

end Executor

end VenomDb
