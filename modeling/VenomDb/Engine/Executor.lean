import VenomDb.Buffer.BufferPool
import VenomDb.Engine.Evaluate
import VenomDb.Recovery.Wal
import VenomDb.Storage.CatalogStore

/-!
# The executor

Statements run against the catalog, the table page lists, the buffer pool, the log
and the indexes. An error leaves everything as it was at that moment: there is no
rollback in memory.

`history` is not part of the program. It records the files and the pages in memory
after every I/O call and every change of a page, so that a crash between two calls
and the order of writes can be spoken of.
-/

namespace VenomDb

/-- The files of a data directory, decoded. -/
structure Files where
  /-- `venom.wal` -/
  log : List LogRecord
  /-- `data.db` -/
  db : List PageData
  /-- `{table}.pages` -/
  pages : AList fun _ : String => List UInt32
  /-- `catalog.bin` -/
  catalog : Option CatalogFile

/-- An empty data directory. -/
def Files.empty : Files where
  log := []
  db := []
  pages := ∅
  catalog := none

/-- The frames of the executor's buffer pool. -/
def frameCount : ℕ := 64

abbrev FrameId := Fin frameCount

/-- What an observer sees between two calls. -/
structure Moment extends Files where
  /-- The pages in the buffer pool. -/
  frames : FrameId → Option Page

structure Executor where
  catalog : Catalog
  /-- Table name to the page ids that hold its rows. -/
  tablePages : AList fun _ : String => List UInt32
  bufferPool : BufferPool frameCount
  wal : WalManager
  indexManager : IndexManager
  catalogFile : Option CatalogFile
  pageFiles : AList fun _ : String => List UInt32
  /-- The moments after each call, latest first. -/
  history : List Moment

/-- A computation of the executor. -/
abbrev Action := Fallible Failure Executor

namespace Executor

/-- What is on disk. -/
def files (executor : Executor) : Files where
  log := executor.wal.log
  db := executor.bufferPool.disk.file
  pages := executor.pageFiles
  catalog := executor.catalogFile

/-- What an observer sees now. -/
def moment (executor : Executor) : Moment :=
  { executor.files with frames := executor.bufferPool.getPage }

/-- A call has completed. -/
def record (executor : Executor) : Executor :=
  { executor with history := executor.moment :: executor.history }

/-- Open a data directory; no statement runs before `recover`. -/
def «open» (files : Files) : Executor where
  catalog := Catalog.new
  tablePages := ∅
  bufferPool := BufferPool.new (DiskManager.new files.db [])
  wal := WalManager.new files.log
  indexManager := IndexManager.new
  catalogFile := files.catalog
  pageFiles := files.pages
  history := []

section Parts

variable {α : Type}

/-- A call of the buffer pool. -/
def onPool (call : Fallible Failure (BufferPool frameCount) α) : Action α := fun executor =>
  match call executor.bufferPool with
  | (result, pool) => (result, record { executor with bufferPool := pool })

/-- A call of the log manager. -/
def onWal (call : Fallible Failure WalManager α) : Action α := fun executor =>
  match call executor.wal with
  | (result, wal) => (result, record { executor with wal := wal })

/-- A change of the pool in memory. -/
def modifyPool (change : BufferPool frameCount → BufferPool frameCount) : Action Unit :=
  Fallible.modify fun executor =>
    record { executor with bufferPool := change executor.bufferPool }

/-- A change of the indexes. -/
def modifyIndexes (change : IndexManager → IndexManager) : Action Unit :=
  Fallible.modify fun executor => { executor with indexManager := change executor.indexManager }

variable [Crc32]

/-- `fetch_page` with its error wrapped in a message. -/
def fetchPage (pageId : UInt32) : Action FrameId :=
  Fallible.mapError (Failure.wrapIo (.fetchPage pageId)) (onPool (BufferPool.fetchPage pageId))

/-- `get_page(..).and_then(|p| p.get_tuple(..))`. -/
def getTuple (frameId : FrameId) (slotId : UInt16) : Action (Option Bytes) := do
  let executor ← Fallible.get
  match executor.bufferPool.getPage frameId with
  | none => return none
  | some page => Fallible.ofExcept (page.getTuple slotId)

/-- `get_page_mut(..)` followed by an operation of the page; `default` if the frame is empty. -/
def onPage (frameId : FrameId) (default : α) (operation : Page → Except Failure (α × Page)) :
    Action α := do
  let executor ← Fallible.get
  match executor.bufferPool.getPage frameId with
  | none => return default
  | some page => do
      let (result, page) ← Fallible.ofExcept (operation page)
      modifyPool fun pool => pool.setPage frameId page
      return result

/-- `0..num_slots` of the page in a frame. -/
def slots (frameId : FrameId) : Action (List UInt16) := do
  let executor ← Fallible.get
  match executor.bufferPool.getPage frameId with
  | none => return []
  | some page => return (List.range page.numSlots.toNat).map UInt16.ofNat

/-- Flush pages one after another. -/
def flushPages (pageIds : List UInt32) : Action Unit :=
  Fallible.forEach pageIds fun pageId =>
    Fallible.mapError (Failure.wrapIo .flushPage) (onPool (BufferPool.flushPage pageId))

end Parts

section Scan

variable {α : Type} [Crc32]

/-- The loop over the slots of a page. `body` gets the slot, whether the page was changed so far
and the tuple, and says whether it changed the page. -/
def scanSlots (frameId : FrameId) (body : UInt16 → Bool → Bytes → α → Action (Bool × α)) :
    List UInt16 → Bool → α → Action (Bool × α)
  | [], dirty, result => return (dirty, result)
  | slotId :: slotIds, dirty, result => do
      match ← getTuple frameId slotId with
      | none => scanSlots frameId body slotIds dirty result -- tombstone
      | some tuple => do
          let (changed, result) ← body slotId dirty tuple result
          scanSlots frameId body slotIds (dirty || changed) result

/-- The loop over the pages of a table that `SELECT`, `DELETE` and `UPDATE` share. Gives the pages
that were changed. An error leaves the page pinned. -/
def scanPages (body : UInt32 → FrameId → UInt16 → Bool → Bytes → α → Action (Bool × α)) :
    List UInt32 → α → Action (List UInt32 × α)
  | [], result => return ([], result)
  | pageId :: pageIds, result => do
      let frameId ← fetchPage pageId
      let slotIds ← slots frameId
      let (dirty, result) ← scanSlots frameId (body pageId frameId) slotIds false result
      modifyPool (BufferPool.unpin frameId dirty)
      let (dirtyPages, result) ← scanPages body pageIds result
      return (if dirty then pageId :: dirtyPages else dirtyPages, result)

end Scan

section Tables

/-- The schema of a table. -/
def schemaOf (table : String) : Action Schema := do
  let executor ← Fallible.get
  match executor.catalog.get table with
  | some schema => return schema
  | none => Fallible.throw (.sql (.tableNotFound table))

/-- The page list of a table. -/
def pagesOf (table : String) : Action (List UInt32) := do
  let executor ← Fallible.get
  match executor.tablePages.lookup table with
  | some pageIds => return pageIds
  | none => Fallible.throw (.sql (.tableMetaNotFound table))

/-- Write the page list of a table, by renaming a temporary file. -/
def saveTableMeta (table : String) : Action Unit :=
  Fallible.modify fun executor =>
    record { executor with
      pageFiles := executor.pageFiles.insert table ((executor.tablePages.lookup table).getD []) }

/-- Write the catalog, by renaming a temporary file. -/
def saveCatalog (order : HashOrder) : Action Unit :=
  Fallible.modify fun executor =>
    record { executor with catalogFile := some (CatalogFile.save order executor.catalog) }

end Tables

section CreateTable

/-- The index is created before the check for an existing table. -/
def execCreateTable (order : HashOrder) (table : String) (columns : List ColumnDef) :
    Action (List Row) := do
  let schema := Schema.new table columns
  modifyIndexes fun manager =>
    schema.primaryKey.elim manager fun column => manager.createIndex table column
  let executor ← Fallible.get
  let catalog ← Fallible.ofExcept (executor.catalog.createTable schema)
  let indexDefs := catalog.indexDefs ++ schema.primaryKey.toList.map fun column => (table, column)
  Fallible.modify fun executor =>
    { executor with
      catalog := { catalog with indexDefs := indexDefs }
      tablePages := executor.tablePages.insert table [] }
  saveCatalog order
  saveTableMeta table
  return []

end CreateTable

section Insert

variable [Crc32]

/-- Log the insert, then do it on the page in the frame, and unpin it as dirty. -/
def insertInto (txnId pageId : UInt32) (frameId : FrameId) (wrap : IoError → SqlError)
    (rowBytes : Bytes) : Action UInt16 := do
  let _ ← Fallible.mapError (Failure.wrapIo wrap)
    (onWal (WalManager.logInsert txnId pageId rowBytes))
  let slotId ← onPage frameId none fun page => page.insertTuple rowBytes
  modifyPool (BufferPool.unpin frameId true)
  return slotId.getD 0

/-- Try the existing pages of the table: the first one with room takes the row. -/
def insertExisting (txnId : UInt32) (rowBytes : Bytes) : List UInt32 → Action (Option Rid)
  | [] => return none
  | pageId :: pageIds => do
      let frameId ← fetchPage pageId
      let executor ← Fallible.get
      let hasSpace := (executor.bufferPool.getPage frameId).any fun page =>
        rowBytes.length + 5 ≤ page.freeSpace -- 5 = slot entry size
      if hasSpace then do
        let slotId ← insertInto txnId pageId frameId .walInsert rowBytes
        return some ⟨pageId, slotId⟩
      else do
        modifyPool (BufferPool.unpin frameId false)
        insertExisting txnId rowBytes pageIds

/-- Allocate a page for the row and register it with the table. -/
def insertFresh (txnId : UInt32) (table : String) (rowBytes : Bytes) : Action Rid := do
  let (pageId, frameId) ← Fallible.mapError (Failure.wrapIo .newPage) (onPool BufferPool.newPage)
  let slotId ← insertInto txnId pageId frameId .walInsertNewPage rowBytes
  Fallible.modify fun executor =>
    { executor with
      tablePages := executor.tablePages.insert table
        ((executor.tablePages.lookup table).getD [] ++ [pageId]) }
  saveTableMeta table
  return ⟨pageId, slotId⟩

/-- Find a page with space or allocate a new one. -/
def placeRow (txnId : UInt32) (table : String) (rowBytes : Bytes) (pageIds : List UInt32) :
    Action Rid := do
  match ← insertExisting txnId rowBytes pageIds with
  | some rid => return rid
  | none => insertFresh txnId table rowBytes

def execInsert (table : String) (values : List Value) : Action (List Row) := do
  let schema ← schemaOf table
  let executor ← Fallible.get
  Fallible.ofExcept (checkInsertKey schema executor.indexManager table values)
  let rowBytes ← Fallible.ofExcept (schema.serializeRow values)
  let txnId ← onWal WalManager.beginTxn
  let pageIds ← pagesOf table
  let rid ← placeRow txnId table rowBytes pageIds
  modifyIndexes (IndexManager.maintain table rid (indexCells schema none (some values)))
  -- commit, then flush the page
  onWal (WalManager.commit txnId)
  flushPages [rid.pageId]
  return []

end Insert

section Select

variable [Crc32] [Build]

/-- Fetch the tuples that an index points to and check the filter again. -/
def selectRids (schema : Schema) (columns : SelectColumns) (expr : Expr) (pageIds : List UInt32) :
    List Rid → List Row → Action (List Row)
  | [], results => return results
  | rid :: rids, results =>
      if rid.pageId ∈ pageIds then do
        let frameId ← fetchPage rid.pageId
        let tuple ← getTuple frameId rid.slotId
        modifyPool (BufferPool.unpin frameId false)
        match tuple with
        | none => selectRids schema columns expr pageIds rids results
        | some tuple => do
            let row ← Fallible.ofExcept (selectRow schema columns (some expr) tuple)
            selectRids schema columns expr pageIds rids (results ++ row.toList)
      else selectRids schema columns expr pageIds rids results

/-- Answer through an index if the filter allows it; `none` to fall back to a scan. -/
def tryIndexSelect (table : String) (schema : Schema) (expr : Expr) (columns : SelectColumns)
    (pageIds : List UInt32) : Action (Option (List Row)) := do
  let executor ← Fallible.get
  match ← Fallible.ofExcept (indexRids executor.indexManager table expr) with
  | none => return none
  | some rids => do
      let results ← selectRids schema columns expr pageIds rids []
      return some results

/-- The sequential scan. -/
def seqScan (schema : Schema) (columns : SelectColumns) (filter : Option Expr)
    (pageIds : List UInt32) : Action (List Row) := do
  let (_, results) ← scanPages (fun _ _ _ _ tuple results => do
    let row ← Fallible.ofExcept (selectRow schema columns filter tuple)
    return (false, results ++ row.toList)) pageIds []
  return results

/-- The position of the `ORDER BY` column in the projected rows. -/
def sortIndex (schema : Schema) (columns : SelectColumns) (column : String) : Except Failure ℕ :=
  match columns with
  | .star =>
      match schema.colIndex column with
      | some index => .ok index
      | none => .error (.sql (.orderByNotFound column))
  | .named names =>
      match names.findIdx? fun name => name = column with
      | some index => .ok index
      | none => .error (.sql (.orderByNotSelected column))

/-- Is the left row not after the right one in the order asked for? -/
def inOrder (index : ℕ) (direction : OrderDir) (left right : Row) : Bool :=
  let ordering := compareValues (left.getD index .null) (right.getD index .null)
  match direction with
  | .asc => ordering ≠ .gt
  | .desc => ordering ≠ .lt

/-- `ORDER BY` with a stable sort, then `LIMIT`. -/
def sortAndLimit (schema : Schema) (columns : SelectColumns)
    (orderBy : Option (String × OrderDir)) (limit : Option UInt64) (results : List Row) :
    Except Failure (List Row) := do
  let results ← match orderBy with
    | none => pure results
    | some (column, direction) => do
        let index ← sortIndex schema columns column
        pure (results.mergeSort (inOrder index direction))
  return match limit with
    | none => results
    | some count => results.take count.toNat

/-- The rows, by index if that is possible and by a scan if not. -/
def findRows (table : String) (schema : Schema) (columns : SelectColumns) (filter : Option Expr)
    (pageIds : List UInt32) : Action (List Row) := do
  let found ← match filter with
    | none => pure none
    | some expr => tryIndexSelect table schema expr columns pageIds
  match found with
  | some results => return results
  | none => seqScan schema columns filter pageIds

def execSelect (table : String) (columns : SelectColumns) (filter : Option Expr)
    (orderBy : Option (String × OrderDir)) (limit : Option UInt64) : Action (List Row) := do
  let schema ← schemaOf table
  let pageIds ← pagesOf table
  let results ← findRows table schema columns filter pageIds
  -- the source sorts and truncates twice
  let results ← Fallible.ofExcept (sortAndLimit schema columns orderBy limit results)
  Fallible.ofExcept (sortAndLimit schema columns orderBy limit results)

end Select

section Delete

variable [Crc32]

/-- A scan in a transaction of its own, as `DELETE` and `UPDATE` do it: begin, scan the pages,
commit, and flush the pages that were changed. -/
def transact
    (body : UInt32 → UInt32 → FrameId → UInt16 → Bool → Bytes → Unit → Action (Bool × Unit))
    (pageIds : List UInt32) : Action (List Row) := do
  let txnId ← onWal WalManager.beginTxn
  let (dirtyPages, _) ← scanPages (body txnId) pageIds ()
  onWal (WalManager.commit txnId)
  flushPages dirtyPages
  return []

/-- `DELETE` on one tuple. -/
def deleteBody (table : String) (schema : Schema) (filter : Option Expr) (txnId : UInt32)
    (pageId : UInt32) (frameId : FrameId) (slotId : UInt16) (_dirty : Bool) (tuple : Bytes)
    (_ : Unit) : Action (Bool × Unit) := do
  let row ← Fallible.ofExcept (schema.deserializeRow tuple)
  if ← Fallible.ofExcept (selects schema filter row) then do
    let _ ← onWal (WalManager.logDelete txnId pageId slotId)
    let _ ← onPage frameId false fun page => page.deleteTuple slotId
    modifyIndexes (IndexManager.maintain table ⟨pageId, slotId⟩ (indexCells schema (some row) none))
    return (true, ())
  else return (false, ())

def execDelete (table : String) (filter : Option Expr) : Action (List Row) := do
  let schema ← schemaOf table
  let pageIds ← pagesOf table
  transact (deleteBody table schema filter) pageIds

end Delete

section Update

variable [Crc32]

/-- `UPDATE` on one tuple. A new row that does not fit aborts the transaction; rows that were
rewritten before it stay rewritten. -/
def updateBody (table : String) (schema : Schema) (assignments : List Assignment)
    (filter : Option Expr) (txnId : UInt32) (pageId : UInt32) (frameId : FrameId) (slotId : UInt16)
    (dirty : Bool) (oldBytes : Bytes) (_ : Unit) : Action (Bool × Unit) := do
  let oldRow ← Fallible.ofExcept (schema.deserializeRow oldBytes)
  if ← Fallible.ofExcept (selects schema filter oldRow) then do
    let executor ← Fallible.get
    let (row, newBytes) ← Fallible.ofExcept
      (rewriteRow schema executor.indexManager table assignments oldRow)
    onWal (WalManager.logUpdate txnId pageId slotId oldBytes newBytes)
    let ok ← onPage frameId false fun page => page.updateTuple slotId newBytes
    if ok then do
      modifyIndexes
        (IndexManager.maintain table ⟨pageId, slotId⟩ (indexCells schema (some oldRow) (some row)))
      return (true, ())
    else do
      modifyPool (BufferPool.unpin frameId dirty)
      onWal (WalManager.abort txnId)
      Fallible.throw (.sql .updateLarger)
  else return (false, ())

def execUpdate (table : String) (assignments : List Assignment) (filter : Option Expr) :
    Action (List Row) := do
  let schema ← schemaOf table
  let pageIds ← pagesOf table
  transact (updateBody table schema assignments filter) pageIds

end Update

variable [Crc32] [Build]

/-- Execute a statement. Gives rows for `SELECT` and nothing otherwise. -/
def execute (order : HashOrder) : Statement → Action (List Row)
  | .createTable table columns => execCreateTable order table columns
  | .insert table values => execInsert table values
  | .select table columns filter orderBy limit => execSelect table columns filter orderBy limit
  | .delete table filter => execDelete table filter
  | .update table assignments filter => execUpdate table assignments filter

end Executor

end VenomDb
