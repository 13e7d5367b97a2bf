import VenomDb.Engine.Executor
import VenomDb.Storage.SlottedPage

/-!
# What the executor does, without frames and bytes

`Logical` is the executor as an observer of the heap sees it: pages are lists of
tuples, all of them within reach, and a statement runs over the live tuples that
were there when it started. Everything but the pages is taken over as it is.
-/

namespace VenomDb

/-- Pages by page id. -/
abbrev Heap := UInt32 → Option SlottedPage

namespace Heap

def empty : Heap := fun _ => none

/-- The live tuple at a record id. -/
def get (heap : Heap) (rid : Rid) : Option Bytes :=
  (heap rid.pageId).bind fun page => page.get rid.slotId.toNat

/-- Change one page. -/
def update (heap : Heap) (pageId : UInt32) (change : SlottedPage → SlottedPage) : Heap :=
  Function.update heap pageId ((heap pageId).map change)

/-- The slots of a page. -/
def slots (heap : Heap) (pageId : UInt32) : List UInt16 :=
  (List.range ((heap pageId).elim 0 fun page => page.cells.length)).map UInt16.ofNat

/-- The live tuples in some slots of a page. -/
def liveIn (heap : Heap) (pageId : UInt32) (slotIds : List UInt16) : List (Rid × Bytes) :=
  slotIds.filterMap fun slotId => (heap.get ⟨pageId, slotId⟩).map fun tuple =>
    (⟨pageId, slotId⟩, tuple)

/-- The live tuples of pages in scan order. -/
def live (heap : Heap) (pageIds : List UInt32) : List (Rid × Bytes) :=
  pageIds.flatMap fun pageId => heap.liveIn pageId (heap.slots pageId)

end Heap

/-- The part of the executor that is neither pages nor frames. -/
structure Core where
  catalog : Catalog
  tablePages : AList fun _ : String => List UInt32
  indexManager : IndexManager
  catalogFile : Option CatalogFile
  pageFiles : AList fun _ : String => List UInt32
  log : List LogRecord
  currentLsn : UInt64
  nextTxnId : UInt32
  numPages : ℕ

def Executor.core (executor : Executor) : Core where
  catalog := executor.catalog
  tablePages := executor.tablePages
  indexManager := executor.indexManager
  catalogFile := executor.catalogFile
  pageFiles := executor.pageFiles
  log := executor.wal.log
  currentLsn := executor.wal.currentLsn
  nextTxnId := executor.wal.nextTxnId
  numPages := executor.bufferPool.disk.numPages.toNat

/-- The executor with its pages as lists of tuples: those of the heap, and the log manager's own
copies. -/
structure Logical extends Core where
  heap : Heap
  shadow : Heap

/-- How a scan ended: its result, and whether it changed a tuple on the way. -/
structure ScanEnd (α : Type) where
  result : Except Failure α
  changed : Bool
  state : Logical

/-- The end of a scan that begins with one more step. -/
def ScanEnd.after {α : Type} (changed : Bool) (rest : ScanEnd α) : ScanEnd α :=
  { rest with changed := changed || rest.changed }

/-- The end of a scan that goes on with more tuples. -/
def ScanEnd.andThen {α : Type} (first : ScanEnd α) (rest : α → Logical → ScanEnd α) : ScanEnd α :=
  match first with
  | ⟨.ok result, changed, logical⟩ => (rest result logical).after changed
  | ⟨.error failure, changed, logical⟩ => ⟨.error failure, changed, logical⟩

namespace Logical

def append (record : LogRecord) (logical : Logical) : Logical :=
  { logical with
    log := logical.log ++ [record.withLsn logical.currentLsn]
    currentLsn := logical.currentLsn + 1 }

/-- `begin_txn`; the caller has checked that there is an id left. -/
def beginTxn (logical : Logical) : Logical :=
  append (.begin 0 logical.nextTxnId) { logical with nextTxnId := logical.nextTxnId + 1 }

def logInsert (txnId pageId : UInt32) (data : Bytes) (logical : Logical) : Logical :=
  let page := (logical.shadow pageId).getD .empty
  append (.insert 0 txnId pageId (UInt16.ofNat page.cells.length) data)
    { logical with shadow := Function.update logical.shadow pageId (some (page.push data)) }

def logDelete (txnId : UInt32) (rid : Rid) (logical : Logical) : Logical :=
  append (.delete 0 txnId rid.pageId rid.slotId ((logical.shadow.get rid).getD []))
    { logical with
      shadow := logical.shadow.update rid.pageId fun page =>
        (page.deleteTuple rid.slotId.toNat).2 }

def logUpdate (txnId : UInt32) (rid : Rid) (oldData newData : Bytes) : Logical → Logical :=
  append (.update 0 txnId rid.pageId rid.slotId oldData newData)

def commit (txnId : UInt32) : Logical → Logical := append (.commit 0 txnId)

def abort (txnId : UInt32) : Logical → Logical := append (.abort 0 txnId)

/-- Index maintenance for one row. -/
def maintain (table : String) (rid : Rid) (cells : List (String × Option Int64 × Option Int64))
    (logical : Logical) : Logical :=
  { logical with indexManager := logical.indexManager.maintain table rid cells }

/-- Delete one row: log it, turn its slot into a tombstone, take its keys out of the indexes. -/
def deleteRow (table : String) (schema : Schema) (txnId : UInt32) (rid : Rid) (row : Row)
    (logical : Logical) : Logical :=
  let logical := logical.logDelete txnId rid
  maintain table rid (Executor.indexCells schema (some row) none)
    { logical with
      heap := logical.heap.update rid.pageId fun page => (page.deleteTuple rid.slotId.toNat).2 }

/-- Rewrite one row in its place. -/
def updateRow (table : String) (schema : Schema) (txnId : UInt32) (rid : Rid)
    (oldBytes newBytes : Bytes) (oldRow row : Row) (logical : Logical) : Logical :=
  let logical := logical.logUpdate txnId rid oldBytes newBytes
  maintain table rid (Executor.indexCells schema (some oldRow) (some row))
    { logical with
      heap := logical.heap.update rid.pageId fun page => page.overwrite rid.slotId.toNat newBytes }

/-- An update that does not fit is logged before it is refused. -/
def refuseRow (txnId : UInt32) (rid : Rid) (oldBytes newBytes : Bytes) (logical : Logical) :
    Logical :=
  (logical.logUpdate txnId rid oldBytes newBytes).abort txnId

/-- `DELETE` on one tuple. -/
def deleteStep (table : String) (schema : Schema) (filter : Option Expr) (txnId : UInt32)
    (rid : Rid)
    (tuple : Bytes) (_ : Unit) : Fallible Failure Logical (Bool × Unit) := do
  match ← Fallible.ofExcept (Executor.selectRow schema .star filter tuple) with
  | none => return (false, ())
  | some row => do
      Fallible.modify (deleteRow table schema txnId rid row)
      return (true, ())

/-- `UPDATE` on one tuple. -/
def updateStep (table : String) (schema : Schema) (assignments : List Assignment)
    (filter : Option Expr) (txnId : UInt32) (rid : Rid) (oldBytes : Bytes) (_ : Unit) :
    Fallible Failure Logical (Bool × Unit) := do
  match ← Fallible.ofExcept (Executor.selectRow schema .star filter oldBytes) with
  | none => return (false, ())
  | some oldRow => do
      let logical ← Fallible.get
      let (row, newBytes) ← Fallible.ofExcept
        (Executor.rewriteRow schema logical.indexManager table assignments oldRow)
      if newBytes.length ≤ oldBytes.length then do
        Fallible.modify (updateRow table schema txnId rid oldBytes newBytes oldRow row)
        return (true, ())
      else do
        Fallible.modify (refuseRow txnId rid oldBytes newBytes)
        Fallible.throw (.sql .updateLarger)

/-- `SELECT` on one tuple. -/
def selectStep (schema : Schema) (columns : SelectColumns) (filter : Option Expr) (_ : Rid)
    (tuple : Bytes) (results : List Row) : Fallible Failure Logical (Bool × List Row) := do
  let row ← Fallible.ofExcept (Executor.selectRow schema columns filter tuple)
  return (false, results ++ row.toList)

/-- Run a step for the tuples of a scan one after another, until one fails. -/
def scan {α : Type} (step : Rid → Bytes → α → Fallible Failure Logical (Bool × α)) :
    List (Rid × Bytes) → α → Logical → ScanEnd α
  | [], result, logical => ⟨.ok result, false, logical⟩
  | (rid, tuple) :: tuples, result, logical =>
      match step rid tuple result logical with
      | (.ok (changed, result), logical) => (scan step tuples result logical).after changed
      | (.error failure, logical) => ⟨.error failure, false, logical⟩

section Select

variable [Build]

/-- The rows `SELECT` makes of some tuples. -/
def selectRows (schema : Schema) (columns : SelectColumns) (filter : Option Expr)
    (tuples : List Bytes) : Except Failure (List Row) := do
  let rows ← tuples.mapM (Executor.selectRow schema columns filter)
  return rows.reduceOption

/-- The tuples of a table in scan order. -/
def tuples (logical : Logical) (pageIds : List UInt32) : List Bytes :=
  (logical.heap.live pageIds).map Prod.snd

/-- The tuples that an index points to. -/
def pointedAt (logical : Logical) (pageIds : List UInt32) (rids : List Rid) : List Bytes :=
  (rids.filter fun rid => rid.pageId ∈ pageIds).filterMap logical.heap.get

/-- The rows found by index or by scan, before `ORDER BY` and `LIMIT`. -/
def findRows (table : String) (schema : Schema) (columns : SelectColumns) (filter : Option Expr)
    (pageIds : List UInt32) (logical : Logical) : Except Failure (List Row) := do
  match ← filter.elim (.ok none) (Executor.indexRids logical.indexManager table) with
  | none => selectRows schema columns filter (logical.tuples pageIds)
  | some rids => selectRows schema columns filter (logical.pointedAt pageIds rids)

def execSelect (table : String) (columns : SelectColumns) (filter : Option Expr)
    (orderBy : Option (String × OrderDir)) (limit : Option UInt64) (logical : Logical) :
    Except Failure (List Row) := do
  match logical.catalog.get table, logical.tablePages.lookup table with
  | none, _ => .error (.sql (.tableNotFound table))
  | some _, none => .error (.sql (.tableMetaNotFound table))
  | some schema, some pageIds => do
      let results ← logical.findRows table schema columns filter pageIds
      let results ← Executor.sortAndLimit schema columns orderBy limit results
      Executor.sortAndLimit schema columns orderBy limit results

end Select

/-- A statement that ends without having changed a tuple. -/
def fail (failure : Failure) (logical : Logical) :
    ScanEnd (List Row) := ⟨.error failure, false, logical⟩

/-- A scan inside a transaction of its own, which is committed if the scan succeeds. -/
def transact (step : UInt32 → Rid → Bytes → Unit → Fallible Failure Logical (Bool × Unit))
    (pageIds : List UInt32) (logical : Logical) : ScanEnd (List Row) :=
  match logical.beginTxn.scan (step logical.nextTxnId) (logical.heap.live pageIds) () with
  | ⟨.ok _, changed, logical'⟩ => ⟨.ok [], changed, logical'.commit logical.nextTxnId⟩
  | ⟨.error failure, changed, logical'⟩ => ⟨.error failure, changed, logical'⟩

def execDelete (table : String) (filter : Option Expr) (logical : Logical) : ScanEnd (List Row) :=
  match logical.catalog.get table, logical.tablePages.lookup table with
  | none, _ => logical.fail (.sql (.tableNotFound table))
  | some _, none => logical.fail (.sql (.tableMetaNotFound table))
  | some schema, some pageIds => logical.transact (deleteStep table schema filter) pageIds

def execUpdate (table : String) (assignments : List Assignment) (filter : Option Expr)
    (logical : Logical) : ScanEnd (List Row) :=
  match logical.catalog.get table, logical.tablePages.lookup table with
  | none, _ => logical.fail (.sql (.tableNotFound table))
  | some _, none => logical.fail (.sql (.tableMetaNotFound table))
  | some schema, some pageIds =>
      logical.transact (updateStep table schema assignments filter) pageIds

/-- The first page with room for a tuple and its slot entry. -/
def firstFit (logical : Logical) (length : ℕ) (pageIds : List UInt32) : Option UInt32 :=
  pageIds.find? fun pageId => (logical.heap pageId).any fun page => length + 5 ≤ page.freeSpace

/-- Log a tuple and put it into the next slot of a page. -/
def pushTuple (txnId pageId : UInt32) (rowBytes : Bytes) (logical : Logical) : Logical :=
  { logical.logInsert txnId pageId rowBytes with
    heap := Function.update logical.heap pageId
      (some (((logical.heap pageId).getD .empty).push rowBytes)) }

theorem pushTuple_heap_of_ne {txnId pageId other : UInt32} {rowBytes : Bytes} {logical : Logical}
    (ne : other ≠ pageId) :
    (logical.pushTuple txnId pageId rowBytes).heap other = logical.heap other :=
  Function.update_of_ne ne _ _

/-- The record id that the next tuple of a page gets. -/
def nextRid (logical : Logical) (pageId : UInt32) : Rid :=
  ⟨pageId, UInt16.ofNat ((logical.heap pageId).getD .empty).cells.length⟩

/-- The rest of `INSERT` once the page is chosen. -/
def insertRow (table : String) (schema : Schema) (values : List Value) (rowBytes : Bytes)
    (txnId pageId : UInt32) (logical : Logical) : Logical :=
  ((logical.pushTuple txnId pageId rowBytes).maintain table (logical.nextRid pageId)
    (Executor.indexCells schema none (some values))).commit txnId

/-- The page id that the next allocation gives. -/
def nextPageId (logical : Logical) : UInt32 := UInt32.ofNat logical.numPages

/-- A page id is taken. -/
def allocate (logical : Logical) : Logical := { logical with numPages := logical.numPages + 1 }

/-- A page id is taken and an empty page stands under it. -/
def takePage (logical : Logical) : Logical :=
  { logical.allocate with
    heap := Function.update logical.heap logical.nextPageId (some .empty) }

/-- A page is entered into the page list of a table, in memory and on disk. -/
def listPage (table : String) (pageId : UInt32) (logical : Logical) : Logical :=
  let pageIds := (logical.tablePages.lookup table).getD [] ++ [pageId]
  { logical with
    tablePages := logical.tablePages.insert table pageIds
    pageFiles := logical.pageFiles.insert table pageIds }

/-- A row that no page can hold leaves a page id and an empty page of the log manager behind. -/
def wastePage (pageId : UInt32) (logical : Logical) : Logical :=
  { logical.allocate with
    shadow := Function.update logical.shadow pageId (some ((logical.shadow pageId).getD .empty)) }

/-- The page that takes a tuple: the first with room, or a new one if an empty page has room. -/
def place (table : String) (length : ℕ) (pageIds : List UInt32) (logical : Logical) :
    Option (UInt32 × Logical) :=
  match logical.firstFit length pageIds with
  | some pageId => some (pageId, logical)
  | none =>
      if SlottedPage.empty.HasRoom length then
        some (logical.nextPageId, logical.allocate.listPage table logical.nextPageId)
      else none

/-- `INSERT` with its row encoded; `pageIds` are the pages of the table. -/
def insertBytes (table : String) (schema : Schema) (values : List Value) (rowBytes : Bytes)
    (pageIds : List UInt32) (logical : Logical) : ScanEnd (List Row) :=
  match logical.beginTxn.place table rowBytes.length pageIds with
  | some (pageId, logical') =>
      ⟨.ok [], true, logical'.insertRow table schema values rowBytes logical.nextTxnId pageId⟩
  | none =>
      (logical.beginTxn.wastePage logical.nextPageId).fail (.sql (.walInsertNewPage .pageFull))

def execInsert (table : String) (values : List Value) (logical : Logical) : ScanEnd (List Row) :=
  match logical.catalog.get table with
  | none => logical.fail (.sql (.tableNotFound table))
  | some schema =>
      match Executor.checkInsertKey schema logical.indexManager table values,
        schema.serializeRow values with
      | .error failure, _ => logical.fail failure
      | .ok _, .error failure => logical.fail failure
      | .ok _, .ok rowBytes =>
          match logical.tablePages.lookup table with
          | none => logical.beginTxn.fail (.sql (.tableMetaNotFound table))
          | some pageIds => logical.insertBytes table schema values rowBytes pageIds

def createIndexOf (schema : Schema) (logical : Logical) : Logical :=
  { logical with
    indexManager := schema.primaryKey.elim logical.indexManager fun column =>
      logical.indexManager.createIndex schema.name column }

/-- A table with no pages is entered into the catalog, in memory and on disk. -/
def addTable (order : HashOrder) (schema : Schema) (logical : Logical) : Logical :=
  let catalog : Catalog :=
    { tables := logical.catalog.tables.insert schema.name schema
      indexDefs := logical.catalog.indexDefs ++
        schema.primaryKey.toList.map fun column => (schema.name, column) }
  { logical with
    catalog := catalog
    catalogFile := some (CatalogFile.save order catalog)
    tablePages := logical.tablePages.insert schema.name []
    pageFiles := logical.pageFiles.insert schema.name [] }

def execCreateTable (order : HashOrder) (table : String) (columns : List ColumnDef)
    (logical : Logical) : ScanEnd (List Row) :=
  let schema := Schema.new table columns
  if table ∈ logical.catalog.tables then
    (logical.createIndexOf schema).fail (.sql (.tableExists table))
  else ⟨.ok [], false, (logical.createIndexOf schema).addTable order schema⟩

/-- Execute a statement. -/
def execute [Build] (order : HashOrder) : Statement → Logical → ScanEnd (List Row)
  | .createTable table columns, logical => logical.execCreateTable order table columns
  | .insert table values, logical => logical.execInsert table values
  | .select table columns filter orderBy limit, logical =>
      ⟨logical.execSelect table columns filter orderBy limit, false, logical⟩
  | .delete table filter, logical => logical.execDelete table filter
  | .update table assignments filter, logical => logical.execUpdate table assignments filter

end Logical

end VenomDb
