import VenomDb.Engine.Recover

/-!
# Invariants of statements

Most of what a statement does is a handful of calls in some order: fetches, flushes,
changes of one page, writes of small files. An invariant that these calls keep is kept
by every statement whose calls of the log manager keep it too, whether the statement
succeeds, fails or panics.
-/

namespace VenomDb

namespace Page

variable {page : Page}

theorem writeSlot_id {slotId : UInt16} {slot : Slot} {page' : Page}
    (written : page.writeSlot slotId slot = .ok page') : page'.id = page.id := by
  rcases Fallible.except_bind_eq_ok written with ⟨data, -, made⟩
  rw [← Except.ok.inj made]

theorem insertTuple_id {tuple : Bytes} {result : Option UInt16 × Page}
    (inserted : page.insertTuple tuple = .ok result) : result.2.id = page.id := by
  rw [insertTuple] at inserted
  dsimp only at inserted
  split_ifs at inserted
  · rw [← Except.ok.inj inserted]
  · rw [← Except.ok.inj inserted]
  · rcases Fallible.except_bind_eq_ok inserted with ⟨data, -, rest⟩
    rcases Fallible.except_bind_eq_ok rest with ⟨page', written, made⟩
    have same := writeSlot_id written
    rw [← Except.ok.inj made]
    exact same

theorem deleteTuple_id {slotId : UInt16} {result : Bool × Page}
    (deleted : page.deleteTuple slotId = .ok result) : result.2.id = page.id := by
  rw [deleteTuple] at deleted
  split_ifs at deleted
  · rw [← Except.ok.inj deleted]
  · rcases Fallible.except_bind_eq_ok deleted with ⟨slot, -, rest⟩
    split_ifs at rest
    · rcases Fallible.except_bind_eq_ok rest with ⟨page', written, made⟩
      have same := writeSlot_id written
      rw [← Except.ok.inj made]
      exact same
    · rw [← Except.ok.inj rest]

theorem updateTuple_id {slotId : UInt16} {newData : Bytes} {result : Bool × Page}
    (updated : page.updateTuple slotId newData = .ok result) : result.2.id = page.id := by
  rw [updateTuple] at updated
  split_ifs at updated
  · rw [← Except.ok.inj updated]
  · rcases Fallible.except_bind_eq_ok updated with ⟨slot, -, rest⟩
    split_ifs at rest
    · rw [← Except.ok.inj rest]
    · rcases Fallible.except_bind_eq_ok rest with ⟨data, -, made⟩
      rw [← Except.ok.inj made]
    · rw [← Except.ok.inj rest]

/-- What `DELETE` and `UPDATE` do to a page: a tombstone is set, or a tuple is overwritten. -/
def Amended (page page' : Page) : Prop :=
  ∃ slotId done, page.deleteTuple slotId = .ok (done, page') ∨
    ∃ newData, page.updateTuple slotId newData = .ok (done, page')

theorem Amended.id {page' : Page} (amended : page.Amended page') : page'.id = page.id := by
  rcases amended with ⟨slotId, done, deleted | ⟨newData, updated⟩⟩
  · exact deleteTuple_id deleted
  · exact updateTuple_id updated

end Page

namespace BufferPool

open Fallible

variable {poolSize : ℕ} {holds : DiskManager → Prop}

/-- An invariant of the disk manager. -/
def OnDisk (holds : DiskManager → Prop) (pool : BufferPool poolSize) : Prop := holds pool.disk

theorem onDisk_call {α : Type} {operation : Fallible Failure DiskManager α}
    (kept : Keeps holds operation) :
    Keeps (OnDisk holds) (onDisk operation : Fallible Failure (BufferPool poolSize) α) :=
  fun pool here => kept pool.disk here

variable [Crc32]

theorem onDisk_writeFrame (writes : ∀ page, Keeps holds (DiskManager.writePage page))
    (frameId : Fin poolSize) : Keeps (OnDisk holds) (writeFrame frameId) := by
  refine keeps_get_bind fun pool => ?_
  cases (pool.frames frameId).page with
  | none => exact id
  | some page =>
      refine Keeps.bind (keeps_modify ?_) (fun _ => onDisk_call (writes page)) pool
      exact fun _ here => here

theorem onDisk_findFreeFrame (writes : ∀ page, Keeps holds (DiskManager.writePage page)) :
    Keeps (OnDisk holds) (findFreeFrame : Fallible Failure (BufferPool poolSize) _) := by
  refine keeps_get_bind fun pool => ?_
  cases (List.finRange poolSize).find? fun frameId => (pool.frames frameId).isEmpty with
  | some frameId => exact id
  | none =>
      cases pool.replacer.evict with
      | none => exact id
      | some victim =>
          rcases victim with ⟨victimId, replacer⟩
          have freed : Keeps (OnDisk holds) (clearFrame victimId) := by
            refine Keeps.bind (keeps_modify fun pool here => ?_) fun _ => ?_
            · cases (pool.frames victimId).page with
              | none => exact here
              | some page => exact here
            · refine Keeps.bind (keeps_modify ?_) fun _ => keeps_pure _
              exact fun _ here => here
          dsimp only
          refine Keeps.bind (keeps_modify ?_) (fun _ => ?_) pool
          · exact fun _ here => here
          · split_ifs
            · exact (onDisk_writeFrame writes victimId).bind fun _ => freed
            · exact freed

omit [Crc32] in
theorem onDisk_install (frameId : Fin poolSize) (page : Page) (isDirty : Bool) {α : Type}
    (value : α) : Keeps (OnDisk holds) (do
      Fallible.modify (install frameId page isDirty)
      return value : Fallible Failure (BufferPool poolSize) α) := by
  refine Keeps.bind (keeps_modify ?_) fun _ => keeps_pure _
  exact fun _ here => here

theorem onDisk_newPage (writes : ∀ page, Keeps holds (DiskManager.writePage page))
    (allocates : Keeps holds DiskManager.allocatePage) :
    Keeps (OnDisk holds) (newPage : Fallible Failure (BufferPool poolSize) _) := by
  refine (onDisk_findFreeFrame writes).bind fun frameId => ?_
  exact (onDisk_call allocates).bind fun pageId => onDisk_install _ _ _ _

theorem onDisk_fetchPage (writes : ∀ page, Keeps holds (DiskManager.writePage page))
    (reads : ∀ pageId, Keeps holds (DiskManager.readPage pageId)) (pageId : UInt32) :
    Keeps (OnDisk holds) (fetchPage pageId : Fallible Failure (BufferPool poolSize) _) := by
  refine keeps_get_bind fun pool => ?_
  cases pool.pageTable.lookup pageId with
  | some frameId =>
      dsimp only
      split_ifs
      · refine Keeps.bind (keeps_modify ?_) (fun _ => keeps_pure _) pool
        exact fun _ here => here
      · exact id
  | none =>
      refine Keeps.bind (keeps_modify ?_) (fun _ => ?_) pool
      · exact fun _ here => here
      · refine (onDisk_findFreeFrame writes).bind fun frameId => ?_
        exact (onDisk_call (reads pageId)).bind fun page => onDisk_install _ _ _ _

theorem onDisk_flushPage (writes : ∀ page, Keeps holds (DiskManager.writePage page))
    (pageId : UInt32) :
    Keeps (OnDisk holds) (flushPage pageId : Fallible Failure (BufferPool poolSize) _) := by
  refine keeps_get_bind fun pool => ?_
  cases pool.pageTable.lookup pageId with
  | none => exact id
  | some frameId =>
      dsimp only
      split_ifs
      · refine Keeps.bind (onDisk_writeFrame writes frameId) (fun _ => keeps_modify ?_) pool
        exact fun _ here => here
      · exact id

end BufferPool

namespace Executor

open Fallible

/-- An invariant that the calls of the pool keep, that of a new page aside. It may be about what is
on the pages. -/
structure Calm [Crc32] (holds : Executor → Prop) : Prop where
  fetch : ∀ pageId, Keeps holds (onPool (BufferPool.fetchPage pageId))
  flush : ∀ pageId, Keeps holds (onPool (BufferPool.flushPage pageId))
  unpin : ∀ frameId dirty, Keeps holds (modifyPool (BufferPool.unpin frameId dirty))
  indexes : ∀ change, Keeps holds (modifyIndexes change)
  pageFile : ∀ table, Keeps holds (saveTableMeta table)
  catalogFile : ∀ order, Keeps holds (saveCatalog order)

/-- An invariant that the calls of the pool keep, that of a new page aside, and the changes that
`DELETE` and `UPDATE` make to a page. -/
structure Steady [Crc32] (holds : Executor → Prop) : Prop where
  fetch : ∀ pageId, Keeps holds (onPool (BufferPool.fetchPage pageId))
  flush : ∀ pageId, Keeps holds (onPool (BufferPool.flushPage pageId))
  unpin : ∀ frameId dirty, Keeps holds (modifyPool (BufferPool.unpin frameId dirty))
  amend : ∀ {executor frameId page page'}, executor.bufferPool.getPage frameId = some page →
    page.Amended page' → holds executor →
    holds (record { executor with bufferPool := executor.bufferPool.setPage frameId page' })
  indexes : ∀ change, Keeps holds (modifyIndexes change)
  pageFile : ∀ table, Keeps holds (saveTableMeta table)
  catalogFile : ∀ order, Keeps holds (saveCatalog order)

/-- An invariant that every call keeps that is not one of the log manager. A page is only ever
exchanged for a version of it. -/
structure Indifferent [Crc32] (holds : Executor → Prop) : Prop where
  fetch : ∀ pageId, Keeps holds (onPool (BufferPool.fetchPage pageId))
  allocate : Keeps holds (onPool BufferPool.newPage)
  flush : ∀ pageId, Keeps holds (onPool (BufferPool.flushPage pageId))
  unpin : ∀ frameId dirty, Keeps holds (modifyPool (BufferPool.unpin frameId dirty))
  edit : ∀ {executor frameId page page'}, executor.bufferPool.getPage frameId = some page →
    page'.id = page.id → holds executor →
    holds (record { executor with bufferPool := executor.bufferPool.setPage frameId page' })
  indexes : ∀ change, Keeps holds (modifyIndexes change)
  pageFile : ∀ table, Keeps holds (saveTableMeta table)
  catalogFile : ∀ order, Keeps holds (saveCatalog order)

theorem Steady.calm [Crc32] {holds : Executor → Prop} (steady : Steady holds) : Calm holds :=
  ⟨steady.fetch, steady.flush, steady.unpin, steady.indexes, steady.pageFile, steady.catalogFile⟩

theorem Indifferent.steady [Crc32] {holds : Executor → Prop} (indifferent : Indifferent holds) :
    Steady holds :=
  ⟨indifferent.fetch, indifferent.flush, indifferent.unpin,
    fun found amended here => indifferent.edit found amended.id here, indifferent.indexes,
    indifferent.pageFile, indifferent.catalogFile⟩

section Parts

variable {holds : Executor → Prop} {α : Type}

theorem keeps_schemaOf (table : String) : Keeps holds (schemaOf table) := by
  refine keeps_get_bind fun executor here => ?_
  cases executor.catalog.get table <;> exact here

theorem keeps_pagesOf (table : String) : Keeps holds (pagesOf table) := by
  refine keeps_get_bind fun executor here => ?_
  cases executor.tablePages.lookup table <;> exact here

theorem keeps_getTuple (frameId : FrameId) (slotId : UInt16) :
    Keeps holds (getTuple frameId slotId) := by
  refine keeps_get_bind fun executor here => ?_
  cases executor.bufferPool.getPage frameId <;> exact here

theorem keeps_slots (frameId : FrameId) : Keeps holds (slots frameId) := by
  refine keeps_get_bind fun executor here => ?_
  cases executor.bufferPool.getPage frameId <;> exact here

theorem keeps_scanSlots {frameId : FrameId}
    {body : UInt16 → Bool → Bytes → α → Action (Bool × α)}
    (kept : ∀ slotId dirty tuple result, Keeps holds (body slotId dirty tuple result))
    (slotIds : List UInt16) (dirty : Bool) (result : α) :
    Keeps holds (scanSlots frameId body slotIds dirty result) := by
  induction slotIds generalizing dirty result with
  | nil => exact keeps_pure _
  | cons slotId slotIds ih =>
      rw [scanSlots]
      refine (keeps_getTuple frameId slotId).bind fun tuple => ?_
      cases tuple with
      | none => exact ih dirty result
      | some tuple => exact (kept slotId dirty tuple result).bind fun changed => ih _ _

variable [Crc32]

theorem Indifferent.onPage (indifferent : Indifferent holds) (frameId : FrameId) (default : α)
    {operation : Page → Except Failure (α × Page)}
    (sameId : ∀ {page result}, operation page = .ok result → result.2.id = page.id) :
    Keeps holds (onPage frameId default operation) := by
  refine keeps_get_bind fun executor here => ?_
  rcases found : executor.bufferPool.getPage frameId with _ | page
  · exact here
  · dsimp only
    rcases made : operation page with failure | result
    · exact here
    · exact indifferent.edit found (sameId made) here

theorem Steady.onPage (steady : Steady holds) (frameId : FrameId) (default : α)
    {operation : Page → Except Failure (α × Page)}
    (amends : ∀ {page result}, operation page = .ok result → page.Amended result.2) :
    Keeps holds (onPage frameId default operation) := by
  refine keeps_get_bind fun executor here => ?_
  rcases found : executor.bufferPool.getPage frameId with _ | page
  · exact here
  · dsimp only
    rcases made : operation page with failure | result
    · exact here
    · exact steady.amend found (amends made) here

theorem Calm.fetchPage (calm : Calm holds) (pageId : UInt32) : Keeps holds (fetchPage pageId) :=
  (calm.fetch pageId).mapError _

theorem Calm.flushPages (calm : Calm holds) (pageIds : List UInt32) :
    Keeps holds (flushPages pageIds) :=
  keeps_forEach fun pageId => (calm.flush pageId).mapError _

/-- A scan whose body may rely on the page it is given being in the frame it is given. -/
theorem Calm.scanPages_inside (calm : Calm holds) {inside : UInt32 → FrameId → Executor → Prop}
    (fetches : ∀ pageId, Ends holds (Executor.fetchPage pageId) (inside pageId) fun _ => holds)
    (leaves : ∀ {pageId frameId executor}, inside pageId frameId executor → holds executor)
    {body : UInt32 → FrameId → UInt16 → Bool → Bytes → α → Action (Bool × α)}
    (kept : ∀ pageId frameId slotId dirty tuple result,
      Keeps (inside pageId frameId) (body pageId frameId slotId dirty tuple result))
    (pageIds : List UInt32) (result : α) : Keeps holds (scanPages body pageIds result) := by
  induction pageIds generalizing result with
  | nil => exact keeps_pure _
  | cons pageId pageIds ih =>
      rw [Executor.scanPages]
      refine Ends.keeps ((fetches pageId).bind fun frameId => ?_)
      have slots : Ends (inside pageId frameId) (Executor.slots frameId)
          (fun _ => inside pageId frameId) fun _ => holds :=
        (keeps_slots frameId).ends.failing fun _ _ => leaves
      refine slots.bind fun slotIds => ?_
      have scan : Ends (inside pageId frameId)
          (scanSlots frameId (body pageId frameId) slotIds false result) (fun _ => holds)
          fun _ => holds :=
        (keeps_scanSlots (kept pageId frameId) slotIds false result).ends.imp
          (fun _ within => within) (fun _ _ => leaves) fun _ _ => leaves
      refine scan.bind fun scanned => Keeps.ends ?_
      exact (calm.unpin _ _).bind fun _ => (ih _).bind fun _ => keeps_pure _

theorem Calm.scanPages (calm : Calm holds)
    {body : UInt32 → FrameId → UInt16 → Bool → Bytes → α → Action (Bool × α)}
    (kept : ∀ pageId frameId slotId dirty tuple result,
      Keeps holds (body pageId frameId slotId dirty tuple result))
    (pageIds : List UInt32) (result : α) : Keeps holds (scanPages body pageIds result) :=
  calm.scanPages_inside (fun pageId => (calm.fetchPage pageId).ends) id kept pageIds result

end Parts

section Statements

variable [Crc32] {holds : Executor → Prop} {txnId : UInt32}

theorem Steady.deleteBody (steady : Steady holds)
    (deletes : ∀ pageId slotId, Keeps holds (onWal (WalManager.logDelete txnId pageId slotId)))
    (table : String) (schema : Schema) (filter : Option Expr) (pageId : UInt32)
    (frameId : FrameId) (slotId : UInt16) (dirty : Bool) (tuple : Bytes) (result : Unit) :
    Keeps holds
      (deleteBody table schema filter txnId pageId frameId slotId dirty tuple result) := by
  refine (keeps_ofExcept _).bind fun row => (keeps_ofExcept _).bind fun selected => ?_
  split
  · refine (deletes pageId slotId).bind fun _ => ?_
    refine (steady.onPage frameId false fun deleted => ⟨slotId, _, .inl deleted⟩).bind fun _ => ?_
    exact (steady.indexes _).bind fun _ => keeps_pure _
  · exact keeps_pure _

theorem Steady.updateBody (steady : Steady holds)
    (updates : ∀ pageId slotId oldData newData,
      Keeps holds (onWal (WalManager.logUpdate txnId pageId slotId oldData newData)))
    (aborts : Keeps holds (onWal (WalManager.abort txnId)))
    (table : String) (schema : Schema) (assignments : List Assignment) (filter : Option Expr)
    (pageId : UInt32) (frameId : FrameId) (slotId : UInt16) (dirty : Bool) (oldBytes : Bytes)
    (result : Unit) :
    Keeps holds (updateBody table schema assignments filter txnId pageId frameId slotId dirty
      oldBytes result) := by
  refine (keeps_ofExcept _).bind fun oldRow => (keeps_ofExcept _).bind fun selected => ?_
  split
  · refine keeps_get_bind fun executor here => ?_
    revert here
    refine Keeps.bind (keeps_ofExcept _) (fun rewritten => ?_) executor
    refine (updates pageId slotId oldBytes rewritten.2).bind fun _ => ?_
    refine (steady.onPage frameId false fun updated =>
      ⟨slotId, _, .inr ⟨rewritten.2, updated⟩⟩).bind fun ok => ?_
    split
    · exact (steady.indexes _).bind fun _ => keeps_pure _
    · exact (steady.unpin _ _).bind fun _ => aborts.bind fun _ => keeps_throw _
  · exact keeps_pure _

theorem Indifferent.insertInto (indifferent : Indifferent holds) {rowBytes : Bytes}
    (inserts : ∀ pageId, Keeps holds (onWal (WalManager.logInsert txnId pageId rowBytes)))
    (pageId : UInt32) (frameId : FrameId) (wrap : IoError → SqlError) :
    Keeps holds (insertInto txnId pageId frameId wrap rowBytes) := by
  refine ((inserts pageId).mapError _).bind fun _ => ?_
  refine (indifferent.onPage frameId none Page.insertTuple_id).bind fun _ => ?_
  exact (indifferent.unpin _ _).bind fun _ => keeps_pure _

theorem Indifferent.insertExisting (indifferent : Indifferent holds) {rowBytes : Bytes}
    (inserts : ∀ pageId, Keeps holds (onWal (WalManager.logInsert txnId pageId rowBytes)))
    (pageIds : List UInt32) : Keeps holds (insertExisting txnId rowBytes pageIds) := by
  induction pageIds with
  | nil => exact keeps_pure _
  | cons pageId pageIds ih =>
      rw [Executor.insertExisting]
      refine (indifferent.steady.calm.fetchPage pageId).bind fun frameId =>
        keeps_get_bind fun executor => ?_
      by_cases space : ((executor.bufferPool.getPage frameId).any fun page =>
          decide (rowBytes.length + 5 ≤ page.freeSpace)) = true
      · rw [if_pos space]
        exact ((indifferent.insertInto inserts pageId frameId _).bind fun _ => keeps_pure _)
          executor
      · rw [if_neg space]
        exact ((indifferent.unpin _ _).bind fun _ => ih) executor

theorem Indifferent.insertFresh (indifferent : Indifferent holds) {rowBytes : Bytes}
    (inserts : ∀ pageId, Keeps holds (onWal (WalManager.logInsert txnId pageId rowBytes)))
    (lists : ∀ {executor} tablePages, holds executor →
      holds { executor with tablePages := tablePages })
    (table : String) : Keeps holds (insertFresh txnId table rowBytes) := by
  refine (indifferent.allocate.mapError _).bind fun fresh => ?_
  refine (indifferent.insertInto inserts fresh.1 fresh.2 _).bind fun _ => ?_
  refine Keeps.bind (keeps_modify fun executor here => lists _ here) fun _ => ?_
  exact (indifferent.pageFile table).bind fun _ => keeps_pure _

theorem Indifferent.placeRow (indifferent : Indifferent holds) {rowBytes : Bytes} {table : String}
    (inserts : ∀ pageId, Keeps holds (onWal (WalManager.logInsert txnId pageId rowBytes)))
    (fresh : Keeps holds (Executor.insertFresh txnId table rowBytes)) (pageIds : List UInt32) :
    Keeps holds (placeRow txnId table rowBytes pageIds) := by
  refine (indifferent.insertExisting inserts pageIds).bind fun found => ?_
  cases found with
  | some rid => exact keeps_pure _
  | none => exact fresh

theorem Calm.selectRids (calm : Calm holds) (schema : Schema)
    (columns : SelectColumns) (expr : Expr) (pageIds : List UInt32) (rids : List Rid)
    (results : List Row) : Keeps holds (selectRids schema columns expr pageIds rids results) := by
  induction rids generalizing results with
  | nil => exact keeps_pure _
  | cons rid rids ih =>
      rw [Executor.selectRids]
      split
      · refine (calm.fetchPage _).bind fun frameId => (keeps_getTuple _ _).bind fun tuple => ?_
        refine (calm.unpin _ _).bind fun _ => ?_
        cases tuple with
        | none => exact ih results
        | some tuple => exact (keeps_ofExcept _).bind fun row => ih _
      · exact ih results

theorem Calm.seqScan (calm : Calm holds) (schema : Schema)
    (columns : SelectColumns) (filter : Option Expr) (pageIds : List UInt32) :
    Keeps holds (seqScan schema columns filter pageIds) := by
  refine (calm.scanPages (fun _ _ _ _ _ _ => ?_) pageIds []).bind fun _ => keeps_pure _
  exact (keeps_ofExcept _).bind fun _ => keeps_pure _

theorem Calm.execSelect [Build] (calm : Calm holds) (table : String)
    (columns : SelectColumns) (filter : Option Expr) (orderBy : Option (String × OrderDir))
    (limit : Option UInt64) : Keeps holds (execSelect table columns filter orderBy limit) := by
  refine (keeps_schemaOf table).bind fun schema => (keeps_pagesOf table).bind fun pageIds => ?_
  have tried (expr : Expr) : Keeps holds (tryIndexSelect table schema expr columns pageIds) := by
    refine keeps_get_bind fun executor => ?_
    refine Keeps.bind (keeps_ofExcept _) (fun rids => ?_) executor
    cases rids with
    | none => exact keeps_pure _
    | some rids => exact (calm.selectRids _ _ _ _ _ _).bind fun _ => keeps_pure _
  have found : Keeps holds (findRows table schema columns filter pageIds) := by
    cases filter with
    | none => exact calm.seqScan _ _ _ _
    | some expr =>
        refine (tried expr).bind fun found => ?_
        cases found with
        | some results => exact keeps_pure _
        | none => exact calm.seqScan _ _ _ _
  exact found.bind fun _ => (keeps_ofExcept _).bind fun _ => keeps_ofExcept _

theorem Calm.execCreateTable (calm : Calm holds) {table : String}
    (enters : ∀ {executor} catalog, holds executor →
      holds { executor with
        catalog := catalog, tablePages := executor.tablePages.insert table [] })
    (order : HashOrder) (columns : List ColumnDef) :
    Keeps holds (execCreateTable order table columns) := by
  refine (calm.indexes _).bind fun _ => keeps_get_bind fun executor => ?_
  refine Keeps.bind (keeps_ofExcept _) (fun catalog => ?_) executor
  refine Keeps.bind (keeps_modify fun executor here => enters _ here) fun _ => ?_
  exact (calm.catalogFile order).bind fun _ =>
    (calm.pageFile table).bind fun _ => keeps_pure _

/-- The calls of the log manager keep it that append a record and do nothing else. -/
structure Marks (holds : Executor → Prop) : Prop where
  begins : Keeps holds (onWal WalManager.beginTxn)
  updates : ∀ txnId pageId slotId oldData newData,
    Keeps holds (onWal (WalManager.logUpdate txnId pageId slotId oldData newData))
  commits : ∀ txnId, Keeps holds (onWal (WalManager.commit txnId))
  aborts : ∀ txnId, Keeps holds (onWal (WalManager.abort txnId))

/-- The calls of the log manager keep it, but for those that log deletes, and it does not look at
the tables. -/
structure Transacts (holds : Executor → Prop) : Prop where
  begins : Keeps holds (onWal WalManager.beginTxn)
  inserts : ∀ txnId pageId rowBytes,
    Keeps holds (onWal (WalManager.logInsert txnId pageId rowBytes))
  updates : ∀ txnId pageId slotId oldData newData,
    Keeps holds (onWal (WalManager.logUpdate txnId pageId slotId oldData newData))
  commits : ∀ txnId, Keeps holds (onWal (WalManager.commit txnId))
  aborts : ∀ txnId, Keeps holds (onWal (WalManager.abort txnId))
  tables : ∀ {executor} catalog tablePages, holds executor →
    holds { executor with catalog := catalog, tablePages := tablePages }

omit [Crc32] in
theorem Transacts.marks (transacts : Transacts holds) : Marks holds :=
  ⟨transacts.begins, transacts.updates, transacts.commits, transacts.aborts⟩

/-- The end of a statement that changes rows: commit and flush. -/
theorem Calm.finish (calm : Calm holds) (marks : Marks holds)
    (txnId : UInt32) (pageIds : List UInt32) :
    Keeps holds (do
      onWal (WalManager.commit txnId)
      Executor.flushPages pageIds
      return ([] : List Row)) :=
  (marks.commits txnId).bind fun _ =>
    (calm.flushPages pageIds).bind fun _ => keeps_pure _

theorem Calm.transact (calm : Calm holds) (marks : Marks holds)
    {body : UInt32 → UInt32 → FrameId → UInt16 → Bool → Bytes → Unit → Action (Bool × Unit)}
    {pageIds : List UInt32}
    (scans : ∀ txnId, Keeps holds (Executor.scanPages (body txnId) pageIds ())) :
    Keeps holds (transact body pageIds) :=
  marks.begins.bind fun txnId => (scans txnId).bind fun scanned =>
    calm.finish marks txnId scanned.1

theorem Indifferent.execInsert (indifferent : Indifferent holds) (transacts : Transacts holds)
    (table : String) (values : List Value) : Keeps holds (execInsert table values) := by
  refine (keeps_schemaOf table).bind fun schema => keeps_get_bind fun executor => ?_
  refine Keeps.bind (keeps_ofExcept _) (fun _ => ?_) executor
  refine (keeps_ofExcept _).bind fun rowBytes => transacts.begins.bind fun txnId => ?_
  refine (keeps_pagesOf table).bind fun pageIds => ?_
  have inserts (pageId : UInt32) := transacts.inserts txnId pageId rowBytes
  have fresh : Keeps holds (Executor.insertFresh txnId table rowBytes) :=
    indifferent.insertFresh inserts
      (fun {executor} tablePages here => transacts.tables executor.catalog tablePages here) table
  refine (indifferent.placeRow inserts fresh pageIds).bind fun rid => ?_
  exact (indifferent.indexes _).bind fun _ =>
    indifferent.steady.calm.finish transacts.marks txnId [rid.pageId]

theorem Steady.execUpdate (steady : Steady holds) (marks : Marks holds)
    (table : String) (assignments : List Assignment) (filter : Option Expr) :
    Keeps holds (execUpdate table assignments filter) := by
  refine (keeps_schemaOf table).bind fun schema => (keeps_pagesOf table).bind fun pageIds => ?_
  refine steady.calm.transact marks fun txnId => ?_
  exact steady.calm.scanPages (steady.updateBody (marks.updates txnId) (marks.aborts txnId) table
    schema assignments filter) pageIds ()

theorem Steady.execDelete (steady : Steady holds) (marks : Marks holds)
    (deletes : ∀ txnId pageId slotId,
      Keeps holds (onWal (WalManager.logDelete txnId pageId slotId)))
    (table : String) (filter : Option Expr) : Keeps holds (execDelete table filter) := by
  refine (keeps_schemaOf table).bind fun schema => (keeps_pagesOf table).bind fun pageIds => ?_
  refine steady.calm.transact marks fun txnId => ?_
  exact steady.calm.scanPages (steady.deleteBody (deletes txnId) table schema filter) pageIds ()

theorem Indifferent.execute [Build] (indifferent : Indifferent holds) (transacts : Transacts holds)
    {stmt : Statement}
    (deletes : ∀ table filter, stmt = .delete table filter →
      Keeps holds (Executor.execDelete table filter))
    (order : HashOrder) : Keeps holds (execute order stmt) := by
  cases stmt with
  | createTable table columns =>
      exact indifferent.steady.calm.execCreateTable (fun {executor} catalog here =>
        transacts.tables catalog (executor.tablePages.insert table []) here) order columns
  | insert table values => exact indifferent.execInsert transacts table values
  | select table columns filter orderBy limit =>
      exact indifferent.steady.calm.execSelect table columns filter orderBy limit
  | delete table filter => exact deletes table filter rfl
  | update table assignments filter =>
      exact indifferent.steady.execUpdate transacts.marks table assignments filter

end Statements

section Recovery

variable [Crc32] {holds : Executor → Prop}

theorem Calm.tryFetchPage (calm : Calm holds) (pageId : UInt32) :
    Keeps holds (tryFetchPage pageId) := by
  intro executor here
  have kept := calm.fetch pageId executor here
  rw [Executor.tryFetchPage]
  generalize onPool (BufferPool.fetchPage pageId) executor = ended at kept ⊢
  rcases ended with ⟨(_ | _ | _) | frameId, executor'⟩ <;> exact kept

theorem Indifferent.pushPage (indifferent : Indifferent holds) (pageId : UInt32) :
    Keeps holds (pushPage pageId) := by
  refine keeps_get_bind fun executor => ?_
  cases executor.wal.pages.lookup pageId with
  | none => exact id
  | some walPage =>
      refine Keeps.bind (indifferent.steady.calm.tryFetchPage pageId) (fun fetched => ?_) executor
      cases fetched with
      | none => exact keeps_pure _
      | some frameId =>
          refine (indifferent.onPage frameId () ?_).bind fun _ => indifferent.unpin _ _
          intro page result made
          rw [← Except.ok.inj made]

theorem Calm.rebuildTable (calm : Calm holds) (table : String) :
    Keeps holds (rebuildTable table) := by
  have pages (schema : Schema) (pageIds : List UInt32) :
      Keeps holds (rebuildPages table schema pageIds) := by
    induction pageIds with
    | nil => exact keeps_pure _
    | cons pageId pageIds ih =>
        rw [rebuildPages]
        refine (calm.tryFetchPage pageId).bind fun fetched => ?_
        cases fetched with
        | none => exact ih
        | some frameId =>
            refine (keeps_slots frameId).bind fun slotIds => ?_
            refine (keeps_scanSlots (fun slotId _ tuple _ => ?_) slotIds false ()).bind fun _ =>
              (calm.unpin _ _).bind fun _ => ih
            rw [rebuildBody]
            rcases schema.deserializeRow tuple with (_ | _ | _) | row
            · exact keeps_pure _
            · exact keeps_pure _
            · exact keeps_throw _
            · exact (calm.indexes _).bind fun _ => keeps_pure _
  refine keeps_get_bind fun executor => ?_
  cases executor.catalog.get table with
  | none => exact id
  | some schema => exact pages schema _ executor

/-- What holds once the pages are pushed holds after recovery. -/
theorem Calm.recover_of_pushed (calm : Calm holds) (order : HashOrder)
    (report : RecoveryReport) :
    Keeps holds (do
      let executor ← Fallible.get
      Fallible.forEach (order.pages executor.bufferPool.pageTable.keys) fun pageId =>
        onPool (BufferPool.flushPage pageId)
      Fallible.modify createIndexes
      let executor ← Fallible.get
      Fallible.forEach (order.tables executor.tablePages.keys) Executor.rebuildTable
      let executor ← Fallible.get
      return {
        redone := report.redone
        undone := report.undone
        tablesLoaded := executor.catalog.tables.keys.length : RecoveryInfo }) := by
  have creates : Keeps holds (Fallible.modify createIndexes : Action Unit) :=
    fun executor here =>
      calm.indexes (fun _ => executor.createIndexes.indexManager) executor here
  refine keeps_get_bind fun executor => ?_
  refine Keeps.bind (keeps_forEach calm.flush) (fun _ => creates.bind fun _ => ?_) executor
  refine keeps_get_bind fun executor => ?_
  exact Keeps.bind (keeps_forEach calm.rebuildTable)
    (fun _ => keeps_get_bind fun _ here => here) executor

/-- What holds once the log has been replayed holds after recovery. -/
theorem Indifferent.recover_of_replayed (indifferent : Indifferent holds) {executor : Executor}
    (replayed : holds (onWal WalManager.recover executor.loadTables).2) (order : HashOrder) :
    holds (Executor.recover order executor).2 := by
  rw [Executor.recover, modify_bind, bind_apply]
  generalize onWal WalManager.recover executor.loadTables = ended at replayed ⊢
  rcases ended with ⟨failure | report, executor'⟩
  · exact replayed
  · revert replayed
    refine keeps_get_bind (fun executor => ?_) executor'
    exact Keeps.bind (keeps_forEach indifferent.pushPage)
      (fun _ => indifferent.steady.calm.recover_of_pushed order report) executor

/-- Recovery keeps it, too, if loading the lists and replaying the log do. -/
theorem Indifferent.recover (indifferent : Indifferent holds)
    (loads : ∀ {executor}, holds executor → holds executor.loadTables)
    (replays : Keeps holds (onWal WalManager.recover)) (order : HashOrder) :
    Keeps holds (recover order) :=
  fun _ here => indifferent.recover_of_replayed (replays _ (loads here)) order

end Recovery

end Executor

end VenomDb
