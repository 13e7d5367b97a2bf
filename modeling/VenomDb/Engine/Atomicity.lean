import VenomDb.Buffer.Agreement
import VenomDb.Engine.Alignment
import VenomDb.Engine.Durability
import VenomDb.Engine.Interrupted
import VenomDb.Engine.SystemCalls

/-!
# All or nothing

An `INSERT` or an `UPDATE` that a crash cuts off has happened as a whole or not at all: the next
start gives every table the rows before the statement or the rows after it. Until the commit record
is written the page lists and the catalog are those before, but for a list that names a page which
is not in the data file yet.
-/

namespace VenomDb

namespace WalManager

theorem Appends.longer {kind : LogRecord → Prop} {wal wal' : WalManager}
    (appends : Appends kind wal wal') : wal.log <+: wal'.log := by
  rcases appends.log with same | ⟨record, -, same⟩
  · rw [same]
  · rw [same]
    exact List.prefix_append _ _

theorem longer_beginTxn (wal : WalManager) : wal.log <+: (beginTxn wal).2.log := by
  rw [beginTxn]
  split_ifs
  · exact List.prefix_append _ _
  · exact List.prefix_refl _

end WalManager

namespace BufferPool

open Fallible

variable [Crc32] {file : List PageData}

/-- The pages of a file can still be read from another. -/
def Persist (file file' : List PageData) : Prop :=
  ∀ pageId, (DiskManager.stored file pageId).isSome → (DiskManager.stored file' pageId).isSome

theorem persist_writePage (page : Page) :
    Keeps (fun disk : DiskManager => Persist file disk.file) (DiskManager.writePage page) := by
  refine Keeps.bind ?_ fun _ => keeps_modify ?_
  · intro disk persist
    rwa [unwritten_systemCall disk rfl]
  · intro disk persist pageId present
    by_cases same : page.id = pageId
    · rw [← same, DiskManager.stored_store_self]
      rfl
    · rcases Option.isSome_iff_exists.mp (persist pageId present) with ⟨data, found⟩
      rw [DiskManager.stored_store_of_ne same found]
      rfl

theorem persist_fetchPage {poolSize : ℕ} {pool : BufferPool poolSize}
    (persist : Persist file pool.disk.file) (pageId : UInt32) :
    Persist file (fetchPage pageId pool).2.disk.file := by
  apply onDisk_fetchPage persist_writePage (fun other disk before => ?_) pageId pool persist
  rwa [unwritten_readPage other disk rfl]

theorem persist_flushPage {poolSize : ℕ} {pool : BufferPool poolSize}
    (persist : Persist file pool.disk.file) (pageId : UInt32) :
    Persist file (flushPage pageId pool).2.disk.file :=
  onDisk_flushPage persist_writePage pageId pool persist

end BufferPool

namespace Executor

open Fallible BufferPool

variable [Crc32] {base executor executor' : Executor} {moment : Moment}

section Moments

/-- There are page lists of known tables only. -/
def OnlyKnown (base executor : Executor) : Prop :=
  ∀ table, (executor.pageFiles.lookup table).isSome → (base.catalog.get table).isSome

/-- The catalog and the page lists are those of an earlier state, and its pages are still there. -/
structure Backed (base : Executor) (files : Files) : Prop where
  filed : Logical.Filed base.catalog base.tablePages files.catalog files.pages
  short : files.db.length ≤ base.bufferPool.disk.numPages.toNat
  persist : Persist base.bufferPool.disk.file files.db

/-- A statement has written no page list, and no page that was not there before. -/
structure Untouched (base executor : Executor) : Prop where
  log : base.wal.log <+: executor.wal.log
  catalog : executor.catalog = base.catalog
  tablePages : executor.tablePages = base.tablePages
  short : executor.bufferPool.disk.file.length ≤ base.bufferPool.disk.numPages.toNat
  persist : Persist base.bufferPool.disk.file executor.bufferPool.disk.file
  filed : OnlyKnown base executor →
    Logical.Filed base.catalog base.tablePages executor.catalogFile executor.pageFiles
  recorded : OnlyKnown base executor →
    Recorded base (fun moment => Backed base moment.toFiles) executor

theorem Untouched.start
    (filed : Logical.Filed base.catalog base.tablePages base.catalogFile base.pageFiles)
    (short : base.bufferPool.disk.file.length ≤ base.bufferPool.disk.numPages.toNat) :
    Untouched base base :=
  ⟨List.prefix_refl _, rfl, rfl, short, fun _ => id, fun _ => filed, fun _ => .nothing⟩

theorem Untouched.wal {wal : WalManager} (untouched : Untouched base executor)
    (longer : executor.wal.log <+: wal.log) :
    Untouched base (record { executor with wal := wal }) where
  log := untouched.log.trans longer
  catalog := untouched.catalog
  tablePages := untouched.tablePages
  short := untouched.short
  persist := untouched.persist
  filed := untouched.filed
  recorded := fun known => (untouched.recorded known).record rfl
    ⟨untouched.filed known, untouched.short, untouched.persist⟩

theorem Untouched.pool {pool : BufferPool frameCount} (untouched : Untouched base executor)
    (short : pool.disk.file.length ≤ base.bufferPool.disk.numPages.toNat)
    (persist : Persist base.bufferPool.disk.file pool.disk.file) :
    Untouched base (record { executor with bufferPool := pool }) where
  log := untouched.log
  catalog := untouched.catalog
  tablePages := untouched.tablePages
  short := short
  persist := persist
  filed := untouched.filed
  recorded := fun known =>
    (untouched.recorded known).record rfl ⟨untouched.filed known, short, persist⟩

/-- The same, while no page has been allocated. -/
structure Steadfast (base executor : Executor) : Prop where
  untouched : Untouched base executor
  accounted : executor.bufferPool.Accounted
  numPages : executor.bufferPool.disk.numPages = base.bufferPool.disk.numPages

theorem Steadfast.pool {pool : BufferPool frameCount} (steadfast : Steadfast base executor)
    (accounted : pool.Accounted)
    (numPages : pool.disk.numPages = executor.bufferPool.disk.numPages)
    (persist : Persist base.bufferPool.disk.file pool.disk.file) :
    Steadfast base (record { executor with bufferPool := pool }) := by
  have same := numPages.trans steadfast.numPages
  refine ⟨steadfast.untouched.pool ?_ persist, accounted, same⟩
  rw [← same]
  exact accounted.fileLength

theorem Steadfast.edit {frameId : FrameId} {page page' : Page}
    (steadfast : Steadfast base executor) (found : executor.bufferPool.getPage frameId = some page)
    (sameId : page'.id = page.id) : Steadfast base
      (record { executor with bufferPool := executor.bufferPool.setPage frameId page' }) := by
  have keepsId : (Call.getPageMut frameId page').KeepsId executor.bufferPool := by
    intro old held
    rw [found] at held
    rw [sameId, Option.some.inj held]
  have accounted := steadfast.accounted.apply keepsId
  rw [Call.apply, found] at accounted
  exact steadfast.pool accounted rfl steadfast.untouched.persist

section Again

variable {catalog : Catalog} {tablePages pageFiles : AList fun _ : String => List UInt32}
  {catalogFile : Option CatalogFile} {table : String}

omit [Crc32] in
/-- A page list that is written again is the one that is there. -/
theorem filed_saveTableMeta (filed : Logical.Filed catalog tablePages catalogFile pageFiles)
    (known : (catalog.get table).isSome) :
    Logical.Filed catalog tablePages catalogFile
      (pageFiles.insert table ((tablePages.lookup table).getD [])) := by
  rw [filed.tables] at known
  rcases Option.isSome_iff_exists.mp known with ⟨pageIds, listed⟩
  refine ⟨filed.tables, filed.schemas, filed.loaded, filed.indexDefs, ?_, filed.nodup, filed.apart⟩
  intro other
  by_cases same : other = table
  · rw [same, AList.lookup_insert, listed, Option.getD_some]
  · rw [AList.lookup_insert_ne same, filed.pageFiles]

omit [Crc32] in
theorem filed_saveCatalog (filed : Logical.Filed catalog tablePages catalogFile pageFiles)
    (order : HashOrder) :
    Logical.Filed catalog tablePages (some (CatalogFile.save order catalog)) pageFiles :=
  ⟨filed.tables, filed.schemas, CatalogFile.get_load_save order filed.schemas, rfl, filed.pageFiles,
    filed.nodup, filed.apart⟩

theorem Untouched.saveTableMeta (table : String) :
    Keeps (Untouched base) (Executor.saveTableMeta table) := by
  intro executor untouched
  let saved : Executor := { executor with
    pageFiles := executor.pageFiles.insert table ((executor.tablePages.lookup table).getD []) }
  have before (known : OnlyKnown base saved) :
      OnlyKnown base executor ∧ (base.catalog.get table).isSome := by
    refine ⟨fun other listed => ?_, known table (by simp [saved])⟩
    apply known
    by_cases same : other = table
    · rw [same]
      simp [saved]
    · simpa [saved, AList.lookup_insert_ne same] using listed
  have filed (known : OnlyKnown base saved) :
      Logical.Filed base.catalog base.tablePages saved.catalogFile saved.pageFiles := by
    have again := filed_saveTableMeta (untouched.filed (before known).1) (before known).2
    rwa [← untouched.tablePages] at again ⊢
  refine ⟨untouched.log, untouched.catalog, untouched.tablePages, untouched.short,
    untouched.persist, filed, fun known => ?_⟩
  exact (untouched.recorded (before known).1).record rfl
    ⟨filed known, untouched.short, untouched.persist⟩

theorem Untouched.saveCatalog (order : HashOrder) :
    Keeps (Untouched base) (Executor.saveCatalog order) := by
  intro executor untouched
  have filed (known : OnlyKnown base executor) : Logical.Filed base.catalog base.tablePages
      (some (CatalogFile.save order executor.catalog)) executor.pageFiles := by
    rw [untouched.catalog]
    exact filed_saveCatalog (untouched.filed known) order
  refine ⟨untouched.log, untouched.catalog, untouched.tablePages, untouched.short,
    untouched.persist, filed, fun known => ?_⟩
  exact (untouched.recorded known).record rfl ⟨filed known, untouched.short, untouched.persist⟩

end Again

section Steadfast

theorem steady_steadfast : Steady (Steadfast base) where
  fetch := fun pageId _ steadfast => steadfast.pool (steadfast.accounted.fetchPage pageId)
    (numPages_fetchPage pageId _) (persist_fetchPage steadfast.untouched.persist pageId)
  flush := fun pageId _ steadfast => steadfast.pool
    ((sameHolding_flushPage pageId _).accounted steadfast.accounted) (numPages_flushPage pageId _)
    (persist_flushPage steadfast.untouched.persist pageId)
  unpin := fun frameId dirty executor steadfast =>
    steadfast.pool (steadfast.accounted.unpin frameId dirty) (by rw [disk_unpin])
      (by rw [disk_unpin]; exact steadfast.untouched.persist)
  amend := by
    intro executor frameId page page' found amended steadfast
    exact steadfast.edit found amended.id
  indexes := fun _ _ steadfast => ⟨⟨steadfast.untouched.log, steadfast.untouched.catalog,
    steadfast.untouched.tablePages, steadfast.untouched.short, steadfast.untouched.persist,
    steadfast.untouched.filed, steadfast.untouched.recorded⟩, steadfast.accounted,
    steadfast.numPages⟩
  pageFile := fun table executor steadfast =>
    ⟨Untouched.saveTableMeta table executor steadfast.untouched, steadfast.accounted,
      steadfast.numPages⟩
  catalogFile := fun order executor steadfast =>
    ⟨Untouched.saveCatalog order executor steadfast.untouched, steadfast.accounted,
      steadfast.numPages⟩

theorem steadfast_onWal {α : Type} {call : Fallible Failure WalManager α}
    (longer : ∀ wal, wal.log <+: (call wal).2.log) : Keeps (Steadfast base) (onWal call) :=
  fun executor steadfast => ⟨steadfast.untouched.wal (longer executor.wal), steadfast.accounted,
    steadfast.numPages⟩

theorem marks_steadfast : Marks (Steadfast base) where
  begins := steadfast_onWal WalManager.longer_beginTxn
  updates := fun txnId pageId slotId oldData newData => steadfast_onWal fun wal =>
    (WalManager.appends_logUpdate wal txnId pageId slotId oldData newData).longer
  commits := fun txnId => steadfast_onWal fun wal => (WalManager.appends_commit wal txnId).longer
  aborts := fun txnId => steadfast_onWal fun wal => (WalManager.appends_abort wal txnId).longer

end Steadfast

end Moments

section Placing

variable {holds : Executor → Prop} {txnId pageId : UInt32} {frameId : FrameId} {rowBytes : Bytes}

omit [Crc32] in
/-- The page in a frame takes the row, and the frame is let go. -/
theorem keeps_insertInto
    (logs : Keeps holds (onWal (WalManager.logInsert txnId pageId rowBytes)))
    (edit : ∀ {executor page page'}, executor.bufferPool.getPage frameId = some page →
      page'.id = page.id → holds executor →
      holds (record { executor with bufferPool := executor.bufferPool.setPage frameId page' }))
    (unpin : Keeps holds (modifyPool (BufferPool.unpin frameId true))) (wrap : IoError → SqlError) :
    Keeps holds (insertInto txnId pageId frameId wrap rowBytes) := by
  have inserts : Keeps holds (onPage frameId none fun page => page.insertTuple rowBytes) := by
    apply keeps_get_bind
    intro executor here
    cases found : executor.bufferPool.getPage frameId with
    | none => exact here
    | some page =>
        dsimp only
        rcases made : page.insertTuple rowBytes with failure | result
        · exact here
        · exact edit found (Page.insertTuple_id made) here
  exact (logs.mapError _).bind fun _ => inserts.bind fun _ => unpin.bind fun _ => keeps_pure _

theorem steadfast_insertInto (pageId : UInt32) (frameId : FrameId) (wrap : IoError → SqlError) :
    Keeps (Steadfast base) (insertInto txnId pageId frameId wrap rowBytes) := by
  apply keeps_insertInto
  · exact steadfast_onWal fun wal => (WalManager.appends_logInsert wal txnId pageId rowBytes).longer
  · exact fun found sameId steadfast => steadfast.edit found sameId
  · exact steady_steadfast.unpin frameId true

theorem steadfast_insertExisting (pageIds : List UInt32) :
    Keeps (Steadfast base) (insertExisting txnId rowBytes pageIds) := by
  induction pageIds with
  | nil => exact keeps_pure _
  | cons pageId pageIds ih =>
      rw [insertExisting]
      refine (steady_steadfast.calm.fetchPage pageId).bind fun frameId => ?_
      apply keeps_get_bind
      intro executor
      by_cases space : ((executor.bufferPool.getPage frameId).any fun page =>
          decide (rowBytes.length + 5 ≤ page.freeSpace)) = true
      · rw [if_pos space]
        exact ((steadfast_insertInto pageId frameId _).bind fun _ => keeps_pure _) executor
      · rw [if_neg space]
        exact ((steady_steadfast.unpin _ _).bind fun _ => ih) executor

/-- The files at a moment are those before, or a page list names a page that is not there. -/
def Safe (base : Executor) (moment : Moment) : Prop :=
  moment.toFiles.Complete → Backed base moment.toFiles

/-- The row is placed, maybe on a page that is listed and not yet written. -/
structure Placed (base executor : Executor) : Prop where
  log : base.wal.log <+: executor.wal.log
  catalog : executor.catalog = base.catalog
  unlisted : executor.tablePages = base.tablePages → Steadfast base executor
  recorded : OnlyKnown base executor → Recorded base (Safe base) executor

theorem Steadfast.placed (steadfast : Steadfast base executor) : Placed base executor where
  log := steadfast.untouched.log
  catalog := steadfast.untouched.catalog
  unlisted := fun _ => steadfast
  recorded := fun known => (steadfast.untouched.recorded known).mono fun _ backed _ => backed

/-- A new page is one that is not in the data file. -/
theorem untouched_newPage :
    Ends (Steadfast base) (mapError (Failure.wrapIo .newPage) (onPool newPage))
      (fun out executor => Untouched base executor ∧
        base.bufferPool.disk.numPages.toNat ≤ out.1.toNat) fun _ _ => True := by
  intro executor steadfast
  rw [mapError, onPool]
  rcases newPage_ends executor.bufferPool with
    ⟨failure, freed, -, run⟩ | ⟨frameId, freed, search, run | ⟨-, run⟩⟩
  · rw [run]
    trivial
  · rw [run]
    trivial
  · rcases steadfast.accounted.findFreeFrame with
      ⟨_, _, search', accounted, -, numPages, -⟩ | ⟨_, _, search', -⟩
    · cases search.symm.trans search'
      have same := numPages.trans steadfast.numPages
      rw [run]
      dsimp only
      refine ⟨steadfast.untouched.pool ?_ ?_, by rw [same]⟩
      · rw [← same]
        exact accounted.fileLength
      · have kept : OnDisk (fun disk => Persist base.bufferPool.disk.file disk.file)
            (findFreeFrame executor.bufferPool).2 :=
          onDisk_findFreeFrame persist_writePage _ steadfast.untouched.persist
        rwa [search] at kept
    · cases search.symm.trans search'

theorem untouched_insertInto (wrap : IoError → SqlError) :
    Keeps (Untouched base) (insertInto txnId pageId frameId wrap rowBytes) := by
  apply keeps_insertInto
  · intro executor untouched
    exact untouched.wal (WalManager.appends_logInsert _ txnId pageId rowBytes).longer
  · exact fun _ _ untouched => untouched.pool untouched.short untouched.persist
  · intro executor untouched
    apply untouched.pool
    · rw [disk_unpin]
      exact untouched.short
    · rw [disk_unpin]
      exact untouched.persist

/-- The page list of a table names one more page. -/
def Listing (base : Executor) (table : String) (pageId : UInt32) (executor : Executor) : Prop :=
  ∃ unlisted, Untouched base unlisted ∧ executor = { unlisted with
    tablePages := unlisted.tablePages.insert table
      ((unlisted.tablePages.lookup table).getD [] ++ [pageId]) }

theorem Listing.save {table : String} (listing : Listing base table pageId executor)
    (new : base.bufferPool.disk.numPages.toNat ≤ pageId.toNat) :
    Placed base (record { executor with
      pageFiles := executor.pageFiles.insert table ((executor.tablePages.lookup table).getD [])
        }) := by
  rcases listing with ⟨unlisted, untouched, rfl⟩
  have longer : unlisted.tablePages.insert table
      ((unlisted.tablePages.lookup table).getD [] ++ [pageId]) ≠ base.tablePages := by
    intro same
    have here := congrArg (fun lists => (lists.lookup table).getD []) same
    simp [untouched.tablePages] at here
  refine ⟨untouched.log, untouched.catalog, fun same => absurd same longer, fun known => ?_⟩
  have before : OnlyKnown base unlisted := by
    intro other listed
    apply known
    by_cases same : other = table
    · rw [same]
      simp [record]
    · simpa [record, AList.lookup_insert_ne same] using listed
  have recorded := (untouched.recorded before).mono
    fun moment backed (_ : moment.toFiles.Complete) =>
    backed
  refine Recorded.record recorded rfl fun complete => ?_
  have stored := complete table _ pageId (AList.lookup_insert _) (by simp)
  rcases Option.isSome_iff_exists.mp stored with ⟨data, found⟩
  have inside := DiskManager.stored_lt found
  have short := untouched.short
  change pageId.toNat < unlisted.bufferPool.disk.file.length at inside
  omega

/-- The page list is written with a page that is not in the data file. -/
theorem placed_insertFresh (table : String) :
    Ends (Steadfast base) (insertFresh txnId table rowBytes) (fun _ => Placed base)
      fun _ _ => True := by
  refine untouched_newPage.bind fun fresh => ?_
  rintro executor ⟨untouched, new⟩
  have inserts : Ends (Untouched base) (insertInto txnId fresh.1 fresh.2 .walInsertNewPage rowBytes)
      (fun _ => Untouched base) fun _ _ => True :=
    (untouched_insertInto .walInsertNewPage).ends.failing fun _ _ _ => trivial
  refine (inserts.bind fun slotId => ?_) executor untouched
  apply ends_modify_bind (Listing base table fresh.1)
  · exact fun unlisted untouched => ⟨unlisted, untouched, rfl⟩
  · apply ends_modify_bind (Placed base)
    · exact fun listed listing => listing.save new
    · exact ends_pure fun _ placed => placed

theorem placed_placeRow (table : String) (pageIds : List UInt32) :
    Ends (Steadfast base) (placeRow txnId table rowBytes pageIds) (fun _ => Placed base)
      fun _ _ => True := by
  have searched : Ends (Steadfast base) (insertExisting txnId rowBytes pageIds)
      (fun _ => Steadfast base) fun _ _ => True :=
    (steadfast_insertExisting pageIds).ends.failing fun _ _ _ => trivial
  refine searched.bind fun found => ?_
  cases found with
  | some rid => exact ends_pure fun _ steadfast => steadfast.placed
  | none => exact placed_insertFresh table

end Placing

section Finishing

/-- The commit record is written. -/
structure Sealed (base executor : Executor) : Prop where
  log : ∃ tail lsn txnId, executor.wal.log = base.wal.log ++ tail ∧
    LogRecord.commit lsn txnId ∈ tail
  catalog : executor.catalog = base.catalog
  unlisted : executor.tablePages = base.tablePages → Steadfast base executor
  recorded : OnlyKnown base executor →
    Recorded base (fun moment => CommittedAt base moment ∨ Safe base moment) executor

theorem Sealed.flush (pageId : UInt32) :
    Keeps (Sealed base) (onPool (BufferPool.flushPage pageId)) := by
  intro executor isSealed
  refine ⟨isSealed.log, isSealed.catalog, fun same => ?_, fun known => ?_⟩
  · exact steady_steadfast.flush pageId executor (isSealed.unlisted same)
  · exact (isSealed.recorded known).record rfl (.inl isSealed.log)

theorem Placed.commit (placed : Placed base executor) (txnId : UInt32) :
    Sealed base (onWal (WalManager.commit txnId) executor).2 := by
  rcases placed.log with ⟨tail, log⟩
  have committed : ∃ tail lsn writer,
      (WalManager.commit txnId executor.wal).2.log = base.wal.log ++ tail ∧
        LogRecord.commit lsn writer ∈ tail := by
    refine ⟨tail ++ [.commit executor.wal.currentLsn txnId], executor.wal.currentLsn, txnId, ?_, ?_⟩
    · rw [← List.append_assoc, log]
      rfl
    · simp
  refine ⟨committed, placed.catalog, fun same => ?_, fun known => ?_⟩
  · exact marks_steadfast.commits txnId executor (placed.unlisted same)
  have before := (placed.recorded known).mono fun moment safe =>
    (.inr safe : CommittedAt base moment ∨ Safe base moment)
  exact before.record rfl (.inl committed)

/-- What is known of the moments of a statement that has succeeded. -/
structure Accountable (base executor : Executor) : Prop where
  catalog : executor.catalog = base.catalog
  unlisted : executor.tablePages = base.tablePages → Steadfast base executor
  recorded : OnlyKnown base executor →
    Recorded base (fun moment => CommittedAt base moment ∨ Safe base moment) executor

theorem accountable_execInsert (table : String) (values : List Value) :
    Ends (Steadfast base) (execInsert table values) (fun _ => Accountable base)
      fun _ _ => True := by
  refine ((keeps_schemaOf table).ends.failing fun _ _ _ => trivial).bind fun schema => ?_
  refine ends_get_then fun executor => ?_
  refine ((keeps_ofExcept _).ends.failing fun _ _ _ => trivial).bind fun _ => ?_
  refine ((keeps_ofExcept _).ends.failing fun _ _ _ => trivial).bind fun rowBytes => ?_
  refine (marks_steadfast.begins.ends.failing fun _ _ _ => trivial).bind fun txnId => ?_
  refine ((keeps_pagesOf table).ends.failing fun _ _ _ => trivial).bind fun pageIds => ?_
  refine (placed_placeRow table pageIds).bind fun rid => ?_
  apply ends_modify_bind (Placed base)
  · exact fun executor placed => ⟨placed.log, placed.catalog,
      fun same => steady_steadfast.indexes _ executor (placed.unlisted same), placed.recorded⟩
  have commits : Ends (Placed base) (onWal (WalManager.commit txnId)) (fun _ => Sealed base)
      fun _ _ => True := fun executor placed => placed.commit txnId
  have flushes : Keeps (Sealed base) (flushPages [rid.pageId]) :=
    keeps_forEach fun pageId => (Sealed.flush pageId).mapError _
  refine commits.bind fun _ => (flushes.ends.failing fun _ _ _ => trivial).bind fun _ => ?_
  exact ends_pure fun _ isSealed => ⟨isSealed.catalog, isSealed.unlisted, isSealed.recorded⟩

theorem accountable_execute [Build] {stmt : Statement} (kind : IsInsertOrUpdate stmt)
    (order : HashOrder) :
    Ends (Steadfast base) (execute order stmt) (fun _ => Accountable base) fun _ _ => True := by
  cases stmt with
  | createTable | select | delete => exact kind.elim
  | insert table values => exact accountable_execInsert table values
  | update table assignments filter =>
      have kept : Keeps (Steadfast base) (execUpdate table assignments filter) :=
        steady_steadfast.execUpdate marks_steadfast table assignments filter
      refine kept.ends.imp (fun _ steadfast => steadfast) ?_ fun _ _ _ => trivial
      exact fun _ _ steadfast => ⟨steadfast.untouched.catalog, fun _ => steadfast, fun known =>
        (steadfast.placed.recorded known).mono fun _ => .inr⟩

end Finishing

section Restarting

variable [Build] {logical logical' : Logical} {order : HashOrder} {stmts : List Statement}
  {stmt : Statement} {rows : List Row}

/-- The same tables with the same rows. -/
def Recalls (recovered executor : Executor) : Prop :=
  (∀ table, recovered.catalog.get table = executor.catalog.get table) ∧
    ∀ table, (executor.catalog.get table).isSome → ∃ rows : List Row,
      recovered.selectAll table = .ok rows ∧ executor.selectAll table = .ok rows

/-- Files that hold the tables and the heap of a state are opened with its rows. -/
theorem start_recalls {files : Files} (rests : Rests executor logical)
    (sound : Logical.Sound none logical) (ready : executor.Ready)
    (replayable : logical'.Replayable) (hold : files.Hold logical')
    (inside : ∀ {pageId}, (logical'.heap pageId).isSome → pageId.toNat < files.db.length)
    (catalog : logical'.catalog = logical.catalog)
    (tablePages : logical'.tablePages = logical.tablePages) (heap : logical'.heap = logical.heap)
    (order : HashOrder) :
    ∃ info recovered, start order files = (.ok info, recovered) ∧ recovered.Recalls executor := by
  rcases start_rests replayable hold inside order with ⟨info, recovered, run, rests', idle'⟩
  have opened : recovered.catalog = CatalogFile.load logical'.catalogFile :=
    rests'.reflects.catalog_eq
  have current := rests.reflects.catalog_eq
  refine ⟨info, recovered, run, fun table => ?_, fun table known => ?_⟩
  · rw [opened, current, ← catalog]
    exact replayable.filed.loaded table
  · have answer := rests.reflects.selectAll_of_ready sound.usable ready table
    have answer' := rests'.reflects.selectAll_of_ready (replayable.usable order inside)
      idle'.ready table
    have same : logical'.selectAll table = logical.selectAll table :=
      Logical.selectAll_congr (by rw [catalog]) (by rw [tablePages]) heap
    rw [Logical.selectAll_restart replayable inside, same] at answer'
    rw [current] at known
    rcases sound.tidy.selectAll_ok known with ⟨rows, selected⟩
    exact ⟨rows, answer'.trans selected, answer.trans selected⟩

theorem Session.diary (session : Session Succeeds stmts executor) :
    ∃ entries, Diary Files.empty entries executor := by
  induction session with
  | start run => exact ⟨[], .start run⟩
  | execute before run admitted ih =>
      rcases ih with ⟨entries, diary⟩
      exact ⟨_, diary.execute run⟩

omit [Crc32] [Build] in
theorem IsInsertOrUpdate.changesRows (kind : IsInsertOrUpdate stmt) : stmt.ChangesRows := by
  cases stmt with
  | createTable | select | delete => exact kind.elim
  | insert | update => trivial

/-- What a statement that succeeds has logged before its commit record ends nothing. -/
theorem running_of_uncommitted (kind : IsInsertOrUpdate stmt)
    (faultless : Faultless executor.bufferPool.disk)
    (run : execute order stmt executor = (.ok rows, executor')) {tail : List LogRecord}
    (begun : executor.wal.log ++ tail <+: executor'.wal.log)
    (uncommitted : ∀ lsn txnId, LogRecord.commit lsn txnId ∉ tail) :
    ∀ record ∈ tail, record.ends = false := by
  have leaves := ((leaves_execute order stmt).ok ⟨faultless, rfl⟩ run).wal
  generalize executor'.wal = wal at leaves begun
  cases leaves with
  | nothing idle => exact absurd rfl (idle kind.changesRows)
  | block added =>
      rcases added.log with ⟨records, block, log⟩
      rw [log, List.prefix_append_right_inj] at begun
      cases block with
      | committed logged =>
          intro record inside
          rcases List.mem_append.mp (begun.subset inside) with front | last
          · rcases List.mem_cons.mp front with rfl | data
            · rfl
            · cases stmt with
              | createTable | select | delete => exact kind.elim
              | insert table values =>
                  rcases logged with ⟨lsn, pageId, slotId, bytes, rfl⟩
                  rw [List.mem_singleton.mp data]
                  rfl
              | update table assignments filter =>
                  rcases logged record data with ⟨lsn, pageId, slotId, oldData, newData, rfl⟩
                  rfl
          · rw [List.mem_singleton.mp last] at inside
            exact absurd inside (uncommitted _ _)

/-- Before the commit record recovery gives the heap that there was. -/
theorem replays_uncommitted (session : Session Succeeds stmts executor)
    (rests : Rests executor logical) (sound : Logical.Sound none logical)
    (closed : WalManager.incomplete logical.log = ∅) (kind : IsInsertOrUpdate stmt)
    (run : execute order stmt executor = (.ok rows, executor')) {log : List LogRecord}
    (begun : log <+: executor'.wal.log) (uncommitted : Uncommitted executor.wal.log log) :
    WalManager.Replays log logical.heap := by
  have same : executor.wal.log = logical.log := rests.reflects.log_eq
  rcases uncommitted with ⟨tail, rfl, noCommit⟩
  by_cases nothing : tail = []
  · rw [nothing, List.append_nil, same]
    exact sound.explains.replays
  · have running := running_of_uncommitted kind rests.reflects.coherent.faultless run begun noCommit
    have crashed : executor.wal.log ++ tail <+: (execute order stmt executor).2.wal.log := by
      rw [run]
      exact begun
    rw [← (recovered_interrupted session rests sound closed kind crashed running nothing).2]
    exact session.replays crashed

/-- Files with the catalog and the page lists before a statement, and with a log that gives the
heap before it, are opened with the rows before it. -/
theorem Backed.start_recalls {files : Files} (backed : Backed executor files)
    (rests : Rests executor logical) (sound : Logical.Sound none logical)
    (ready : executor.Ready)
    (replays : WalManager.Replays files.log logical.heap) (order : HashOrder) :
    ∃ info recovered, start order files = (.ok info, recovered) ∧ recovered.Recalls executor := by
  let logical' : Logical :=
    { logical with log := files.log, catalogFile := files.catalog, pageFiles := files.pages }
  have filed : Logical.Filed logical.catalog logical.tablePages files.catalog files.pages := by
    have kept := backed.filed
    rwa [rests.reflects.catalog_eq, rests.reflects.tablePages_eq] at kept
  have replayable : logical'.Replayable := ⟨filed, sound.owned, sound.typed, replays⟩
  have stored {pageId : UInt32} (present : (logical.heap pageId).isSome) :
      (DiskManager.stored files.db pageId).isSome := backed.persist pageId (rests.stored present)
  have inside {pageId : UInt32} (present : (logical'.heap pageId).isSome) :
      pageId.toNat < files.db.length := by
    rcases Option.isSome_iff_exists.mp (stored present) with ⟨data, found⟩
    exact DiskManager.stored_lt found
  have small : files.db.length < 2 ^ 32 := backed.short.trans_lt (UInt32.toNat_lt _)
  have hold : files.Hold logical' := ⟨rfl, rfl, rfl, small, fun present _ => stored present⟩
  exact Executor.start_recalls rests sound ready replayable hold inside rfl rfl rfl order

omit [Build] in
/-- No page list names a page that is not in the data file. -/
theorem Backed.complete {files : Files} (backed : Backed executor files)
    (rests : Rests executor logical) (sound : Logical.Sound none logical) : files.Complete := by
  intro table pageIds pageId listed inside
  rw [backed.filed.pageFiles, rests.reflects.tablePages_eq] at listed
  have present := (sound.owned pageId).mpr ⟨table, pageIds, listed, inside⟩
  exact backed.persist pageId (rests.stored present)

omit [Build] in
theorem Rests.steadfast (rests : Rests executor logical) (sound : Logical.Sound none logical) :
    Steadfast executor executor := by
  have coherent := rests.reflects.coherent
  have filed : Logical.Filed executor.catalog executor.tablePages executor.catalogFile
      executor.pageFiles := by
    have kept := sound.filed
    rwa [← rests.reflects.catalog_eq, ← rests.reflects.tablePages_eq,
      ← rests.reflects.catalogFile_eq, ← rests.reflects.pageFiles_eq] at kept
  refine ⟨.start filed coherent.fileLength, ⟨?_, fun _ _ => coherent.allocated,
    coherent.fileLength⟩, rfl⟩
  intro pageId frameId
  refine ⟨coherent.table, ?_⟩
  rintro ⟨page, held, rfl⟩
  exact coherent.frame held

omit [Build] in
/-- The page lists after a statement are those of known tables. -/
theorem Rests.onlyKnown (rests : Rests executor' logical) (sound : Logical.Sound none logical)
    (catalog : executor'.catalog = executor.catalog) : OnlyKnown executor executor' := by
  intro table listed
  rw [rests.reflects.pageFiles_eq, sound.filed.pageFiles, ← sound.filed.tables] at listed
  rwa [← catalog, rests.reflects.catalog_eq]

omit [Build] in
/-- An `UPDATE` lists no page. -/
theorem tablePages_execUpdate (rests : Rests executor logical) (sound : Logical.Sound none logical)
    (table : String) (assignments : List Assignment) (filter : Option Expr) :
    (execUpdate table assignments filter executor).2.tablePages = executor.tablePages :=
  (steady_steadfast.execUpdate marks_steadfast table assignments filter executor
    (rests.steadfast sound)).untouched.tablePages

/-- An `INSERT` has listed no page, or the listed pages are in the data file. -/
def NoneMissing (stmt : Statement) (executor executor' : Executor) (files : Files) : Prop :=
  ∀ table values, stmt = .insert table values →
    executor'.tablePages = executor.tablePages ∨ files.Complete

/-- So they are at every moment of the statement. -/
theorem complete_of_noneMissing (rests : Rests executor logical)
    (sound : Logical.Sound none logical) (kind : IsInsertOrUpdate stmt)
    (run : execute order stmt executor = (.ok rows, executor'))
    (known : OnlyKnown executor executor') (accountable : Accountable executor executor')
    (during : During executor executor' moment)
    (present : NoneMissing stmt executor executor' moment.toFiles) : moment.toFiles.Complete := by
  have unlisted (same : executor'.tablePages = executor.tablePages) : moment.toFiles.Complete :=
    (((accountable.unlisted same).untouched.recorded known).during during).complete rests sound
  cases stmt with
  | createTable | select | delete => exact kind.elim
  | insert table values =>
      rcases present table values rfl with same | complete
      · exact unlisted same
      · exact complete
  | update table assignments filter =>
      have same := tablePages_execUpdate rests sound table assignments filter
      rw [show execUpdate table assignments filter executor = (.ok rows, executor') from
        run] at same
      exact unlisted same

/-- A crash at any moment leaves the rows before the statement or those after it. -/
theorem during_recalls (session : Session Succeeds stmts executor) (kind : IsInsertOrUpdate stmt)
    (run : execute order stmt executor = (.ok rows, executor'))
    (during : During executor executor' moment)
    (present : NoneMissing stmt executor executor' moment.toFiles) (order' : HashOrder) :
    ∃ info recovered, start order' moment.toFiles = (.ok info, recovered) ∧
      (recovered.Recalls executor ∨ recovered.Recalls executor') := by
  rcases session.follows_closed with ⟨logical, rests, sound, closed⟩
  rcases session.reachable.follows_done with ⟨-, -, -, idle⟩
  have faultless := rests.reflects.coherent.faultless
  rcases rests.execute_ok sound.usable run with ⟨ok, rests', advances⟩
  have sound' := sound.execute rests.bounded order stmt (.inl ⟨rows, ok⟩)
  have accountable := (accountable_execute kind order).ok (rests.steadfast sound) run
  have known := rests'.onlyKnown sound' accountable.catalog
  have complete := complete_of_noneMissing rests sound kind run known accountable during present
  have closes := closes_execute kind.changesRows order (.start faultless)
  rw [run] at closes
  cases closes with
  | done settled =>
      rcases settled.recorded.during during with uncommitted | precedes
      · rcases (accountable.recorded known).during during with committed | safe
        · exact absurd uncommitted committed.not_uncommitted
        · rcases session.diary with ⟨entries, diary⟩
          have ledger := ledger_execute order stmt executor
            ⟨⟨List.prefix_refl _, diary.ledger.continues.stamps⟩, .nothing⟩
          rw [run] at ledger
          have begun := (ledger.recorded.during during).2
          have replays := replays_uncommitted session rests sound closed kind run begun uncommitted
          rcases (safe complete).start_recalls rests sound idle.ready replays order' with
            ⟨info, recovered, started, recalls⟩
          exact ⟨info, recovered, started, .inl recalls⟩
      · rcases precedes.hold rests' sound' complete with ⟨hold, inside⟩
        have ready' := advances.ready idle.ready
        rcases start_recalls rests' sound' ready' sound'.replayable hold inside rfl rfl rfl
          order' with
          ⟨info, recovered, started, recalls⟩
        exact ⟨info, recovered, started, .inr recalls⟩

end Restarting

end Executor

section Bytes

open DataFolder Executor

/-- The calls of a history are those of its beginning and then those of the rest. -/
theorem DataFolder.Performs.split {base : Files} {history moments : List Moment}
    {calls : List DataCall} (performs : Performs base (moments ++ history) calls) :
    ∃ before during, calls = before ++ during ∧ Performs base history before ∧
      Performs (latest base history) moments during := by
  induction moments generalizing calls with
  | nil => exact ⟨calls, [], (List.append_nil _).symm, performs, .start⟩
  | cons moment moments ih =>
      cases performs with
      | @step _ _ earlier more first writes =>
          rcases ih first with ⟨before, during, rfl, front, back⟩
          refine ⟨before, during ++ more, List.append_assoc _ _ _, front, back.step ?_⟩
          have same : latest (latest base history) moments = latest base (moments ++ history) := by
            cases moments with
            | nil => rfl
            | cons moment moments => rfl
          rw [same]
          exact writes

variable [Crc32] [Build] {executor executor' : Executor} {order : HashOrder}
  {stmts : List Statement} {stmt : Statement} {rows : List Row} {calls : List DataCall}

/-- An `INSERT` or an `UPDATE` is cut off after any of its system calls: the directory is read, and
the next start has the rows before the statement or those after it. Only an `INSERT` that lists a
new page must have got as far as writing it. -/
theorem statement_allOrNothing (session : Session Succeeds stmts executor)
    (kind : IsInsertOrUpdate stmt) (run : execute order stmt executor = (.ok rows, executor'))
    (small : ∀ moment ∈ executor'.history, moment.toFiles.Small)
    (performs : Performs Files.empty executor'.history calls) :
    ∃ before during, calls = before ++ during ∧ Performs Files.empty executor.history before ∧
      ∀ part, part <+: during → ∃ files,
        DataFolder.decode (Folder.run (opening ++ before ++ part) ∅) = .ok files ∧
        (NoneMissing stmt executor executor' files → ∀ order', ∃ info recovered,
          start order' files = (.ok info, recovered) ∧
          (recovered.Recalls executor ∨ recovered.Recalls executor')) := by
  rcases session.diary with ⟨entries, diary⟩
  have ledger := ledger_execute order stmt executor
    ⟨⟨List.prefix_refl _, diary.ledger.continues.stamps⟩, .nothing⟩
  rw [run] at ledger
  rcases ledger.recorded with ⟨moments, history, -⟩
  rw [history] at performs small
  rcases performs.split with ⟨before, during, rfl, first, second⟩
  refine ⟨before, during, rfl, first, fun part cut => ?_⟩
  have smallFirst (moment : Moment) (inside : moment ∈ executor.history) : moment.toFiles.Small :=
    small moment (List.mem_append_right _ inside)
  have smallSecond (moment : Moment) (inside : moment ∈ moments) : moment.toFiles.Small :=
    small moment (List.mem_append_left _ inside)
  have ready := Holds.empty.opening (List.prefix_refl opening)
  have written := first.run ready smallFirst
  rw [← Folder.run_append] at written
  rcases second.cut written smallSecond cut with ⟨done, tail, completed, torn, left⟩
  rw [← Folder.run_append] at left
  have smallBefore := (seen_latest (List.suffix_refl _)).small Files.small_empty smallFirst
  have smallFiles := completed.seen.small smallBefore smallSecond
  refine ⟨latest _ done, left.decode smallFiles torn, fun present order' => ?_⟩
  have seen := completed.seen
  generalize latest _ done = files at seen present
  rcases seen with rfl | ⟨moment, inside, rfl⟩
  · rcases session.follows_closed with ⟨logical, rests, sound, -⟩
    rcases session.reachable.follows_done with ⟨-, -, -, idle⟩
    rw [diary.chained.latest]
    rcases start_recalls rests sound idle.ready sound.replayable rests.hold rests.inside rfl rfl rfl
      order' with ⟨info, recovered, started, recalls⟩
    exact ⟨info, recovered, started, .inl recalls⟩
  · exact during_recalls session kind run ⟨moments, history, inside⟩ present order'

end Bytes

namespace Sample

attribute [local instance] Crc32.ieee Build.debug

open DataFolder Executor

theorem small_insertedDb (moment : Moment) (inside : moment ∈ insertedDb.history) :
    moment.toFiles.Small := by
  have logs : (insertedDb.history.all fun moment =>
      moment.log.all fun record => decide record.Fits) = true := by decide
  have lists : (insertedDb.history.all fun moment =>
      moment.pages.entries.all fun entry => decide (entry.2.length < 2 ^ 32)) = true := by decide
  have catalogs : insertedDb.history.map (fun moment => moment.catalog) =
      List.replicate 10 (some createdCatalog) ++ [none] := rfl
  rw [List.all_eq_true] at logs lists
  refine ⟨?_, ?_, ?_⟩
  · intro record logged
    exact of_decide_eq_true (List.all_eq_true.mp (logs moment inside) record logged)
  · intro table pageIds listed
    have entry := AList.mem_lookup_iff.mp listed
    exact of_decide_eq_true (List.all_eq_true.mp (lists moment inside) _ entry)
  · intro file saved
    have here : moment.catalog ∈ insertedDb.history.map fun moment => moment.catalog :=
      List.mem_map_of_mem inside
    rw [catalogs, show moment.catalog = some file from saved] at here
    rcases List.mem_append.mp here with old | new
    · rw [Option.some.inj (List.mem_replicate.mp old).2]
      exact small_createdCatalog
    · simp at new

/-- The insertion of a row, cut off anywhere. -/
theorem allOrNothing_insertSeven :
    ∃ calls before during, Performs Files.empty insertedDb.history calls ∧
      calls = before ++ during ∧ Performs Files.empty createdDb.history before ∧
      ∀ part, part <+: during → ∃ files,
        DataFolder.decode (Folder.run (opening ++ before ++ part) ∅) = .ok files ∧
        (NoneMissing insertSeven createdDb insertedDb files → ∀ order', ∃ info recovered,
          start order' files = (.ok info, recovered) ∧
          (recovered.Recalls createdDb ∨ recovered.Recalls insertedDb)) := by
  have run : execute .ofInsertion insertSeven createdDb = (.ok [], insertedDb) := rfl
  rcases (session_createdDb.execute run rfl).diary with ⟨entries, diary⟩
  rcases diary.chained.performs with ⟨calls, performs⟩
  have kind : IsInsertOrUpdate insertSeven := trivial
  rcases statement_allOrNothing session_createdDb kind run small_insertedDb performs with
    ⟨before, during, whole, first, cuts⟩
  exact ⟨calls, before, during, performs, whole, first, cuts⟩

end Sample

end VenomDb
