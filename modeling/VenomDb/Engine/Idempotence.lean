import VenomDb.Engine.Readings
import VenomDb.Recovery.Sessions

/-!
# Recovering twice

Opening a directory replaces pages of the data file by the pages that the log gives, where there is
a page to replace, and leaves the others alone, readable or not. What it makes of the file depends
on nothing else, so making it again changes nothing, and neither does making it of a file in which
only some of the pages have been replaced.
-/

namespace VenomDb

open Fallible

namespace Executor

variable [Crc32] {base : List PageData} {final content : Contents} {executor executor' : Executor}

section Rebuild

variable {table : String} {catalog : Catalog} {tablePages : AList fun _ : String => List UInt32}

/-- The rows that the rebuild finds for a table. -/
def tableRows (contents : Contents) (catalog : Catalog)
    (tablePages : AList fun _ : String => List UInt32) (table : String) :
    Except Failure (List (Rid × Row)) :=
  match catalog.get table with
  | none => .ok []
  | some schema => readRows contents schema ((tablePages.lookup table).getD [])

/-- The indexes after a table's rows have been entered. -/
def reindex (contents : Contents) (catalog : Catalog)
    (tablePages : AList fun _ : String => List UInt32) (table : String) (manager : IndexManager) :
    IndexManager :=
  match catalog.get table, tableRows contents catalog tablePages table with
  | some schema, .ok rows => rows.foldl (enterRow table schema) manager
  | _, _ => manager

omit [Crc32] in
theorem sameOn_reindex_ne {other : String} (apart : table ≠ other) (manager : IndexManager) :
    IndexManager.SameOn table (reindex content catalog tablePages other manager) manager := by
  rw [reindex]
  rcases catalog.get other with _ | schema
  · exact fun _ => rfl
  · rcases tableRows content catalog tablePages other with failure | rows
    · exact fun _ => rfl
    · dsimp only
      induction rows generalizing manager with
      | nil => exact fun _ => rfl
      | cons entry rows ih => exact (ih _).trans (IndexManager.sameOn_maintain apart)

omit [Crc32] in
theorem sameOn_reindex {manager manager' : IndexManager}
    (same : IndexManager.SameOn table manager manager') :
    IndexManager.SameOn table (reindex content catalog tablePages table manager)
      (reindex content catalog tablePages table manager') := by
  rw [reindex, reindex]
  rcases catalog.get table with _ | schema
  · exact same
  · rcases tableRows content catalog tablePages table with failure | rows
    · exact same
    · dsimp only
      induction rows generalizing manager manager' with
      | nil => exact same
      | cons entry rows ih => exact ih same.maintain

/-- One table: its rows are entered. -/
theorem rebuildTable_eq (table : String)
    (rendering : Rendering base final content (fun _ => False) executor) :
    match tableRows content executor.catalog executor.tablePages table with
    | .ok _ => ∃ executor', rebuildTable table executor = (.ok (), executor') ∧
        Rendering base final content (fun _ => False) executor' ∧ Aside executor executor' ∧
        executor'.indexManager =
          reindex content executor.catalog executor.tablePages table executor.indexManager
    | .error failure => ∃ executor', rebuildTable table executor = (.error failure, executor') := by
  rw [rebuildTable, get_bind, reindex, tableRows]
  rcases executor.catalog.get table with _ | schema
  · exact ⟨executor, rfl, rendering, ⟨rfl, rfl, rfl, rfl, rfl⟩, rfl⟩
  · have rebuilt := rebuildPages_eq table schema ((executor.tablePages.lookup table).getD [])
      rendering
    dsimp only
    generalize readRows content schema ((executor.tablePages.lookup table).getD []) = read
      at rebuilt ⊢
    rcases read with failure | rows
    · exact rebuilt
    · exact rebuilt

/-- All tables, one after another: each table's rows are entered into its own indexes. -/
theorem rebuildTables_eq {tables : List String} (nodup : tables.Nodup)
    (rendering : Rendering base final content (fun _ => False) executor)
    (readable : ∀ table ∈ tables, ∃ rows,
      tableRows content executor.catalog executor.tablePages table = .ok rows) :
    ∃ executor', forEach tables rebuildTable executor = (.ok (), executor') ∧
      Rendering base final content (fun _ => False) executor' ∧ Aside executor executor' ∧
      ∀ table, IndexManager.SameOn table executor'.indexManager
        (if table ∈ tables then
          reindex content executor.catalog executor.tablePages table executor.indexManager
        else executor.indexManager) := by
  induction tables generalizing executor with
  | nil => exact ⟨executor, rfl, rendering, ⟨rfl, rfl, rfl, rfl, rfl⟩, fun _ _ => rfl⟩
  | cons first tables ih =>
      rcases List.nodup_cons.mp nodup with ⟨apart, nodup⟩
      rcases readable first (by simp) with ⟨rows, read⟩
      have rebuilt := rebuildTable_eq first rendering
      rw [read] at rebuilt
      rcases rebuilt with ⟨between, run, rendering', aside, indexed⟩
      have readable' : ∀ table ∈ tables, ∃ rows,
          tableRows content between.catalog between.tablePages table = .ok rows := by
        intro table inside
        rw [aside.catalog, aside.tablePages]
        exact readable table (by simp [inside])
      rcases ih nodup rendering' readable' with ⟨executor', runs, rendering'', aside', same⟩
      refine ⟨executor', by rw [forEach, bind_ok run, runs], rendering'', aside.trans aside', ?_⟩
      intro table
      have here := same table
      rw [aside.catalog, aside.tablePages, indexed] at here
      refine here.trans ?_
      by_cases isFirst : table = first
      · subst isFirst
        rw [if_neg apart, if_pos (by simp)]
        exact fun _ => rfl
      · have kept : IndexManager.SameOn table
            (reindex content executor.catalog executor.tablePages first executor.indexManager)
            executor.indexManager := sameOn_reindex_ne isFirst _
        by_cases inside : table ∈ tables
        · rw [if_pos inside, if_pos (by simp [inside])]
          exact sameOn_reindex kept
        · rw [if_neg inside, if_neg (by simp [isFirst, inside])]
          exact kept

/-- A rebuild that succeeds has found the rows of every table. -/
theorem readable_of_rebuildTables {tables : List String}
    (rendering : Rendering base final content (fun _ => False) executor)
    (run : forEach tables rebuildTable executor = (.ok (), executor')) :
    ∀ table ∈ tables, ∃ rows,
      tableRows content executor.catalog executor.tablePages table = .ok rows := by
  induction tables generalizing executor with
  | nil => simp
  | cons first tables ih =>
      have rebuilt := rebuildTable_eq first rendering
      rcases read : tableRows content executor.catalog executor.tablePages first with failure | rows
      · rw [read] at rebuilt
        rcases rebuilt with ⟨between, failed⟩
        rw [forEach, bind_error failed] at run
        exact absurd (Prod.mk.inj run).1 (by simp)
      · rw [read] at rebuilt
        rcases rebuilt with ⟨between, ran, rendering', aside, -⟩
        rw [forEach, bind_ok ran] at run
        intro table inside
        rcases List.mem_cons.mp inside with rfl | inside
        · exact ⟨rows, read⟩
        · have rest := ih rendering' run table inside
          rwa [aside.catalog, aside.tablePages] at rest

end Rebuild

section Restored

variable {pages : AList fun _ : UInt32 => Page} {pageId : UInt32} {data : PageData}

/-- What opening makes of a file: a page that can be read is replaced if the log has it. -/
def restored (pages : AList fun _ : UInt32 => Page) (contents : Contents) : Contents :=
  fun pageId => (contents pageId).map fun data =>
    ((pages.lookup pageId).map fun page => page.data.finalizeChecksum).getD data

theorem restored_error {error : IoError} (unreadable : content pageId = .error error) :
    restored pages content pageId = .error error := by
  rw [restored, unreadable]
  rfl

theorem restored_ok (read : content pageId = .ok data) :
    restored pages content pageId =
      .ok (((pages.lookup pageId).map fun page => page.data.finalizeChecksum).getD data) := by
  rw [restored, read]
  rfl

theorem restored_of_absent (absent : pages.lookup pageId = none) :
    restored pages content pageId = content pageId := by
  rcases read : content pageId with error | data
  · exact restored_error read
  · rw [restored_ok read, absent]
    rfl

/-- Before and after the replacement the same pages can be read. -/
theorem exists_of_between (between : content pageId = DiskManager.load base pageId ∨
      content pageId = restored pages (DiskManager.load base) pageId)
    (read : content pageId = .ok data) :
    ∃ before, DiskManager.load base pageId = .ok before := by
  rcases loaded : DiskManager.load base pageId with error | before
  · rw [restored_error loaded, loaded, or_self, read] at between
    cases between
  · exact ⟨before, rfl⟩

/-- A file in which some of the pages have been replaced is made the same. -/
theorem restored_mixes {db : List PageData}
    (mixes : DiskManager.Mixes base (restored pages (DiskManager.load base)) db) :
    restored pages (DiskManager.load db) = restored pages (DiskManager.load base) := by
  funext pageId
  rcases mixes.page pageId.toNat with same | ⟨other, data, sameId, isRestored, here⟩
  · rw [restored, restored, DiskManager.load_congr same]
  · obtain rfl := UInt32.toNat.inj sameId
    rcases loaded : DiskManager.load base other with error | before
    · rw [restored_error loaded] at isRestored
      cases isRestored
    · rw [restored_ok loaded] at isRestored ⊢
      have valid : data.verifyChecksum = true := by
        rw [← Except.ok.inj isRestored]
        rcases pages.lookup other with _ | page
        · exact (DiskManager.load_eq_ok.mp loaded).2
        · exact page.data.verifyChecksum_finalizeChecksum
      rw [restored_ok (DiskManager.load_eq_ok.mpr ⟨here, valid⟩), ← Except.ok.inj isRestored]
      rcases pages.lookup other with _ | page <;> rfl

end Restored

section Push

variable {pageIds : List UInt32}

/-- Only the pool has changed. -/
structure Pooled (executor executor' : Executor) : Prop where
  aside : Aside executor executor'
  indexManager : executor'.indexManager = executor.indexManager

omit [Crc32] in
theorem Pooled.refl (executor : Executor) : Pooled executor executor :=
  ⟨⟨rfl, rfl, rfl, rfl, rfl⟩, rfl⟩

omit [Crc32] in
theorem Pooled.trans {executor'' : Executor} (first : Pooled executor executor')
    (second : Pooled executor' executor'') : Pooled executor executor'' :=
  ⟨first.aside.trans second.aside, second.indexManager.trans first.indexManager⟩

/-- A page of the log manager is pushed: where it could be read, it is replaced. -/
theorem pushPage_eq (pageId : UInt32)
    (isFinal : final = restored executor.wal.pages (DiskManager.load base))
    (rendering : Rendering base final content (fun _ => True) executor) :
    ∃ executor', pushPage pageId executor = (.ok (), executor') ∧
      Rendering base final (Function.update content pageId (final pageId))
        (fun _ => True) executor' ∧
      Pooled executor executor' := by
  have unchanged (same : content pageId = final pageId) :
      Function.update content pageId (final pageId) = content := by
    rw [← same, Function.update_eq_self]
  have between := rendering.renders.between pageId
  rw [pushPage, get_bind]
  rcases found : executor.wal.pages.lookup pageId with _ | walPage
  · have same : content pageId = final pageId := by
      rw [isFinal, restored_of_absent found]
      rw [isFinal, restored_of_absent found, or_self] at between
      exact between
    rw [unchanged same]
    exact ⟨executor, rfl, rendering, .refl executor⟩
  · dsimp only
    rcases rendering.fetchPage pageId with
      ⟨frameId, page, pool, run, renders, busy, held, rfl⟩ | ⟨error, pool, unreadable, run, next⟩
    · let fetched : Executor := Executor.record { executor with bufferPool := pool }
      have here : tryFetchPage page.id executor = (.ok (some frameId), fetched) := by
        rw [tryFetchPage, run]
      let page' : Page := { page with data := walPage.data, dirty := true }
      have replaced : onPage frameId () (fun page =>
          .ok ((), { page with data := walPage.data, dirty := true })) fetched =
            (.ok (),
              Executor.record { fetched with bufferPool := pool.setPage frameId page' }) := by
        have held' : fetched.bufferPool.getPage frameId = some page := held
        rw [onPage, get_bind, held']
        rfl
      rw [bind_ok here]
      dsimp only
      rw [bind_ok replaced]
      have shown : final page.id = .ok page'.data.finalizeChecksum := by
        rw [isFinal] at between ⊢
        rcases exists_of_between between (renders.shown held) with ⟨before, loaded⟩
        rw [restored_ok loaded, found]
        rfl
      have put : (((pool.setPage frameId page').unpin frameId true)).Renders base final
          (Function.update content page.id (final page.id)) (fun _ => True) := by
        refine renders.put busy held rfl ?_ (fun other ne => Function.update_of_ne ne _ _) ?_
          trivial
        · rw [Function.update_self, shown]
        · rw [Function.update_self]
      have moments : ∀ moment ∈ (Executor.record
          { fetched with bufferPool := pool.setPage frameId page' }).history,
          DiskManager.Mixes base final moment.db :=
        mixes_record (mixes_record rendering.moments renders.mixes) renders.mixes
      have idle := (busy.setPage (show (pool.getPage frameId).isSome by
        rw [BufferPool.getPage, held]; rfl) page').unpin true
      exact ⟨_, rfl, Rendering.record moments put idle, ⟨rfl, rfl, rfl, rfl, rfl⟩, rfl⟩
    · have skipped : tryFetchPage pageId executor =
          (.ok none, Executor.record { executor with bufferPool := pool }) := by
        rw [tryFetchPage, run]
      have same : content pageId = final pageId := by
        rcases between with isBase | same
        · rw [isFinal, restored_error (isBase.symm.trans unreadable), unreadable]
        · exact same
      rw [bind_ok skipped, unchanged same]
      exact ⟨_, rfl, next, ⟨rfl, rfl, rfl, rfl, rfl⟩, rfl⟩

/-- All pages of the log manager are pushed, in any order. -/
theorem pushPages_eq (isFinal : final = restored executor.wal.pages (DiskManager.load base))
    (listed : ∀ pageId, pageId ∉ pageIds → executor.wal.pages.lookup pageId = none)
    (rendering : Rendering base final content (fun _ => True) executor) :
    ∃ executor', forEach pageIds pushPage executor = (.ok (), executor') ∧
      Rendering base final final (fun _ => True) executor' ∧ Pooled executor executor' := by
  -- what remains to be pushed is not yet as it will be
  suffices pushes : ∀ {content executor},
      final = restored executor.wal.pages (DiskManager.load base) →
      (∀ pageId, pageId ∉ pageIds → content pageId = final pageId) →
      Rendering base final content (fun _ => True) executor →
      ∃ executor', forEach pageIds pushPage executor = (.ok (), executor') ∧
        Rendering base final final (fun _ => True) executor' ∧ Pooled executor executor' by
    refine pushes isFinal (fun pageId outside => ?_) rendering
    have between := rendering.renders.between pageId
    rw [isFinal, restored_of_absent (listed pageId outside)] at between ⊢
    rwa [or_self] at between
  clear listed rendering isFinal
  induction pageIds with
  | nil =>
      intro content executor _ done rendering
      obtain rfl : content = final := funext fun pageId => done pageId (by simp)
      exact ⟨executor, rfl, rendering, .refl executor⟩
  | cons pageId pageIds ih =>
      intro content executor isFinal done rendering
      rcases pushPage_eq pageId isFinal rendering with ⟨between, run, rendering', pooled⟩
      have isFinal' : final = restored between.wal.pages (DiskManager.load base) := by
        rw [pooled.aside.wal, isFinal]
      have done' : ∀ other, other ∉ pageIds →
          Function.update content pageId (final pageId) other = final other := by
        intro other outside
        by_cases same : other = pageId
        · rw [same, Function.update_self]
        · rw [Function.update_of_ne same, done other (by simp [same, outside])]
      rcases ih isFinal' done' rendering' with ⟨executor', runs, rendering'', pooled'⟩
      exact ⟨executor', by rw [forEach, bind_ok run, runs], rendering'', pooled.trans pooled'⟩

/-- All pages in frames are written. -/
theorem flushPages_eq (rendering : Rendering base final content (· ∈ pageIds) executor) :
    ∃ executor', forEach pageIds (fun pageId => onPool (BufferPool.flushPage pageId)) executor =
        (.ok (), executor') ∧
      Rendering base final content (fun _ => False) executor' ∧ Pooled executor executor' := by
  induction pageIds generalizing executor with
  | nil =>
      refine ⟨executor, rfl, ⟨?_, rendering.idle, rendering.moments⟩, .refl executor⟩
      exact rendering.renders.narrow fun pageId held => by simp at held
  | cons pageId pageIds ih =>
      have flushed := BufferPool.renders_flushPage pageId pageIds executor.bufferPool
        rendering.renders
      have idle := BufferPool.ends_flushPage pageId executor.bufferPool rendering.idle
      rcases run : BufferPool.flushPage pageId executor.bufferPool with ⟨failure | _, pool⟩
      · rw [run] at flushed
        exact flushed.elim
      · rw [run] at flushed idle
        have done : onPool (BufferPool.flushPage pageId) executor =
            (.ok (), Executor.record { executor with bufferPool := pool }) := by
          rw [onPool, run]
        rcases ih (Rendering.record rendering.moments flushed idle) with
          ⟨executor', runs, rendering', pooled⟩
        have recorded : Pooled executor (Executor.record { executor with bufferPool := pool }) :=
          ⟨⟨rfl, rfl, rfl, rfl, rfl⟩, rfl⟩
        exact ⟨executor', by rw [forEach, bind_ok done, runs], rendering', recorded.trans pooled⟩

end Push

section Start

variable {files : Files} {wal : WalManager} {info : RecoveryInfo} {order : HashOrder}

/-- What the data file reads as after a directory has been opened. -/
def reopened (files : Files) (wal : WalManager) : Contents :=
  restored wal.pages (DiskManager.load files.db)

/-- Everything but the rebuild of the indexes has been done. -/
structure Prepared (files : Files) (wal : WalManager) (executor : Executor) : Prop where
  rendering : Rendering files.db (reopened files wal) (reopened files wal) (fun _ => False) executor
  aside : Aside { («open» files).loadTables with wal := wal } executor
  indexManager : executor.indexManager = («open» files).loadTables.createIndexes.indexManager

/-- The last step of `recover`. -/
def finish (order : HashOrder) (report : RecoveryReport) : Action RecoveryInfo := do
  let executor ← Fallible.get
  Fallible.forEach (order.tables executor.tablePages.keys) rebuildTable
  let executor ← Fallible.get
  return {
    redone := report.redone
    undone := report.undone
    tablesLoaded := executor.catalog.tables.keys.length }

/-- Opening comes to the rebuild, unless the log cannot be replayed. -/
theorem start_prepares (order : HashOrder) {report : RecoveryReport}
    (recovered : WalManager.recover (WalManager.new files.log) = (.ok report, wal)) :
    ∃ executor, Prepared files wal executor ∧ start order files = finish order report executor := by
  let loaded : Executor := { («open» files).loadTables with wal := wal }
  have replayed : onWal WalManager.recover («open» files).loadTables =
      (.ok report, loaded.record) := by
    have fresh : («open» files).loadTables.wal = WalManager.new files.log := rfl
    rw [onWal, fresh, recovered]
  have rendering : Rendering files.db (reopened files wal) (DiskManager.load files.db)
      (fun _ => True) loaded.record := by
    refine ⟨BufferPool.renders_opened _ _ _, BufferPool.pins_new rfl, fun moment inside => ?_⟩
    obtain rfl : moment = loaded.moment := by
      simpa [record, loaded, loadTables, «open»] using inside
    exact DiskManager.mixes_refl _ _
  have listed (pageId : UInt32) (outside : pageId ∉ order.pages loaded.record.wal.pages.keys) :
      loaded.record.wal.pages.lookup pageId = none := by
    rw [AList.lookup_eq_none]
    exact fun inside => outside ((order.pages_perm _).mem_iff.mpr inside)
  rcases pushPages_eq rfl listed rendering with ⟨pushed, pushes, rendering', pooled⟩
  have pending : Rendering files.db (reopened files wal) (reopened files wal)
      (· ∈ order.pages pushed.bufferPool.pageTable.keys) pushed := by
    refine ⟨rendering'.renders.narrow fun pageId _ resident => ?_, rendering'.idle,
      rendering'.moments⟩
    exact (order.pages_perm _).mem_iff.mpr (AList.lookup_isSome.mp resident)
  rcases flushPages_eq pending with ⟨flushed, flushes, settled, pooled'⟩
  have both : Pooled loaded.record flushed := pooled.trans pooled'
  refine ⟨flushed.createIndexes, ⟨⟨settled.renders, settled.idle, settled.moments⟩,
    ⟨both.aside.catalog, both.aside.tablePages, both.aside.wal, both.aside.catalogFile,
      both.aside.pageFiles⟩, ?_⟩, ?_⟩
  · rw [createIndexes, createIndexes, both.indexManager, both.aside.catalog]
    rfl
  · rw [start, recover, modify_bind, bind_ok replayed, get_bind, bind_ok pushes, get_bind,
      bind_ok flushes, modify_bind]
    rfl

/-- A directory has been opened. -/
structure Restarted (files : Files) (wal : WalManager) (executor : Executor) : Prop where
  rendering : Rendering files.db (reopened files wal) (reopened files wal) (fun _ => False) executor
  aside : Aside { («open» files).loadTables with wal := wal } executor
  indexes : ∀ table, IndexManager.SameOn table executor.indexManager
    (if table ∈ («open» files).loadTables.tablePages.keys then
      reindex (reopened files wal) («open» files).loadTables.catalog
        («open» files).loadTables.tablePages table
        («open» files).loadTables.createIndexes.indexManager
    else («open» files).loadTables.createIndexes.indexManager)

/-- The rows of every table can be read for the rebuild. -/
def Readable (files : Files) (wal : WalManager) : Prop :=
  ∀ table ∈ («open» files).loadTables.tablePages.keys, ∃ rows,
    tableRows (reopened files wal) («open» files).loadTables.catalog
      («open» files).loadTables.tablePages table = .ok rows

/-- What `recover` reports. -/
def infoOf (files : Files) (report : RecoveryReport) : RecoveryInfo where
  redone := report.redone
  undone := report.undone
  tablesLoaded := («open» files).loadTables.catalog.tables.keys.length

/-- The rebuild succeeds if all rows can be read, whatever the order of the tables. -/
theorem Prepared.finish (prepared : Prepared files wal executor) (readable : Readable files wal)
    (order : HashOrder) (report : RecoveryReport) :
    ∃ executor', Executor.finish order report executor = (.ok (infoOf files report), executor') ∧
      Restarted files wal executor' := by
  have tablePages := prepared.aside.tablePages
  have catalog := prepared.aside.catalog
  have nodup : (order.tables executor.tablePages.keys).Nodup :=
    (order.tables_perm _).nodup_iff.mpr executor.tablePages.keys_nodup
  have inside (table : String) : table ∈ order.tables executor.tablePages.keys ↔
      table ∈ («open» files).loadTables.tablePages.keys := by
    rw [(order.tables_perm _).mem_iff, tablePages]
  have readable' : ∀ table ∈ order.tables executor.tablePages.keys, ∃ rows,
      tableRows (reopened files wal) executor.catalog executor.tablePages table = .ok rows := by
    intro table listed
    rw [catalog, tablePages]
    exact readable table ((inside table).mp listed)
  rcases rebuildTables_eq nodup prepared.rendering readable' with
    ⟨executor', run, rendering, aside, same⟩
  have aside' := prepared.aside.trans aside
  refine ⟨executor', ?_, rendering, aside', fun table => ?_⟩
  · rw [Executor.finish, get_bind, bind_ok run, get_bind, aside'.catalog]
    rfl
  · have here := same table
    simp only [inside] at here
    rw [catalog, tablePages, prepared.indexManager] at here
    exact here

/-- An opening that succeeds has replayed the log and read all rows. -/
theorem start_inv (ran : start order files = (.ok info, executor)) :
    ∃ report wal, WalManager.recover (WalManager.new files.log) = (.ok report, wal) ∧
      Readable files wal ∧ info = infoOf files report ∧ Restarted files wal executor := by
  rcases recovered : WalManager.recover (WalManager.new files.log) with ⟨failure | report, wal⟩
  · have failed : onWal WalManager.recover («open» files).loadTables =
        (.error failure, record { («open» files).loadTables with wal := wal }) := by
      have fresh : («open» files).loadTables.wal = WalManager.new files.log := rfl
      rw [onWal, fresh, recovered]
    rw [start, recover, modify_bind, bind_error failed] at ran
    exact absurd (Prod.mk.inj ran).1 (by simp)
  · rcases start_prepares order recovered with ⟨prepared, isPrepared, starts⟩
    rw [starts] at ran
    have rebuilt : ∃ between,
        forEach (order.tables prepared.tablePages.keys) rebuildTable prepared =
          (.ok (), between) := by
      rw [finish, get_bind] at ran
      rcases bind_eq_ok ran with ⟨_, between, run, -⟩
      exact ⟨between, run⟩
    rcases rebuilt with ⟨between, run⟩
    have readable : Readable files wal := by
      intro table inside
      have listed : table ∈ order.tables prepared.tablePages.keys := by
        rw [(order.tables_perm _).mem_iff, isPrepared.aside.tablePages]
        exact inside
      have read := readable_of_rebuildTables isPrepared.rendering run table listed
      rwa [isPrepared.aside.catalog, isPrepared.aside.tablePages] at read
    rcases isPrepared.finish readable order report with ⟨executor', finished, restarted⟩
    rw [finished] at ran
    obtain ⟨sameInfo, rfl⟩ := Prod.mk.inj ran
    exact ⟨report, wal, rfl, readable, (Except.ok.inj sameInfo).symm, restarted⟩

/-- A data file after some of the page writes of a run: each page is as it was before, or as it was
at some moment. -/
def PartlyWritten (files : Files) (executor : Executor) (db : List PageData) : Prop :=
  ∀ index : ℕ, db[index]? = files.db[index]? ∨
    ∃ moment ∈ executor.history, db[index]? = moment.db[index]?

omit [Crc32] in
/-- Pages of mixed files make a mixed file. -/
theorem PartlyWritten.mixes {db : List PageData}
    (moments : ∀ moment ∈ executor.history, DiskManager.Mixes files.db final moment.db)
    (partly : PartlyWritten files executor db) : DiskManager.Mixes files.db final db := by
  have page (index : ℕ) : db[index]? = files.db[index]? ∨ ∃ pageId data,
      pageId.toNat = index ∧ final pageId = .ok data ∧ db[index]? = some data := by
    rcases partly index with same | ⟨moment, inside, same⟩
    · exact .inl same
    · rw [same]
      exact (moments moment inside).page index
  have absent (index : ℕ) : db.length ≤ index ↔ files.db.length ≤ index := by
    rcases partly index with same | ⟨moment, inside, same⟩
    · rw [← List.getElem?_eq_none_iff, ← List.getElem?_eq_none_iff, same]
    · rw [← (moments moment inside).length, ← List.getElem?_eq_none_iff,
        ← List.getElem?_eq_none_iff, same]
  refine ⟨?_, page⟩
  have upper := absent db.length
  have lower := absent files.db.length
  omega

variable [Build]

/-- The same answers to `SELECT *` on every table, and the same indexes. -/
structure SameAnswers (executor executor' : Executor) : Prop where
  selectAll : ∀ table, executor'.selectAll table = executor.selectAll table
  indexes : ∀ table, IndexManager.SameOn table executor'.indexManager executor.indexManager

/-- Opening a file that is made the same gives the same. -/
theorem Restarted.again {report : RecoveryReport} {db : List PageData}
    (restarted : Restarted files wal executor) (readable : Readable files wal)
    (recovered : WalManager.recover (WalManager.new files.log) = (.ok report, wal))
    (mixes : DiskManager.Mixes files.db (reopened files wal) db) (order : HashOrder) :
    ∃ executor', start order { files with db := db } = (.ok (infoOf files report), executor') ∧
      SameAnswers executor executor' := by
  have same : reopened { files with db := db } wal = reopened files wal := restored_mixes mixes
  have readable' : Readable { files with db := db } wal := by
    intro table inside
    rw [same]
    exact readable table inside
  have recovered' : WalManager.recover (WalManager.new ({ files with db := db } : Files).log) =
      (.ok report, wal) := recovered
  rcases start_prepares order recovered' with ⟨prepared, isPrepared, starts⟩
  rcases isPrepared.finish readable' order report with ⟨executor', finished, restarted'⟩
  refine ⟨executor', starts.trans finished, fun table => ?_, fun table => ?_⟩
  · rw [restarted.rendering.selectAll, restarted'.rendering.selectAll, same,
      restarted.aside.catalog, restarted.aside.tablePages, restarted'.aside.catalog,
      restarted'.aside.tablePages]
    rfl
  · have here := restarted'.indexes table
    rw [same] at here
    exact here.trans fun column => (restarted.indexes table column).symm

/-- Opening a directory again, after all or after any of the page writes of the first time, gives
the same report, the same answers and the same indexes. -/
theorem start_again (ran : start order files = (.ok info, executor)) (again : HashOrder) :
    (∃ executor', start again executor.files = (.ok info, executor') ∧
      SameAnswers executor executor') ∧
    ∀ db, PartlyWritten files executor db →
      ∃ executor', start again { files with db := db } = (.ok info, executor') ∧
        SameAnswers executor executor' := by
  rcases start_inv ran with ⟨report, wal, recovered, readable, rfl, restarted⟩
  refine ⟨?_, fun db partly => ?_⟩
  · have onDisk : executor.files = { files with db := executor.bufferPool.disk.file } := by
      have log : (WalManager.recover (WalManager.new files.log)).2.log = files.log :=
        WalManager.recover_log
      rw [recovered] at log
      rw [Executor.files, restarted.aside.wal, restarted.aside.pageFiles,
        restarted.aside.catalogFile]
      exact congrArg (fun log => ({ files with log := log, db := _ } : Files)) log
    rw [onDisk]
    exact restarted.again readable recovered restarted.rendering.renders.mixes again
  · exact restarted.again readable recovered (partly.mixes restarted.rendering.moments) again

end Start

end Executor

namespace Sample

attribute [local instance] Crc32.ieee Build.debug

open Executor

/-- A directory with two rows, opened a second and a third time. -/
theorem start_again_insertedTwo : ∃ (executor reopened : Executor) (info : RecoveryInfo),
    Session Succeeds [create, insertSeven, insertNull] executor ∧
    start .ofInsertion executor.files = (.ok info, reopened) ∧
    reopened.selectAll "t" = .ok [[.int 1, .int 7], [.int 2, .null]] ∧
    ∃ executor', start .ofInsertion reopened.files = (.ok info, executor') ∧
      SameAnswers reopened executor' := by
  rcases attains_insertedTwo with ⟨executor, session, rests, follows, -⟩
  have sound := follows.sound .inl
  rcases rests.restart sound .ofInsertion with ⟨info, reopened, run, rests', idle⟩
  have usable := (sound.restart .ofInsertion rests.inside).usable
  refine ⟨executor, reopened, info, session, run, ?_, (start_again run .ofInsertion).1⟩
  rw [rests'.reflects.selectAll_of_ready usable idle.ready,
    Logical.selectAll_restart sound.replayable rests.inside]
  rfl

end Sample

end VenomDb
