import VenomDb.Buffer.Contents
import VenomDb.Engine.IndexRebuild
import VenomDb.Engine.Survival

/-!
# Reading pages that may be anything

Scans on pages that nothing is known of: they may be missing or damaged, be listed twice, and have
slots that point anywhere. What a scan gives, and what the rebuild of the indexes enters, depends on
what the pages read as and on nothing else in the pool.
-/

namespace VenomDb

open Fallible

namespace IndexManager

variable {manager manager' : IndexManager} {table other : String} {rid : Rid}
  {cells : List (String × Option Int64 × Option Int64)}

/-- The indexes of a table are the same. -/
def SameOn (table : String) (manager manager' : IndexManager) : Prop :=
  ∀ column, manager.indexes.lookup (table, column) = manager'.indexes.lookup (table, column)

theorem SameOn.onIndex (same : SameOn table manager manager') (column : String)
    (change : ColumnIndex → ColumnIndex) :
    SameOn table (manager.onIndex table column change) (manager'.onIndex table column change) := by
  intro name
  by_cases here : name = column
  · subst here
    rcases found : manager.indexes.lookup (table, name) with _ | tree
    · have found' := (same name).symm.trans found
      simp [IndexManager.onIndex, found, found']
    · have found' := (same name).symm.trans found
      rw [lookup_onIndex_self found, lookup_onIndex_self found']
  · have apart : (table, name) ≠ (table, column) := by simpa using here
    rw [lookup_onIndex_ne apart, lookup_onIndex_ne apart, same name]

theorem SameOn.maintain (same : SameOn table manager manager') :
    SameOn table (manager.maintain table rid cells) (manager'.maintain table rid cells) := by
  induction cells generalizing manager manager' with
  | nil => exact same
  | cons cell cells ih =>
      rcases cell with ⟨column, old, new⟩
      rw [IndexManager.maintain, IndexManager.maintain]
      apply ih
      have has : manager.hasIndex table column = manager'.hasIndex table column := by
        rw [hasIndex, hasIndex, same column]
      rw [has]
      split_ifs
      · cases old with
        | none =>
            cases new with
            | none => exact same
            | some key => exact same.onIndex column _
        | some old =>
            cases new with
            | none => exact same.onIndex column _
            | some key => exact (same.onIndex column _).onIndex column _
      · exact same

theorem sameOn_maintain (apart : table ≠ other) :
    SameOn table (manager.maintain other rid cells) manager :=
  fun _ => lookup_maintain_ne fun cell _ => by simp [apart]

theorem SameOn.trans {manager'' : IndexManager} (first : SameOn table manager manager')
    (second : SameOn table manager' manager'') : SameOn table manager manager'' :=
  fun column => (first column).trans (second column)

end IndexManager

namespace Executor

section Pages

variable {β : Type}

/-- What a scan of a page makes of its tuples, in the order of the slots. -/
def readSlots (decode : Bytes → Except Failure (Option β)) (page : Page) :
    List UInt16 → Except Failure (List (UInt16 × β))
  | [] => .ok []
  | slotId :: slotIds => do
      match ← page.getTuple slotId with
      | none => readSlots decode page slotIds
      | some tuple => do
          let found ← decode tuple
          let rest ← readSlots decode page slotIds
          return found.toList.map (fun row => (slotId, row)) ++ rest

/-- The slots of a page. -/
def pageSlots (data : PageData) : List UInt16 :=
  (List.range data.readHeader.numSlots.toNat).map UInt16.ofNat

def readPage (decode : Bytes → Except Failure (Option β)) (data : PageData) :
    Except Failure (List (UInt16 × β)) :=
  readSlots decode (Page.fromBytes 0 data) (pageSlots data)

/-- A body that decodes the tuple, collects the row and enters it into the indexes. -/
def Decodes {α : Type} (decode : Bytes → Except Failure (Option β)) (collect : α → UInt16 × β → α)
    (enter : IndexManager → UInt16 × β → IndexManager)
    (body : UInt16 → Bool → Bytes → α → Action (Bool × α)) : Prop :=
  ∀ slotId dirty tuple result executor, body slotId dirty tuple result executor =
    match decode tuple with
    | .error failure => (.error failure, executor)
    | .ok none => (.ok (false, result), executor)
    | .ok (some row) => (.ok (false, collect result (slotId, row)),
        { executor with indexManager := enter executor.indexManager (slotId, row) })

variable {α : Type} {decode : Bytes → Except Failure (Option β)} {collect : α → UInt16 × β → α}
  {enter : IndexManager → UInt16 × β → IndexManager}
  {body : UInt16 → Bool → Bytes → α → Action (Bool × α)} {frameId : FrameId} {page page' : Page}
  {executor : Executor}

theorem scanSlots_decodes (decodes : Decodes decode collect enter body)
    (held : executor.bufferPool.getPage frameId = some page) (sameData : page'.data = page.data)
    (slotIds : List UInt16) (dirty : Bool) (result : α) :
    match readSlots decode page' slotIds with
    | .ok rows => scanSlots frameId body slotIds dirty result executor =
        (.ok (dirty, rows.foldl collect result),
          { executor with indexManager := rows.foldl enter executor.indexManager })
    | .error failure => ∃ executor', scanSlots frameId body slotIds dirty result executor =
        (.error failure, executor') := by
  induction slotIds generalizing executor result with
  | nil => rfl
  | cons slotId slotIds ih =>
      have got : getTuple frameId slotId executor = (page'.getTuple slotId, executor) := by
        have same : page'.getTuple slotId = page.getTuple slotId := by
          simp only [Page.getTuple, Page.readSlot, sameData]
        rw [getTuple, get_bind, held, same]
        rfl
      rw [readSlots, scanSlots, bind_apply, got]
      rcases page'.getTuple slotId with failure | _ | tuple
      · exact ⟨executor, rfl⟩
      · exact ih held result
      · dsimp only [bind, Except.bind]
        have ran := decodes slotId dirty tuple result executor
        rcases decoded : decode tuple with failure | _ | row
        · rw [decoded] at ran
          exact ⟨executor, by rw [ran]⟩
        · rw [decoded] at ran
          have rest := ih held result
          rw [ran]
          dsimp only
          rw [Bool.or_false]
          rcases read : readSlots decode page' slotIds with failure | rows
          · rw [read] at rest
            exact rest
          · rw [read] at rest
            exact rest
        · rw [decoded] at ran
          let entered : Executor :=
            { executor with indexManager := enter executor.indexManager (slotId, row) }
          have held' : entered.bufferPool.getPage frameId = some page := held
          have rest := ih held' (collect result (slotId, row))
          rw [ran]
          dsimp only
          rw [Bool.or_false]
          rcases read : readSlots decode page' slotIds with failure | rows
          · rw [read] at rest
            exact rest
          · rw [read] at rest
            exact rest

theorem slots_eq (held : executor.bufferPool.getPage frameId = some page) :
    slots frameId executor = (.ok (pageSlots page.data), executor) := by
  rw [slots, get_bind, held]
  rfl

/-- The scan of the page in a frame. -/
theorem scanPage_decodes (decodes : Decodes decode collect enter body)
    (held : executor.bufferPool.getPage frameId = some page) (result : α) :
    match readPage decode page.data with
    | .ok rows => scanSlots frameId body (pageSlots page.data) false result executor =
        (.ok (false, rows.foldl collect result),
          { executor with indexManager := rows.foldl enter executor.indexManager })
    | .error failure => ∃ executor',
        scanSlots frameId body (pageSlots page.data) false result executor =
          (.error failure, executor') := by
  have sameData : (Page.fromBytes 0 page.data).data = page.data := rfl
  exact scanSlots_decodes decodes held sameData (pageSlots page.data) false result

end Pages

section Rebuild

/-- The row that the rebuild enters for a tuple. -/
def indexedRow (schema : Schema) (tuple : Bytes) : Except Failure (Option Row) :=
  match schema.deserializeRow tuple with
  | .error (.panic panic) => .error (.panic panic)
  | .error _ => .ok none
  | .ok row => .ok (some row)

/-- The rows that the rebuild finds on pages that read as `contents`. Pages that cannot be read are
skipped. -/
def readRows (contents : Contents) (schema : Schema) :
    List UInt32 → Except Failure (List (Rid × Row))
  | [] => .ok []
  | pageId :: pageIds =>
      match contents pageId with
      | .error _ => readRows contents schema pageIds
      | .ok data => do
          let rows ← readPage (indexedRow schema) data
          let rest ← readRows contents schema pageIds
          return rows.map (fun row => (⟨pageId, row.1⟩, row.2)) ++ rest

/-- Enter a row into the indexes of its table. -/
def enterRow (table : String) (schema : Schema) (manager : IndexManager) (entry : Rid × Row) :
    IndexManager :=
  manager.maintain table entry.1 (rebuildCells schema entry.2)

theorem decodes_rebuildBody (table : String) (schema : Schema) (pageId : UInt32) :
    Decodes (indexedRow schema) (fun _ _ => ())
      (fun manager row => enterRow table schema manager (⟨pageId, row.1⟩, row.2))
      (rebuildBody table schema pageId) := by
  intro slotId dirty tuple result executor
  rw [rebuildBody, indexedRow]
  rcases schema.deserializeRow tuple with (_ | _ | _) | row <;> rfl

end Rebuild

section Rendering

variable [Crc32] {base : List PageData} {final content : Contents} {within : UInt32 → Prop}
  {executor executor' : Executor} {frameId : FrameId} {page : Page}

/-- Between two calls: the pool renders a content, and at every moment the data file was a mix of
the one that was opened and the final one. -/
structure Rendering (base : List PageData) (final content : Contents) (within : UInt32 → Prop)
    (executor : Executor) : Prop where
  renders : executor.bufferPool.Renders base final content within
  idle : executor.Idle
  moments : ∀ moment ∈ executor.history, DiskManager.Mixes base final moment.db

omit [Crc32] in
/-- A call of the pool has completed. -/
theorem mixes_record {pool : BufferPool frameCount}
    (moments : ∀ moment ∈ executor.history, DiskManager.Mixes base final moment.db)
    (mixes : DiskManager.Mixes base final pool.disk.file) :
    ∀ moment ∈ (record { executor with bufferPool := pool }).history,
      DiskManager.Mixes base final moment.db := by
  intro moment inside
  rcases List.mem_cons.mp inside with rfl | inside
  · exact mixes
  · exact moments moment inside

theorem Rendering.record {content' : Contents} {within' : UInt32 → Prop}
    {pool : BufferPool frameCount}
    (moments : ∀ moment ∈ executor.history, DiskManager.Mixes base final moment.db)
    (renders : pool.Renders base final content' within') (idle : pool.Idle) :
    Rendering base final content' within'
      (Executor.record { executor with bufferPool := pool }) :=
  ⟨renders, idle, mixes_record moments renders.mixes⟩

/-- A fetch gives a page and pins it, or the page cannot be read. -/
theorem Rendering.fetchPage (rendering : Rendering base final content within executor)
    (pageId : UInt32) :
    (∃ frameId page pool, onPool (BufferPool.fetchPage pageId) executor =
        (.ok frameId, Executor.record { executor with bufferPool := pool }) ∧
      pool.Renders base final content within ∧ pool.Busy frameId ∧
      (pool.frames frameId).page = some page ∧ page.id = pageId) ∨
    ∃ error pool, content pageId = .error error ∧
      onPool (BufferPool.fetchPage pageId) executor =
        (.error (.io error), Executor.record { executor with bufferPool := pool }) ∧
      Rendering base final content within
        (Executor.record { executor with bufferPool := pool }) := by
  have someFrame : FrameId := ⟨0, by decide⟩
  have fetched := BufferPool.renders_fetchPage someFrame pageId executor.bufferPool
    ⟨rendering.renders, rendering.idle⟩
  rw [onPool]
  generalize BufferPool.fetchPage pageId executor.bufferPool = ended at fetched ⊢
  rcases ended with ⟨failure | frameId, pool⟩
  · rcases fetched with ⟨renders, idle, error, unreadable, rfl⟩
    exact .inr ⟨error, pool, unreadable, rfl, Rendering.record rendering.moments renders idle⟩
  · rcases fetched with ⟨renders, busy, page, held, isPage⟩
    exact .inl ⟨frameId, page, pool, rfl, renders, busy, held, isPage⟩

/-- What is not in the pool is as before, but for the indexes. -/
structure Aside (executor executor' : Executor) : Prop where
  catalog : executor'.catalog = executor.catalog
  tablePages : executor'.tablePages = executor.tablePages
  wal : executor'.wal = executor.wal
  catalogFile : executor'.catalogFile = executor.catalogFile
  pageFiles : executor'.pageFiles = executor.pageFiles

omit [Crc32] in
theorem Aside.trans {executor'' : Executor} (first : Aside executor executor')
    (second : Aside executor' executor'') : Aside executor executor'' :=
  ⟨second.catalog.trans first.catalog, second.tablePages.trans first.tablePages,
    second.wal.trans first.wal, second.catalogFile.trans first.catalogFile,
    second.pageFiles.trans first.pageFiles⟩

variable {table : String} {schema : Schema} {contents : Contents}

/-- The rebuild of the indexes from a table's pages: the rows that are read are entered. -/
theorem rebuildPages_eq (table : String) (schema : Schema) (pageIds : List UInt32)
    (rendering : Rendering base final content (fun _ => False) executor) :
    match readRows content schema pageIds with
    | .ok rows => ∃ executor', rebuildPages table schema pageIds executor = (.ok (), executor') ∧
        Rendering base final content (fun _ => False) executor' ∧ Aside executor executor' ∧
        executor'.indexManager = rows.foldl (enterRow table schema) executor.indexManager
    | .error failure => ∃ executor',
        rebuildPages table schema pageIds executor = (.error failure, executor') := by
  induction pageIds generalizing executor with
  | nil => exact ⟨executor, rfl, rendering, ⟨rfl, rfl, rfl, rfl, rfl⟩, rfl⟩
  | cons pageId pageIds ih =>
      rw [rebuildPages, readRows]
      rcases rendering.fetchPage pageId with
        ⟨frameId, page, pool, run, renders, busy, held, rfl⟩ | ⟨error, pool, unreadable, run, next⟩
      · let fetched : Executor := Executor.record { executor with bufferPool := pool }
        have here : tryFetchPage page.id executor = (.ok (some frameId), fetched) := by
          rw [tryFetchPage, run]
        have held' : fetched.bufferPool.getPage frameId = some page := held
        have scanned := scanPage_decodes (decodes_rebuildBody table schema page.id) held' ()
        rw [bind_ok here, (renders.read held).2]
        dsimp only
        rw [bind_ok (slots_eq held')]
        dsimp only [bind, Except.bind]
        rcases read : readPage (indexedRow schema) page.data with failure | rows
        · rw [read] at scanned
          rcases scanned with ⟨executor', ran⟩
          exact ⟨executor', by rw [ran]⟩
        · rw [read] at scanned
          dsimp only at scanned
          rw [scanned]
          let entered : Executor := { fetched with
            indexManager := rows.foldl (fun manager row =>
              enterRow table schema manager (⟨page.id, row.1⟩, row.2)) fetched.indexManager }
          have moments : ∀ moment ∈ entered.history, DiskManager.Mixes base final moment.db :=
            mixes_record rendering.moments renders.mixes
          have next : Rendering base final content (fun _ => False)
              (Executor.record { entered with bufferPool := pool.unpin frameId false }) :=
            Rendering.record moments (renders.unpin busy held) (busy.unpin false)
          have rest := ih next
          rcases read : readRows content schema pageIds with failure | others
          · rw [read] at rest
            exact rest
          · rw [read] at rest
            rcases rest with ⟨executor', ran, rendering', aside, indexed⟩
            refine ⟨executor', ran, rendering', ⟨aside.catalog, aside.tablePages, aside.wal,
              aside.catalogFile, aside.pageFiles⟩, ?_⟩
            rw [indexed, List.foldl_append, List.foldl_map]
            rfl
      · have skipped : tryFetchPage pageId executor =
            (.ok none, Executor.record { executor with bufferPool := pool }) := by
          rw [tryFetchPage, run]
        rw [bind_ok skipped, unreadable]
        have rest := ih next
        rcases read : readRows content schema pageIds with failure | rows
        · rw [read] at rest
          exact rest
        · rw [read] at rest
          rcases rest with ⟨executor', ran, rendering', aside, indexed⟩
          exact ⟨executor', ran, rendering', ⟨aside.catalog, aside.tablePages, aside.wal,
            aside.catalogFile, aside.pageFiles⟩, indexed⟩

/-- What a sequential scan gives on pages that read as `contents`, after some results. -/
def readScan (contents : Contents) (decode : Bytes → Except Failure (Option Row)) :
    List UInt32 → List Row → Except Failure (List Row)
  | [], results => .ok results
  | pageId :: pageIds, results =>
      match contents pageId with
      | .error error => .error (.sql (.fetchPage pageId error))
      | .ok data => do
          let rows ← readPage decode data
          readScan contents decode pageIds
            (rows.foldl (fun results row => results ++ [row.2]) results)

/-- The body of a sequential scan. -/
def scanBody (decode : Bytes → Except Failure (Option Row)) (_slotId : UInt16) (_dirty : Bool)
    (tuple : Bytes) (results : List Row) : Action (Bool × List Row) := do
  let row ← Fallible.ofExcept (decode tuple)
  return (false, results ++ row.toList)

omit [Crc32] in
theorem decodes_scanBody (decode : Bytes → Except Failure (Option Row)) :
    Decodes decode (fun results row => results ++ [row.2]) (fun manager _ => manager)
      (scanBody decode) := by
  intro slotId dirty tuple results executor
  rcases decoded : decode tuple with failure | _ | row
  · simp [scanBody, decoded, bind_apply]
  · simp [scanBody, decoded, bind_apply]
  · simp [scanBody, decoded, bind_apply]

/-- A scan gives what the pages read as. -/
theorem scanPages_eq (decode : Bytes → Except Failure (Option Row)) (pageIds : List UInt32)
    (results : List Row) (rendering : Rendering base final content (fun _ => False) executor) :
    (scanPages (fun _ _ => scanBody decode) pageIds results executor).1 =
      (readScan content decode pageIds results).map fun rows => ([], rows) := by
  induction pageIds generalizing executor results with
  | nil => rfl
  | cons pageId pageIds ih =>
      rw [scanPages, readScan, Executor.fetchPage]
      rcases rendering.fetchPage pageId with
        ⟨frameId, page, pool, run, renders, busy, held, rfl⟩ | ⟨error, pool, unreadable, run, next⟩
      · let fetched : Executor := Executor.record { executor with bufferPool := pool }
        have held' : fetched.bufferPool.getPage frameId = some page := held
        have scanned := scanPage_decodes (decodes_scanBody decode) held' results
        rw [bind_ok (mapError_ok run), bind_ok (slots_eq held'), (renders.read held).2]
        dsimp only
        rcases read : readPage decode page.data with failure | rows
        · rw [read] at scanned
          rcases scanned with ⟨executor', ran⟩
          rw [bind_error ran]
          rfl
        · rw [read] at scanned
          dsimp only at scanned
          rw [List.foldl_fixed] at scanned
          rw [bind_ok scanned]
          have next : Rendering base final content (fun _ => False)
              (Executor.record { fetched with bufferPool := pool.unpin frameId false }) :=
            Rendering.record (mixes_record rendering.moments renders.mixes)
              (renders.unpin busy held)
              (busy.unpin false)
          have rest := ih (rows.foldl (fun results row => results ++ [row.2]) results) next
          have unpinned : modifyPool (BufferPool.unpin frameId false) fetched =
              (.ok (), Executor.record { fetched with bufferPool := pool.unpin frameId false }) :=
                rfl
          dsimp only
          rw [bind_ok unpinned, bind_apply]
          change _ = (readScan content decode pageIds _).map _
          generalize scanPages (fun _ _ => scanBody decode) pageIds _ _ = ended at rest ⊢
          rw [← rest]
          rcases ended with ⟨failure | ⟨dirtyPages, found⟩, executor'⟩
          · rfl
          · rfl
      · rw [bind_error (mapError_error run), unreadable]
        rfl

variable [Build]

/-- The answer to `SELECT *` on a table, from what the pages read as. -/
def readAll (contents : Contents) (catalog : Catalog)
    (tablePages : AList fun _ : String => List UInt32) (table : String) :
    Except Failure (List Row) :=
  match catalog.get table, tablePages.lookup table with
  | none, _ => .error (.sql (.tableNotFound table))
  | some _, none => .error (.sql (.tableMetaNotFound table))
  | some schema, some pageIds => readScan contents (selectRow schema .star none) pageIds []

theorem Rendering.selectAll (rendering : Rendering base final content (fun _ => False) executor)
    (table : String) :
    executor.selectAll table = readAll content executor.catalog executor.tablePages table := by
  rw [Executor.selectAll, execSelect, readAll]
  rcases known : executor.catalog.get table with _ | schema
  · rw [bind_error (schemaOf_of_unknown known)]
  · rw [bind_ok (schemaOf_of_known known)]
    rcases listed : executor.tablePages.lookup table with _ | pageIds
    · rw [bind_error (pagesOf_of_unlisted listed)]
    · rw [bind_ok (pagesOf_of_listed listed)]
      have scanned := scanPages_eq (selectRow schema .star none) pageIds [] rendering
      have found : (findRows table schema .star none pageIds executor).1 =
          readScan content (selectRow schema .star none) pageIds [] := by
        have runs : findRows table schema .star none pageIds executor =
            (scanPages (fun _ _ => scanBody (selectRow schema .star none)) pageIds [] >>=
              fun out => pure out.2) executor := rfl
        rw [runs, bind_apply]
        generalize scanPages (fun _ _ => scanBody (selectRow schema .star none)) pageIds []
          executor = ended at scanned ⊢
        rcases ended with ⟨failure | ⟨dirtyPages, rows⟩, executor'⟩
        · rcases read : readScan content (selectRow schema .star none) pageIds [] with
            failure' | rows
          · rw [read] at scanned
            exact congrArg Except.error (Except.error.inj scanned)
          · rw [read] at scanned
            cases scanned
        · rcases read : readScan content (selectRow schema .star none) pageIds [] with
            failure' | rows'
          · rw [read] at scanned
            cases scanned
          · rw [read] at scanned
            exact congrArg Except.ok (Prod.mk.inj (Except.ok.inj scanned)).2
      dsimp only
      rw [← found, bind_apply]
      rcases findRows table schema .star none pageIds executor with ⟨failure | rows, executor'⟩
      · rfl
      · rfl

end Rendering

end Executor

end VenomDb
