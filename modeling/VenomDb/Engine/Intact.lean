import VenomDb.Buffer.Versions
import VenomDb.Engine.Legible
import VenomDb.Engine.Ownership
import VenomDb.Engine.Pins

/-!
# Pages keep to the schema of their table

A page is typed by the schema of the table it was allocated for, and every version of it, in a
frame, in the file or with the log manager, holds tuples of that type. No statement breaks this,
whether it returns `Ok` or `Err`, and neither does opening the directory again: the records of
the log are typed in the same way.
-/

namespace VenomDb

open Fallible BufferPool

variable [Crc32]

/-- What a version of a page says about the type of the page. -/
def Spelled (owner : UInt32 → Option Schema) (pageId : UInt32) (data : PageData) : Prop :=
  ∀ schema, owner pageId = some schema → Spells schema data

omit [Crc32] in
theorem unhashed_spelled (owner : UInt32 → Option Schema) : Unhashed (Spelled owner) :=
  fun _ _ _ same spelled schema isOwner => (spelled schema isOwner).congr_cleared same

section Log

variable {owner : UInt32 → Option Schema} {log : List LogRecord}

omit [Crc32] in
@[simp]
theorem LogRecord.pageId_withLsn (lsn : UInt64) (record : LogRecord) :
    (record.withLsn lsn).pageId = record.pageId := by
  cases record <;> rfl

omit [Crc32] in
@[simp]
theorem LogRecord.legible_withLsn {schema : Schema} (lsn : UInt64) (record : LogRecord) :
    (record.withLsn lsn).Legible schema ↔ record.Legible schema := by
  cases record <;> rfl

omit [Crc32] in
theorem WalManager.Attributed.append {record : LogRecord}
    (attributed : WalManager.Attributed owner log)
    (new : ∀ pageId, record.pageId = some pageId →
      ∃ schema, owner pageId = some schema ∧ record.Legible schema) (lsn : UInt64) :
    WalManager.Attributed owner (log ++ [record.withLsn lsn]) := by
  intro other inside pageId isPage
  rcases List.mem_append.mp inside with inside | inside
  · exact attributed other inside pageId isPage
  · obtain rfl := List.mem_singleton.mp inside
    rw [LogRecord.pageId_withLsn] at isPage
    simpa using new pageId isPage

end Log

namespace Executor

/-- The types of the pages. The page that an `INSERT` allocates is `young` until it is flushed. -/
structure Intact (catalog : Catalog) (owner : UInt32 → Option Schema) (young : Option UInt32)
    (executor : Executor) : Prop where
  known : executor.catalog = catalog
  schemas : ∀ {table schema}, catalog.get table = some schema →
    schema = Schema.new table schema.columns
  filed : ∀ table, (CatalogFile.load executor.catalogFile).get table = catalog.get table
  listed : ∀ {table pageIds pageId}, executor.Lists table pageIds → pageId ∈ pageIds →
    ∃ schema, catalog.get table = some schema ∧ owner pageId = some schema
  tabled : executor.bufferPool.Tabled
  onFile : ∀ {pageId}, (owner pageId).isSome → young ≠ some pageId →
    executor.bufferPool.OnFile pageId
  youth : ∀ {pageId}, young = some pageId → executor.bufferPool.Visible pageId
  versions : Shows False (fun pageId => (owner pageId).isSome ∧ young ≠ some pageId)
    (Spelled owner) executor.bufferPool
  youngVersions : Shows True (fun pageId => young = some pageId) (Spelled owner)
    executor.bufferPool
  copies : ∀ {pageId page}, executor.wal.pages.lookup pageId = some page →
    pageId.toNat < executor.bufferPool.disk.numPages.toNat ∧ Spelled owner pageId page.data
  attributed : WalManager.Attributed owner executor.wal.log

variable {catalog : Catalog} {owner : UInt32 → Option Schema} {young : Option UInt32}
  {executor executor' : Executor} {pageId : UInt32} {frameId : FrameId} {schema : Schema}

theorem Intact.visible (intact : Intact catalog owner young executor)
    (isOwned : (owner pageId).isSome) : executor.bufferPool.Visible pageId := by
  by_cases isYoung : young = some pageId
  · exact intact.youth isYoung
  · exact .inr (intact.onFile isOwned isYoung)

theorem Intact.lt_numPages (intact : Intact catalog owner young executor)
    (isOwned : (owner pageId).isSome) :
    pageId.toNat < executor.bufferPool.disk.numPages.toNat :=
  intact.tabled.lt_of_visible (intact.visible isOwned)

/-- Every frame holds a page of its type. -/
theorem Intact.frame (intact : Intact catalog owner young executor) {page : Page}
    (held : executor.bufferPool.getPage frameId = some page) : Spelled owner page.id page.data := by
  intro schema isOwner
  by_cases isYoung : young = some page.id
  · exact intact.youngVersions.frame held isYoung schema isOwner
  · exact intact.versions.frame held ⟨by simp [isOwner], isYoung⟩ schema isOwner

section Parts

variable {α : Type}

theorem Intact.record (intact : Intact catalog owner young executor) :
    Intact catalog owner young executor.record :=
  ⟨intact.known, intact.schemas, intact.filed, intact.listed, intact.tabled, intact.onFile,
    intact.youth, intact.versions, intact.youngVersions, intact.copies, intact.attributed⟩

/-- The pool changes, and no page is lost. -/
theorem Intact.pool {pool : BufferPool frameCount} (intact : Intact catalog owner young executor)
    (retains : Retains executor.bufferPool pool)
    (versions : Shows False (fun pageId => (owner pageId).isSome ∧ young ≠ some pageId)
      (Spelled owner) pool)
    (youngVersions : Shows True (fun pageId => young = some pageId) (Spelled owner) pool) :
    Intact catalog owner young (Executor.record { executor with bufferPool := pool }) := by
  have changed : Intact catalog owner young { executor with bufferPool := pool } :=
    ⟨intact.known, intact.schemas, intact.filed, intact.listed, retains.tabled,
      fun isOwned notYoung => retains.onFile (intact.onFile isOwned notYoung),
      fun isYoung => retains.visible (intact.youth isYoung), versions, youngVersions,
      fun found => (intact.copies found).imp_left fun bound => bound.trans_le retains.numPages,
      intact.attributed⟩
  exact changed.record

/-- A call of the pool that keeps what holds of all versions. -/
theorem Intact.onPool {call : Fallible Failure (BufferPool frameCount) α} {fails : Failure → Prop}
    (intact : Intact catalog owner young executor)
    (also : BufferPool frameCount → α → BufferPool frameCount → Prop)
    (upholds : ∀ (hides : Prop) (relevant : UInt32 → Prop) (base : BufferPool frameCount),
      (∀ pageId, relevant pageId → base.Kept hides pageId) →
      Ends (Upholds hides relevant (Spelled owner) base) call
        (fun value pool => Upholds hides relevant (Spelled owner) base pool ∧ also base value pool)
        (fun failure pool => fails failure ∧ Upholds hides relevant (Spelled owner) base pool)) :
    match onPool call executor with
    | (.ok value, executor') => Intact catalog owner young executor' ∧
        also executor.bufferPool value executor'.bufferPool ∧ executor'.wal = executor.wal
    | (.error failure, executor') => fails failure ∧ Intact catalog owner young executor' := by
  have old := upholds False _ executor.bufferPool
    (fun pageId relevant => .inl (intact.onFile relevant.1 relevant.2))
    executor.bufferPool ⟨intact.tabled.retains, intact.versions⟩
  have new := upholds True _ executor.bufferPool
    (fun pageId relevant => .inr ⟨trivial, intact.youth relevant⟩)
    executor.bufferPool ⟨intact.tabled.retains, intact.youngVersions⟩
  rw [Executor.onPool]
  generalize call executor.bufferPool = outcome at old new ⊢
  rcases outcome with ⟨failure | value, pool⟩
  · exact ⟨old.1, intact.pool old.2.retains old.2.versions new.2.versions⟩
  · exact ⟨intact.pool old.1.retains old.1.versions new.1.versions, old.2, rfl⟩

/-- A page of the table is in a frame. -/
structure Within (catalog : Catalog) (owner : UInt32 → Option Schema) (young : Option UInt32)
    (pageId : UInt32) (frameId : FrameId) (executor : Executor) : Prop where
  intact : Intact catalog owner young executor
  resident : executor.bufferPool.pageTable.lookup pageId = some frameId

theorem Within.held (within : Within catalog owner young pageId frameId executor) :
    ∃ page, executor.bufferPool.getPage frameId = some page ∧ page.id = pageId :=
  within.intact.tabled.table within.resident

theorem intact_onPool_fetchPage (pageId : UInt32) :
    Ends (Intact catalog owner young) (Executor.onPool (BufferPool.fetchPage pageId))
      (Within catalog owner young pageId)
      (fun failure executor => ((∃ error, failure = .io error) ∨ failure = .panic .overflow) ∧
        Intact catalog owner young executor) := by
  intro executor intact
  have upholds (hides : Prop) (relevant : UInt32 → Prop) (base : BufferPool frameCount)
      (known : ∀ pageId, relevant pageId → base.Kept hides pageId) :
      Ends (Upholds hides relevant (Spelled owner) base) (BufferPool.fetchPage pageId)
        (fun frameId pool => Upholds hides relevant (Spelled owner) base pool ∧
          pool.pageTable.lookup pageId = some frameId)
        (fun failure pool => ((∃ error, failure = .io error) ∨ failure = .panic .overflow) ∧
          Upholds hides relevant (Spelled owner) base pool) :=
    (shows_fetchPage (unhashed_spelled owner) known pageId).failing
      fun _ _ ended => ⟨ended.1.imp_right And.left, ended.2⟩
  have fetched := intact.onPool
    (fun _ frameId pool => pool.pageTable.lookup pageId = some frameId) upholds
  generalize Executor.onPool (BufferPool.fetchPage pageId) executor = outcome at fetched ⊢
  rcases outcome with ⟨failure | frameId, executor'⟩
  · exact fetched
  · exact ⟨fetched.1, fetched.2.1⟩

/-- How a statement may fail without a panic. -/
def Refused (catalog : Catalog) (owner : UInt32 → Option Schema) (young : Option UInt32)
    (failure : Failure) (executor : Executor) : Prop :=
  ¬IsPanic failure ∧ Intact catalog owner young executor

theorem intact_fetchPage (pageId : UInt32) :
    Ends (Intact catalog owner young) (fetchPage pageId) (Within catalog owner young pageId)
      (fun _ => Intact catalog owner young) :=
  (intact_onPool_fetchPage pageId).mapError fun _ _ ended => ended.2

theorem Intact.unpin (intact : Intact catalog owner young executor) (frameId : FrameId)
    (dirty : Bool) : Intact catalog owner young
      (Executor.record { executor with bufferPool := executor.bufferPool.unpin frameId dirty }) :=
  intact.pool (intact.tabled.retains.unpin frameId dirty) (intact.versions.unpin frameId dirty)
    (intact.youngVersions.unpin frameId dirty)

theorem intact_unpin (frameId : FrameId) (dirty : Bool) {failed : Failure → Executor → Prop} :
    Ends (Intact catalog owner young) (modifyPool (BufferPool.unpin frameId dirty))
      (fun _ => Intact catalog owner young) failed :=
  ends_modify fun _ intact => intact.unpin frameId dirty

/-- The indexes play no part. -/
theorem intact_modifyIndexes (change : IndexManager → IndexManager)
    {failed : Failure → Executor → Prop} :
    Ends (Intact catalog owner young) (modifyIndexes change) (fun _ => Intact catalog owner young)
      failed :=
  ends_modify fun _ intact => ⟨intact.known, intact.schemas, intact.filed, intact.listed,
    intact.tabled, intact.onFile, intact.youth, intact.versions, intact.youngVersions,
    intact.copies, intact.attributed⟩

/-- A page changes in its frame. -/
theorem Within.setPage {page page' : Page}
    (within : Within catalog owner young pageId frameId executor)
    (held : executor.bufferPool.getPage frameId = some page) (sameId : page'.id = page.id)
    (spelled : Spelled owner page.id page'.data) : Within catalog owner young pageId frameId
      (Executor.record { executor with bufferPool := executor.bufferPool.setPage frameId page' }) :=
  ⟨within.intact.pool (within.intact.tabled.retains.setPage held sameId)
    (within.intact.versions.setPage held sameId fun _ => spelled)
    (within.intact.youngVersions.setPage held sameId fun _ => spelled), within.resident⟩

/-- A read of a page of the table gives a legible tuple. -/
theorem within_getTuple (isOwner : owner pageId = some schema) (slotId : UInt16)
    {failed : Failure → Executor → Prop} :
    Ends (Within catalog owner young pageId frameId) (getTuple frameId slotId)
      (fun found executor => Within catalog owner young pageId frameId executor ∧
        ∀ tuple ∈ found, Legible schema tuple ∧ tuple.length < 2 ^ 16) failed := by
  refine ends_get_bind fun executor within => ?_
  rcases within.held with ⟨page, held, rfl⟩
  rcases (within.intact.frame held schema isOwner).getTuple slotId with ⟨found, run, legible⟩
  rw [held]
  dsimp only
  rw [run]
  exact ends_pure fun _ same => same ▸ ⟨within, legible⟩

theorem within_slots {failed : Failure → Executor → Prop} :
    Ends (Within catalog owner young pageId frameId) (slots frameId)
      (fun _ => Within catalog owner young pageId frameId) failed := by
  refine ends_get_then fun executor => ?_
  split <;> exact ends_pure fun _ within => within

/-- A change of a page that keeps its tuples legible. -/
theorem within_onPage {default : α} {operation : Page → Except Failure (α × Page)}
    (sameId : ∀ {page out}, operation page = .ok out → out.2.id = page.id)
    (spells : ∀ {schema page out}, owner pageId = some schema → Spells schema page.data →
      operation page = .ok out → Spells schema out.2.data)
    {failed : Failure → Executor → Prop}
    (panics : ∀ page failure executor, operation page = .error failure → failed failure executor) :
    Ends (Within catalog owner young pageId frameId) (onPage frameId default operation)
      (fun _ => Within catalog owner young pageId frameId) failed := by
  refine ends_get_bind fun executor within => ?_
  rcases within.held with ⟨page, held, rfl⟩
  rintro _ rfl
  rw [held]
  dsimp only
  rcases run : operation page with failure | out
  · exact panics page failure _ run
  · rw [ofExcept_ok_bind]
    refine within.setPage held (sameId run) fun schema isOwner => ?_
    exact spells isOwner (within.intact.frame held schema isOwner) run

end Parts

section Log

variable {txnId : UInt32} {slotId : UInt16}

/-- The log manager changes. -/
theorem Intact.wal {wal : WalManager} (intact : Intact catalog owner young executor)
    (copies : ∀ {pageId page}, wal.pages.lookup pageId = some page →
      pageId.toNat < executor.bufferPool.disk.numPages.toNat ∧ Spelled owner pageId page.data)
    (attributed : WalManager.Attributed owner wal.log) :
    Intact catalog owner young (Executor.record { executor with wal := wal }) := by
  have changed : Intact catalog owner young { executor with wal := wal } :=
    ⟨intact.known, intact.schemas, intact.filed, intact.listed, intact.tabled, intact.onFile,
      intact.youth, intact.versions, intact.youngVersions, copies, attributed⟩
  exact changed.record

/-- A record is appended that is not about a page. -/
theorem Intact.mark (intact : Intact catalog owner young executor) {record : LogRecord}
    (isMark : record.pageId = none) (lsn : UInt64) :
    WalManager.Attributed owner (executor.wal.log ++ [record.withLsn lsn]) :=
  intact.attributed.append (by simp [isMark]) lsn

theorem intact_beginTxn :
    Ends (Intact catalog owner young) (onWal WalManager.beginTxn)
      (fun _ => Intact catalog owner young)
      (fun failure executor => IsPanic failure ∧ Intact catalog owner young executor) := by
  intro executor intact
  rw [onWal, WalManager.beginTxn]
  dsimp only
  split_ifs
  · exact intact.wal intact.copies (intact.mark rfl _)
  · exact ⟨⟨_, rfl⟩, intact.wal intact.copies intact.attributed⟩

theorem intact_commit (txnId : UInt32) {failed : Failure → Executor → Prop} :
    Ends (Intact catalog owner young) (onWal (WalManager.commit txnId))
      (fun _ => Intact catalog owner young) failed :=
  fun _ intact => intact.wal intact.copies (intact.mark rfl _)

theorem intact_abort (txnId : UInt32) {failed : Failure → Executor → Prop} :
    Ends (Intact catalog owner young) (onWal (WalManager.abort txnId))
      (fun _ => Intact catalog owner young) failed :=
  fun _ intact => intact.wal intact.copies (intact.mark rfl _)

/-- A call of the log manager does not touch the pool. -/
theorem within_onWal {α : Type} {call : Fallible Failure WalManager α}
    {failed : Failure → Executor → Prop}
    (kept : Ends (Intact catalog owner young) (onWal call) (fun _ => Intact catalog owner young)
      failed) :
    Ends (Within catalog owner young pageId frameId) (onWal call)
      (fun _ => Within catalog owner young pageId frameId) failed := by
  rintro executor ⟨intact, resident⟩
  have ended := kept executor intact
  rw [onWal] at ended ⊢
  generalize call executor.wal = outcome at ended ⊢
  rcases outcome with ⟨_ | _, wal⟩
  · exact ended
  · exact ⟨ended, resident⟩

theorem intact_logUpdate {oldBytes newBytes : Bytes} (isOwner : owner pageId = some schema)
    (old : Legible schema oldBytes) (new : Legible schema newBytes)
    {failed : Failure → Executor → Prop} :
    Ends (Intact catalog owner young)
      (onWal (WalManager.logUpdate txnId pageId slotId oldBytes newBytes))
      (fun _ => Intact catalog owner young) failed := by
  intro executor intact
  refine intact.wal intact.copies (intact.attributed.append ?_ _)
  intro other isPage
  obtain rfl : pageId = other := Option.some.inj isPage
  exact ⟨schema, isOwner, old, new⟩

/-- Copies of pages after one of them was changed. -/
theorem Intact.copies_insert {page : Page} (intact : Intact catalog owner young executor)
    (bound : pageId.toNat < executor.bufferPool.disk.numPages.toNat)
    (spelled : Spelled owner pageId page.data) {other : UInt32} {found : Page}
    (isFound : (executor.wal.pages.insert pageId page).lookup other = some found) :
    other.toNat < executor.bufferPool.disk.numPages.toNat ∧ Spelled owner other found.data := by
  by_cases same : other = pageId
  · subst same
    rw [AList.lookup_insert, Option.some.injEq] at isFound
    exact ⟨bound, isFound ▸ spelled⟩
  · rw [AList.lookup_insert_ne same] at isFound
    exact intact.copies isFound

theorem intact_logDelete (isOwner : owner pageId = some schema) (slotId : UInt16)
    {failed : Failure → Executor → Prop} :
    Ends (Intact catalog owner young) (onWal (WalManager.logDelete txnId pageId slotId))
      (fun _ => Intact catalog owner young) failed := by
  intro executor intact
  have logged {oldData : Bytes} (legible : Legible schema oldData) (lsn : UInt64) :
      WalManager.Attributed owner (executor.wal.log ++
        [LogRecord.withLsn lsn (.delete 0 txnId pageId slotId oldData)]) := by
    refine intact.attributed.append ?_ lsn
    intro other isPage
    obtain rfl : pageId = other := Option.some.inj isPage
    exact ⟨schema, isOwner, legible⟩
  rcases found : executor.wal.pages.lookup pageId with _ | page
  · have run : WalManager.logDelete txnId pageId slotId executor.wal =
        (.ok false, WalManager.append (.delete 0 txnId pageId slotId []) executor.wal) := by
      rw [WalManager.logDelete, get_bind, found]
      rfl
    rw [onWal, run]
    exact intact.wal intact.copies (logged (legible_nil schema) _)
  · have spells := (intact.copies found).2 schema isOwner
    rcases spells.getTuple slotId with ⟨oldData, read, legible⟩
    rcases spells.deleteTuple slotId with ⟨⟨deleted, page'⟩, done, spells'⟩
    have run : WalManager.logDelete txnId pageId slotId executor.wal =
        (.ok deleted, WalManager.append (.delete 0 txnId pageId slotId (oldData.getD []))
          { executor.wal with pages := executor.wal.pages.insert pageId page' }) := by
      rw [WalManager.logDelete, get_bind, found]
      dsimp only
      rw [read, ofExcept_ok_bind, done, ofExcept_ok_bind]
      rfl
    rw [onWal, run]
    refine intact.wal (intact.copies_insert (intact.copies found).1 ?_) (logged ?_ _)
    · intro other isOther
      obtain rfl : schema = other := Option.some.inj (isOwner.symm.trans isOther)
      exact spells'
    · cases oldData with
      | none => exact legible_nil schema
      | some tuple => exact (legible tuple rfl).1

end Log

end Executor

end VenomDb
