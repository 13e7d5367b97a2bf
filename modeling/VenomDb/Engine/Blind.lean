import VenomDb.Buffer.PageStore
import VenomDb.Engine.Survival

/-!
# What a query does not look at

The pool counts hits and misses and never reads the counters. A `SELECT` without a `WHERE` clause
reads the catalog, the page lists and the pool, and neither the log nor the files of the lists nor
the indexes. So states that differ in nothing else answer it alike.
-/

namespace VenomDb

open Fallible

namespace BufferPool

variable {poolSize : ℕ} {pool other : BufferPool poolSize} {frameId : Fin poolSize}

/-- Pools that differ in their counters only. -/
structure Twin (pool other : BufferPool poolSize) : Prop where
  frames : pool.frames = other.frames
  pageTable : pool.pageTable = other.pageTable
  replacer : pool.replacer = other.replacer
  disk : pool.disk = other.disk

theorem Twin.refl (pool : BufferPool poolSize) : Twin pool pool := ⟨rfl, rfl, rfl, rfl⟩

/-- One of them with the counters of the other is the other. -/
theorem Twin.eq (twin : Twin pool other) :
    other = { pool with hits := other.hits, misses := other.misses } := by
  rcases pool with ⟨_, _, _, _, _, _⟩
  rcases other with ⟨_, _, _, _, _, _⟩
  obtain rfl : _ = _ := twin.frames
  obtain rfl : _ = _ := twin.pageTable
  obtain rfl : _ = _ := twin.replacer
  obtain rfl : _ = _ := twin.disk
  rfl

theorem Twin.setFrame (twin : Twin pool other) (frameId : Fin poolSize) (frame : Frame) :
    Twin (pool.setFrame frameId frame) (other.setFrame frameId frame) := by
  refine ⟨?_, twin.pageTable, twin.replacer, twin.disk⟩
  simp only [BufferPool.setFrame, twin.frames]

theorem Twin.unpin (twin : Twin pool other) (frameId : Fin poolSize) (isDirty : Bool) :
    Twin (pool.unpin frameId isDirty) (other.unpin frameId isDirty) := by
  rw [twin.eq]
  simp only [BufferPool.unpin]
  split_ifs <;> exact ⟨rfl, rfl, rfl, rfl⟩

theorem Twin.install (twin : Twin pool other) (frameId : Fin poolSize) (page : Page)
    (isDirty : Bool) :
    Twin (BufferPool.install frameId page isDirty pool)
      (BufferPool.install frameId page isDirty other) := by
  rw [twin.eq]
  exact ⟨rfl, rfl, rfl, rfl⟩

theorem respects_onDisk {α : Type} (operation : Fallible Failure DiskManager α) :
    Respects Twin (onDisk operation : Fallible Failure (BufferPool poolSize) α) := by
  intro pool other twin
  rw [onDisk, onDisk, ← twin.disk]
  exact ⟨rfl, twin.frames, twin.pageTable, twin.replacer, rfl⟩

variable [Crc32]

theorem respects_writeFrame (frameId : Fin poolSize) : Respects Twin (writeFrame frameId) := by
  refine respects_get_bind (fun pool other twin => by rw [twin.frames]) fun pool => ?_
  cases (pool.frames frameId).page with
  | none => exact respects_pure ()
  | some page =>
      refine Respects.bind (respects_modify fun pool other twin => ?_) fun _ =>
        respects_onDisk _
      rw [twin.frames]
      exact twin.setFrame _ _

omit [Crc32] in
theorem respects_clearFrame (victimId : Fin poolSize) : Respects Twin (clearFrame victimId) := by
  refine Respects.bind (respects_modify fun pool other twin => ?_) fun _ =>
    Respects.bind (respects_modify fun pool other twin => twin.setFrame _ _) fun _ =>
      respects_pure _
  rw [twin.frames]
  cases (other.frames victimId).page with
  | none => exact twin
  | some page =>
      refine ⟨rfl, ?_, twin.replacer, twin.disk⟩
      exact congrArg (AList.erase page.id) twin.pageTable

theorem respects_findFreeFrame :
    Respects Twin (findFreeFrame : Fallible Failure (BufferPool poolSize) _) := by
  refine respects_get_bind (fun pool other twin => by rw [twin.frames, twin.replacer])
    fun pool => ?_
  cases (List.finRange poolSize).find? fun frameId => (pool.frames frameId).isEmpty with
  | some frameId => exact respects_pure _
  | none =>
      rcases pool.replacer.evict with _ | ⟨victimId, replacer⟩
      · exact respects_throw _
      · dsimp only
        refine Respects.bind (respects_modify fun _ _ twin =>
          ⟨twin.frames, twin.pageTable, rfl, twin.disk⟩) fun _ => ?_
        split_ifs
        · exact (respects_writeFrame victimId).bind fun _ => respects_clearFrame victimId
        · exact respects_clearFrame victimId

theorem respects_fetchPage (pageId : UInt32) :
    Respects Twin (fetchPage pageId : Fallible Failure (BufferPool poolSize) _) := by
  refine respects_get_bind (fun pool other twin => by rw [twin.pageTable, twin.frames])
    fun pool => ?_
  cases pool.pageTable.lookup pageId with
  | some frameId =>
      dsimp only
      split_ifs
      · refine Respects.bind (respects_modify fun pool other twin => ?_) fun _ => respects_pure _
        rw [twin.eq]
        exact ⟨rfl, rfl, rfl, rfl⟩
      · exact respects_throw _
  | none =>
      refine Respects.bind (respects_modify fun _ _ twin =>
        ⟨twin.frames, twin.pageTable, twin.replacer, twin.disk⟩) fun _ => ?_
      refine respects_findFreeFrame.bind fun frameId => ?_
      refine (respects_onDisk _).bind fun page => ?_
      exact Respects.bind (respects_modify fun _ _ twin => twin.install _ _ _) fun _ =>
        respects_pure _

end BufferPool

namespace Executor

open BufferPool

variable {executor other : Executor} {α : Type}

/-- States that a `SELECT` without a `WHERE` clause cannot tell apart. -/
structure Twin (executor other : Executor) : Prop where
  catalog : executor.catalog = other.catalog
  tablePages : executor.tablePages = other.tablePages
  pool : executor.bufferPool.Twin other.bufferPool

theorem Twin.getPage (twin : Twin executor other) (frameId : FrameId) :
    executor.bufferPool.getPage frameId = other.bufferPool.getPage frameId := by
  rw [BufferPool.getPage, BufferPool.getPage, twin.pool.frames]

theorem respects_schemaOf (table : String) : Respects Twin (schemaOf table) := by
  refine respects_get_bind (fun _ _ twin => by rw [twin.catalog]) fun executor => ?_
  cases executor.catalog.get table with
  | none => exact respects_throw _
  | some schema => exact respects_pure _

theorem respects_pagesOf (table : String) : Respects Twin (pagesOf table) := by
  refine respects_get_bind (fun _ _ twin => by rw [twin.tablePages]) fun executor => ?_
  cases executor.tablePages.lookup table with
  | none => exact respects_throw _
  | some pageIds => exact respects_pure _

theorem respects_getTuple (frameId : FrameId) (slotId : UInt16) :
    Respects Twin (getTuple frameId slotId) := by
  refine respects_get_bind (fun _ _ twin => by rw [twin.getPage]) fun executor => ?_
  cases executor.bufferPool.getPage frameId with
  | none => exact respects_pure _
  | some page => exact respects_ofExcept _

theorem respects_slots (frameId : FrameId) : Respects Twin (slots frameId) := by
  refine respects_get_bind (fun _ _ twin => by rw [twin.getPage]) fun executor => ?_
  cases executor.bufferPool.getPage frameId with
  | none => exact respects_pure _
  | some page => exact respects_pure _

theorem respects_unpin (frameId : FrameId) (dirty : Bool) :
    Respects Twin (modifyPool (BufferPool.unpin frameId dirty)) :=
  respects_modify fun _ _ twin => ⟨twin.catalog, twin.tablePages, twin.pool.unpin _ _⟩

theorem respects_scanSlots {frameId : FrameId}
    {body : UInt16 → Bool → Bytes → α → Action (Bool × α)}
    (respects : ∀ slotId dirty tuple result, Respects Twin (body slotId dirty tuple result))
    (slotIds : List UInt16) (dirty : Bool) (result : α) :
    Respects Twin (scanSlots frameId body slotIds dirty result) := by
  induction slotIds generalizing dirty result with
  | nil => exact respects_pure _
  | cons slotId slotIds ih =>
      refine (respects_getTuple frameId slotId).bind fun found => ?_
      cases found with
      | none => exact ih dirty result
      | some tuple => exact (respects slotId dirty tuple result).bind fun changed => ih _ _

variable [Crc32]

theorem respects_fetchPage (pageId : UInt32) : Respects Twin (fetchPage pageId) := by
  refine Respects.mapError ?_ _
  intro executor other twin
  rcases BufferPool.respects_fetchPage pageId _ _ twin.pool with ⟨same, twin'⟩
  exact ⟨same, twin.catalog, twin.tablePages, twin'⟩

theorem respects_scanPages
    {body : UInt32 → FrameId → UInt16 → Bool → Bytes → α → Action (Bool × α)}
    (respects : ∀ pageId frameId slotId dirty tuple result,
      Respects Twin (body pageId frameId slotId dirty tuple result))
    (pageIds : List UInt32) (result : α) : Respects Twin (scanPages body pageIds result) := by
  induction pageIds generalizing result with
  | nil => exact respects_pure _
  | cons pageId pageIds ih =>
      refine (respects_fetchPage pageId).bind fun frameId => ?_
      refine (respects_slots frameId).bind fun slotIds => ?_
      refine (respects_scanSlots (respects pageId frameId) slotIds false result).bind
        fun scanned => ?_
      exact (respects_unpin _ _).bind fun _ => (ih _).bind fun _ => respects_pure _

theorem respects_seqScan (schema : Schema) (columns : SelectColumns) (filter : Option Expr)
    (pageIds : List UInt32) : Respects Twin (seqScan schema columns filter pageIds) := by
  refine (respects_scanPages (fun _ _ _ _ _ _ => ?_) pageIds []).bind fun _ => respects_pure _
  exact (respects_ofExcept _).bind fun _ => respects_pure _

variable [Build]

/-- Twins answer alike. -/
theorem Twin.selectAll (twin : Twin executor other) (table : String) :
    executor.selectAll table = other.selectAll table := by
  have respects : Respects Twin (execSelect table .star none none none) := by
    refine (respects_schemaOf table).bind fun schema => ?_
    refine (respects_pagesOf table).bind fun pageIds => ?_
    refine Respects.bind (respects_seqScan schema .star none pageIds) fun results => ?_
    exact (respects_ofExcept _).bind fun sorted => respects_ofExcept _
  exact (respects executor other twin).1

/-- Without the log manager's copies. -/
def uncopied (executor : Executor) : Executor := { executor with wal := WalManager.new [] }

omit [Crc32] [Build] in
theorem twin_uncopied (executor : Executor) : Twin executor executor.uncopied :=
  ⟨rfl, rfl, .refl _⟩

omit [Build] in
/-- A heap that shows what the pool shows. -/
theorem reflects_uncopied (coherent : executor.bufferPool.Coherent none) {heap : Heap}
    (shown : ∀ {pageId page}, heap pageId = some page →
      ∃ data, executor.bufferPool.view pageId = some data ∧ Represents data page) :
    Reflects executor.uncopied
      { toCore := executor.uncopied.core, heap := heap, shadow := fun _ => none } none :=
  ⟨rfl, coherent, shown, fun _ => trivial⟩

/-- A scan that finds its frames gives the rows that the heap has on the listed pages. -/
theorem Reflects.selectAll_of_listed {logical : Logical} (reflects : Reflects executor logical none)
    (ready : executor.Ready) (table : String)
    (listed : ∀ pageIds, logical.tablePages.lookup table = some pageIds →
      pageIds.Nodup ∧ ∀ pageId ∈ pageIds, (logical.heap pageId).isSome) :
    executor.selectAll table = logical.selectAll table := by
  rw [Logical.selectAll_eq, Executor.selectAll, execSelect]
  cases known : logical.catalog.get table with
  | none => rw [bind_error (reflects.schemaOf_none known)]
  | some schema =>
      rw [bind_ok (reflects.schemaOf_some known)]
      cases here : logical.tablePages.lookup table with
      | none => rw [bind_error (reflects.pagesOf_none here)]
      | some pageIds =>
          rw [bind_ok (reflects.pagesOf_some here)]
          rcases listed pageIds here with ⟨nodup, present⟩
          rcases seqScan_ends schema .star none reflects nodup present with
            ends | noFrame | overpins
          · have scanned : findRows table schema .star none pageIds executor =
                seqScan schema .star none pageIds executor := rfl
            rw [bind_apply, scanned]
            dsimp only
            rw [← ends.1]
            rcases seqScan schema .star none pageIds executor with ⟨failure | rows, executor'⟩
            · rfl
            · rfl
          · exact absurd noFrame.full ready.not_full
          · exact absurd overpins.overpinned ready.not_overpinned

/-- What a query gives depends on what the pool shows, as long as it can have a frame. -/
theorem selectAll_of_views (coherent : executor.bufferPool.Coherent none)
    (coherent' : other.bufferPool.Coherent none) (ready : executor.Ready) (ready' : other.Ready)
    (catalog : other.catalog = executor.catalog)
    (tablePages : other.tablePages = executor.tablePages)
    (views : ∀ {pageId data}, executor.bufferPool.view pageId = some data →
      other.bufferPool.view pageId = some data) (table : String)
    (listed : ∀ pageIds, executor.tablePages.lookup table = some pageIds → pageIds.Nodup ∧
      ∀ pageId ∈ pageIds, ∃ data page, executor.bufferPool.view pageId = some data ∧
        Represents data page) :
    other.selectAll table = executor.selectAll table := by
  have pages (pageId : UInt32) : ∃ found : Option SlottedPage,
      (∀ page, found = some page →
        ∃ data, executor.bufferPool.view pageId = some data ∧ Represents data page) ∧
      ((∃ data page, executor.bufferPool.view pageId = some data ∧ Represents data page) →
        found.isSome) := by
    by_cases present : ∃ data page, executor.bufferPool.view pageId = some data ∧
      Represents data page
    · rcases present with ⟨data, page, seen, represents⟩
      refine ⟨some page, ?_, fun _ => rfl⟩
      rintro _ ⟨⟩
      exact ⟨data, seen, represents⟩
    · exact ⟨none, by simp, fun found => absurd found present⟩
  choose heap shown present using pages
  have reflects := reflects_uncopied coherent (fun {pageId page} => shown pageId page)
  have reflects' : Reflects other.uncopied
      { toCore := other.uncopied.core, heap := heap, shadow := fun _ => none } none := by
    apply reflects_uncopied coherent'
    intro pageId page found
    rcases shown pageId page found with ⟨data, seen, represents⟩
    exact ⟨data, views seen, represents⟩
  have inside (pageIds : List UInt32) (here : executor.tablePages.lookup table = some pageIds) :
      pageIds.Nodup ∧ ∀ pageId ∈ pageIds, (heap pageId).isSome :=
    ⟨(listed pageIds here).1, fun pageId isListed =>
      present pageId ((listed pageIds here).2 pageId isListed)⟩
  rw [(twin_uncopied other).selectAll, (twin_uncopied executor).selectAll,
    reflects'.selectAll_of_listed ⟨ready'.available, ready'.pinnable⟩ table (fun pageIds here =>
      inside pageIds (tablePages ▸ here)),
    reflects.selectAll_of_listed ⟨ready.available, ready.pinnable⟩ table inside]
  exact Logical.selectAll_congr (congrArg (Catalog.get · table) catalog)
    (congrArg (AList.lookup table) tablePages) rfl

end Executor

end VenomDb
