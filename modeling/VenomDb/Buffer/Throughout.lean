import VenomDb.Buffer.Versions

/-!
# All pages, in memory and in the file

What holds of a new page and of a hole in the file, whatever the checksum, holds of all pages in
frames and of all pages of the file as long as callers keep it. It does not matter which version of
a page hides which, nor whether the operating system refuses a write.
-/

namespace VenomDb

open Fallible

/-- Something holds of all pages in frames and of all pages of a file. -/
structure Covers {poolSize : ℕ} (holds : UInt32 → PageData → Prop)
    (frames : Fin poolSize → Option Page) (file : List PageData) : Prop where
  frame : ∀ {frameId page}, frames frameId = some page → holds page.id page.data
  file : ∀ {pageId : UInt32} {data}, file[pageId.toNat]? = some data → holds pageId data

theorem Covers.mono {poolSize : ℕ} {holds holds' : UInt32 → PageData → Prop}
    {frames : Fin poolSize → Option Page} {file : List PageData} (covers : Covers holds frames file)
    (weaker : ∀ pageId data, holds pageId data → holds' pageId data) :
    Covers holds' frames file :=
  ⟨fun held => weaker _ _ (covers.frame held), fun present => weaker _ _ (covers.file present)⟩

namespace DiskManager

/-- A page of the file after a write is the page that was written, an old one or a hole. -/
theorem getElem?_store_cases {file : List PageData} {index other : ℕ} {data found : PageData}
    (present : (store file index data)[other]? = some found) :
    other = index ∧ found = data ∨ file[other]? = some found ∨ found = Memory.zeroed := by
  by_cases same : other = index
  · subst same
    rw [getElem?_store_self] at present
    exact .inl ⟨rfl, (Option.some.inj present).symm⟩
  · rw [store, List.getElem?_set_ne (Ne.symm same), List.getElem?_append] at present
    split_ifs at present with inside
    · exact .inr (.inl present)
    · exact .inr (.inr (List.eq_of_mem_replicate (List.mem_of_getElem? present)))

/-- A write goes through or leaves the file alone. -/
theorem file_writePage [Crc32] (page : Page) (disk : DiskManager) :
    (writePage page disk).2.file = disk.file ∨
      (writePage page disk).2.file =
        store disk.file page.id.toNat page.data.finalizeChecksum := by
  rw [writePage, bind_apply, systemCall]
  rcases disk.faults with _ | ⟨_ | _, faults⟩
  · exact .inr rfl
  · exact .inr rfl
  · exact .inl rfl

end DiskManager

namespace BufferPool

variable {poolSize : ℕ} {pool : BufferPool poolSize} {holds : UInt32 → PageData → Prop}
  {frameId : Fin poolSize} {page page' : Page}

/-- Something holds of all pages of a pool. -/
def Throughout (holds : UInt32 → PageData → Prop) (pool : BufferPool poolSize) : Prop :=
  Covers holds pool.getPage pool.disk.file

/-- A frame changes. -/
theorem Throughout.setFrame {frame : Frame} (throughout : Throughout holds pool)
    (content : ∀ page, frame.page = some page → holds page.id page.data) :
    Throughout holds (pool.setFrame frameId frame) := by
  refine ⟨?_, throughout.file⟩
  intro other page held
  rw [getPage] at held
  by_cases same : other = frameId
  · subst same
    rw [setFrame_frames_self] at held
    exact content page held
  · rw [setFrame_frames_of_ne same] at held
    exact throughout.frame held

/-- The queue, the page table and the counters do not matter. -/
theorem Throughout.of_eq {pool' : BufferPool poolSize} (throughout : Throughout holds pool)
    (frames : pool'.frames = pool.frames) (file : pool'.disk.file = pool.disk.file) :
    Throughout holds pool' := by
  refine ⟨?_, ?_⟩
  · intro other page held
    rw [getPage, frames] at held
    exact throughout.frame held
  · rw [file]
    exact throughout.file

theorem Throughout.setPage (throughout : Throughout holds pool)
    (content : holds page'.id page'.data) : Throughout holds (pool.setPage frameId page') := by
  refine throughout.setFrame ?_
  intro other same
  obtain rfl : page' = other := Option.some.inj same
  exact content

/-- A page stays in its frame when it is unpinned. -/
theorem getPage_unpin (pool : BufferPool poolSize) (frameId other : Fin poolSize)
    (isDirty : Bool) : (pool.unpin frameId isDirty).getPage other = pool.getPage other := by
  have kept (frame : Frame) (same : frame.page = (pool.frames frameId).page) :
      ((pool.setFrame frameId frame).frames other).page = (pool.frames other).page := by
    by_cases here : other = frameId
    · subst here
      rw [setFrame_frames_self, same]
    · rw [setFrame_frames_of_ne here]
  rw [BufferPool.unpin, getPage, getPage]
  dsimp only
  split_ifs
  · rfl
  · exact kept _ rfl
  · exact kept _ rfl

theorem Throughout.unpin (throughout : Throughout holds pool) (frameId : Fin poolSize)
    (isDirty : Bool) : Throughout holds (pool.unpin frameId isDirty) := by
  refine ⟨?_, ?_⟩
  · intro other page held
    rw [getPage_unpin] at held
    exact throughout.frame held
  · rw [disk_unpin]
    exact throughout.file

theorem Throughout.install {isDirty : Bool} (throughout : Throughout holds pool)
    (content : holds page.id page.data) :
    Throughout holds (pool.install frameId page isDirty) := by
  have framed : Throughout holds (pool.setFrame frameId ⟨some page, 1, isDirty⟩) := by
    refine throughout.setFrame ?_
    intro other same
    obtain rfl : page = other := Option.some.inj same
    exact content
  exact framed.of_eq rfl rfl

section Calls

variable [Crc32]

/-- It holds of holes in the file, and the checksum field plays no part. -/
structure Lenient (holds : UInt32 → PageData → Prop) : Prop where
  hole : ∀ pageId, holds pageId Memory.zeroed
  unhashed : Unhashed holds

variable (lenient : Lenient holds)

include lenient

theorem throughout_writeFrame (frameId : Fin poolSize) :
    Keeps (Throughout holds) (writeFrame frameId) := by
  refine keeps_get_bind fun pool throughout => ?_
  cases held : (pool.frames frameId).page with
  | none => exact throughout
  | some page =>
      have content : holds page.id page.data.finalizeChecksum :=
        lenient.unhashed _ _ _ page.data.cleared_finalizeChecksum (throughout.frame held)
      have summed : Throughout holds (pool.setFrame frameId { pool.frames frameId with
          page := some { page with data := page.data.finalizeChecksum } }) := by
        refine throughout.setFrame ?_
        rintro other ⟨⟩
        exact content
      dsimp only
      rw [modify_bind, onDisk]
      generalize pool.setFrame frameId _ = framed at summed ⊢
      refine ⟨summed.frame, ?_⟩
      rcases DiskManager.file_writePage page framed.disk with same | written
      · intro pageId data present
        change (DiskManager.writePage page framed.disk).2.file[pageId.toNat]? = _ at present
        rw [same] at present
        exact summed.file present
      · intro pageId data present
        change (DiskManager.writePage page framed.disk).2.file[pageId.toNat]? = _ at present
        rw [written] at present
        rcases DiskManager.getElem?_store_cases present with ⟨here, rfl⟩ | old | rfl
        · rw [UInt32.toNat.inj here]
          exact content
        · exact summed.file old
        · exact lenient.hole pageId

omit lenient [Crc32] in
theorem throughout_clearFrame (victimId : Fin poolSize) :
    Keeps (Throughout holds) (clearFrame victimId) := by
  refine Keeps.bind (keeps_modify fun pool throughout => ?_) fun _ => ?_
  · cases (pool.frames victimId).page with
    | none => exact throughout
    | some page => exact throughout.of_eq rfl rfl
  · refine Keeps.bind (keeps_modify fun pool throughout => ?_) fun _ => keeps_pure _
    exact throughout.setFrame (by simp [Frame.new])

theorem throughout_findFreeFrame :
    Keeps (Throughout holds) (findFreeFrame : Fallible Failure (BufferPool poolSize) _) := by
  refine keeps_get_bind fun pool => ?_
  cases (List.finRange poolSize).find? fun frameId => (pool.frames frameId).isEmpty with
  | some frameId => exact id
  | none =>
      rcases pool.replacer.evict with _ | ⟨victimId, replacer⟩
      · exact id
      · dsimp only
        refine Keeps.bind (keeps_modify fun _ throughout => throughout.of_eq rfl rfl)
          (fun _ => ?_) pool
        split_ifs
        · exact (throughout_writeFrame lenient victimId).bind fun _ =>
            throughout_clearFrame victimId
        · exact throughout_clearFrame victimId

omit lenient in
/-- A page that was read is a page of the file. -/
theorem throughout_readPage (pageId : UInt32) :
    Ends (Throughout holds)
      (onDisk (DiskManager.readPage pageId) : Fallible Failure (BufferPool poolSize) Page)
      (fun page pool => Throughout holds pool ∧ holds page.id page.data)
      (fun _ => Throughout holds) := by
  intro pool throughout
  have same (disk : DiskManager) (file : disk.file = pool.disk.file) :
      Throughout holds { pool with disk := disk } := throughout.of_eq rfl file
  have called : (DiskManager.systemCall pool.disk).2.file = pool.disk.file := by
    rw [DiskManager.systemCall]
    rcases pool.disk.faults with _ | ⟨_ | _, rest⟩ <;> rfl
  simp only [onDisk, DiskManager.readPage, bind_apply]
  generalize DiskManager.systemCall pool.disk = outcome at called ⊢
  rcases outcome with ⟨failure | _, disk⟩
  · exact same disk called
  · simp only [get_apply]
    rcases present : disk.file[pageId.toNat]? with _ | data
    · exact same disk called
    · dsimp only
      split_ifs
      · exact ⟨same disk called, throughout.file (called ▸ present)⟩
      · exact same disk called

theorem throughout_fetchPage (pageId : UInt32) :
    Keeps (Throughout holds)
      (fetchPage pageId : Fallible Failure (BufferPool poolSize) _) := by
  refine keeps_get_bind fun pool => ?_
  cases pool.pageTable.lookup pageId with
  | some frameId =>
      dsimp only
      split_ifs
      swap
      · exact id
      refine Keeps.bind (keeps_modify fun pool throughout => ?_) (fun _ => keeps_pure _) pool
      have counted : Throughout holds (pool.setFrame frameId { pool.frames frameId with
          pinCount := (pool.frames frameId).pinCount + 1 }) :=
        throughout.setFrame fun _ held => throughout.frame held
      exact counted.of_eq rfl rfl
  | none =>
      refine Keeps.bind (keeps_modify fun _ throughout => throughout.of_eq rfl rfl)
        (fun _ => (throughout_findFreeFrame lenient).bind fun frameId => Ends.keeps ?_) pool
      refine (throughout_readPage pageId).bind fun page => ?_
      exact Ends.bind (ends_modify fun _ read => read.1.install read.2) fun _ =>
        ends_pure fun _ throughout => throughout

theorem throughout_newPage (fresh : ∀ pageId, holds pageId (Page.new pageId).data) :
    Keeps (Throughout holds) (newPage : Fallible Failure (BufferPool poolSize) _) := by
  have allocates : Keeps (Throughout holds)
      (onDisk DiskManager.allocatePage : Fallible Failure (BufferPool poolSize) _) := by
    intro pool throughout
    rw [onDisk, DiskManager.allocatePage]
    split_ifs
    · exact throughout.of_eq rfl rfl
    · exact throughout.of_eq rfl rfl
  refine (throughout_findFreeFrame lenient).bind fun frameId => allocates.bind fun pageId => ?_
  exact Keeps.bind (keeps_modify fun _ throughout => throughout.install (fresh pageId))
    fun _ => keeps_pure _

theorem throughout_flushPage (pageId : UInt32) :
    Keeps (Throughout holds)
      (flushPage pageId : Fallible Failure (BufferPool poolSize) _) := by
  refine keeps_get_bind fun pool => ?_
  cases pool.pageTable.lookup pageId with
  | none => exact id
  | some frameId =>
      dsimp only
      split_ifs
      · refine Keeps.bind (throughout_writeFrame lenient frameId)
          (fun _ => keeps_modify fun pool throughout => ?_) pool
        exact throughout.setFrame fun _ held => throughout.frame held
      · exact id

end Calls

end BufferPool

end VenomDb
