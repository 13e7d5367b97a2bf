import VenomDb.Buffer.BufferPool

/-!
# The buffer pool is a transparent page store

A client that unpins a modified page as dirty before it asks for another one does
not notice the frames: `view` is what it sees of a page, resident or not, and every
operation of the pool keeps the view of every page. The checksum field is left out
of the view, since a flush changes it.

Pin counts play no part in this. A frame whose pin was never returned may be lost
to the pool, and `Available` says which frames are not.
-/

namespace VenomDb.BufferPool

variable {poolSize : ℕ} [Crc32] {pool pool' : BufferPool poolSize}

/-- The content of a page as a client sees it: that of its frame, or that of the file. -/
def view (pool : BufferPool poolSize) (pageId : UInt32) : Option PageData :=
  match pool.pageTable.lookup pageId with
  | some frameId => ((pool.frames frameId).page).map fun page => page.data.cleared
  | none => (DiskManager.stored pool.disk.file pageId).map PageData.cleared

/-- A frame that `find_free_frame` can hand out. -/
def Available (pool : BufferPool poolSize) (frameId : Fin poolSize) : Prop :=
  (pool.frames frameId).isEmpty ∨ frameId ∈ pool.replacer.order

/-- The page of a clean frame is the page in the file. -/
def Synced (pool : BufferPool poolSize) (frameId : Fin poolSize) : Prop :=
  ∀ page, (pool.frames frameId).page = some page → (pool.frames frameId).isDirty = false →
    ∃ data, DiskManager.stored pool.disk.file page.id = some data ∧
      data.cleared = page.data.cleared

/-- Page table and frames agree, and every page in a frame or in the file has an allocated id.
All frames are in sync with the file, but for the one in use. -/
structure Coherent (pool : BufferPool poolSize) (inUse : Option (Fin poolSize)) : Prop where
  table : ∀ {pageId frameId}, pool.pageTable.lookup pageId = some frameId →
    ∃ page, (pool.frames frameId).page = some page ∧ page.id = pageId
  frame : ∀ {frameId page}, (pool.frames frameId).page = some page →
    pool.pageTable.lookup page.id = some frameId
  allocated : ∀ {frameId page}, (pool.frames frameId).page = some page →
    page.id.toNat < pool.disk.numPages.toNat
  fileLength : pool.disk.file.length ≤ pool.disk.numPages.toNat
  synced : ∀ frameId, inUse ≠ some frameId → pool.Synced frameId
  faultless : pool.disk.faults = []

/-- What no operation of the pool takes back: pages keep their content, and pages in the file
stay in the file. -/
structure Continues (pool pool' : BufferPool poolSize) : Prop where
  view : ∀ {pageId data}, pool.view pageId = some data → pool'.view pageId = some data
  stored : ∀ {pageId}, (DiskManager.stored pool.disk.file pageId).isSome →
    (DiskManager.stored pool'.disk.file pageId).isSome

theorem Continues.refl (pool : BufferPool poolSize) : Continues pool pool := ⟨id, id⟩

theorem Continues.trans {pool'' : BufferPool poolSize} (first : Continues pool pool')
    (second : Continues pool' pool'') : Continues pool pool'' :=
  ⟨fun seen => second.view (first.view seen), fun present => second.stored (first.stored present)⟩

/-- A new pool has only empty frames. -/
theorem coherent_new {disk : DiskManager} (fileLength : disk.file.length ≤ disk.numPages.toNat)
    (faultless : disk.faults = []) : Coherent (new disk : BufferPool poolSize) none where
  table := by simp [new]
  frame := by simp [new, Frame.new]
  allocated := by simp [new, Frame.new]
  fileLength := fileLength
  synced := by simp [Synced, new, Frame.new]
  faultless := faultless

section Frames

/-- A page with a view has an allocated id. -/
theorem Coherent.view_lt {inUse : Option (Fin poolSize)} (coherent : Coherent pool inUse)
    {pageId : UInt32} {data : PageData} (seen : pool.view pageId = some data) :
    pageId.toNat < pool.disk.numPages.toNat := by
  rw [view] at seen
  cases resident : pool.pageTable.lookup pageId with
  | some frameId =>
      rcases coherent.table resident with ⟨page, held, rfl⟩
      exact coherent.allocated held
  | none =>
      simp only [resident, Option.map_eq_some_iff] at seen
      rcases seen with ⟨found, present, -⟩
      exact lt_of_lt_of_le (DiskManager.stored_lt present) coherent.fileLength

/-- Distinct pages sit in distinct frames. -/
theorem Coherent.lookup_inj {inUse : Option (Fin poolSize)} (coherent : Coherent pool inUse)
    {pageId other : UInt32} {frameId : Fin poolSize}
    (resident : pool.pageTable.lookup pageId = some frameId)
    (otherResident : pool.pageTable.lookup other = some frameId) : pageId = other := by
  rcases coherent.table resident with ⟨page, held, rfl⟩
  rcases coherent.table otherResident with ⟨page', held', rfl⟩
  rw [held] at held'
  simpa using congrArg (Option.map Page.id) held'

theorem view_of_frame {inUse : Option (Fin poolSize)} (coherent : Coherent pool inUse)
    {frameId : Fin poolSize} {page : Page} (held : (pool.frames frameId).page = some page) :
    pool.view page.id = some page.data.cleared := by
  simp [view, coherent.frame held, held]

/-- Exchanging the content of a frame for another version of the same page. -/
theorem Coherent.setFrame {inUse inUse' : Option (Fin poolSize)} (coherent : Coherent pool inUse)
    {frameId : Fin poolSize} {frame : Frame}
    (samePage : frame.page.map Page.id = ((pool.frames frameId).page).map Page.id)
    (synced : inUse' ≠ some frameId → (pool.setFrame frameId frame).Synced frameId)
    (others : ∀ other, other ≠ frameId → inUse' ≠ some other → inUse ≠ some other) :
    Coherent (pool.setFrame frameId frame) inUse' where
  table := by
    intro pageId other resident
    rcases coherent.table resident with ⟨page, held, rfl⟩
    by_cases same : other = frameId
    · subst same
      rw [held, Option.map_some, Option.map_eq_some_iff] at samePage
      simpa using samePage
    · exact ⟨page, by rw [setFrame_frames_of_ne same, held], rfl⟩
  frame := by
    intro other page held
    by_cases same : other = frameId
    · subst same
      rw [setFrame_frames_self] at held
      rw [held, Option.map_some, eq_comm, Option.map_eq_some_iff] at samePage
      rcases samePage with ⟨old, oldHeld, idEq⟩
      rw [← idEq]
      exact coherent.frame oldHeld
    · rw [setFrame_frames_of_ne same] at held
      exact coherent.frame held
  allocated := by
    intro other page held
    by_cases same : other = frameId
    · subst same
      rw [setFrame_frames_self] at held
      rw [held, Option.map_some, eq_comm, Option.map_eq_some_iff] at samePage
      rcases samePage with ⟨old, oldHeld, idEq⟩
      rw [← idEq]
      exact coherent.allocated oldHeld
    · rw [setFrame_frames_of_ne same] at held
      exact coherent.allocated held
  fileLength := coherent.fileLength
  synced := by
    intro other notInUse
    by_cases same : other = frameId
    · subst same
      exact synced notInUse
    · have kept := coherent.synced other (others other same notInUse)
      rw [Synced, setFrame_frames_of_ne same]
      exact kept
  faultless := coherent.faultless

/-- The view of another page does not depend on a frame. -/
theorem Coherent.view_setFrame_of_ne {inUse : Option (Fin poolSize)}
    (coherent : Coherent pool inUse) {frameId : Fin poolSize} {page : Page}
    (held : (pool.frames frameId).page = some page) {frame : Frame} {pageId : UInt32}
    (ne : pageId ≠ page.id) : (pool.setFrame frameId frame).view pageId = pool.view pageId := by
  have table : (pool.setFrame frameId frame).pageTable = pool.pageTable := rfl
  rw [view, view, table]
  cases resident : pool.pageTable.lookup pageId with
  | none => rfl
  | some other =>
      have apart : other ≠ frameId := by
        rintro rfl
        exact ne (coherent.lookup_inj resident (coherent.frame held))
      simp only [setFrame_frames_of_ne apart]

/-- Exchanging a frame for one with the same view keeps every view. -/
theorem Coherent.continues_setFrame {inUse : Option (Fin poolSize)}
    (coherent : Coherent pool inUse) {frameId : Fin poolSize} {page page' : Page} (frame : Frame)
    (held : (pool.frames frameId).page = some page) (held' : frame.page = some page')
    (sameData : page'.data.cleared = page.data.cleared) :
    Continues pool (pool.setFrame frameId frame) where
  view := by
    intro pageId data seen
    by_cases same : pageId = page.id
    · subst same
      rw [view_of_frame coherent held] at seen
      have resident : (pool.setFrame frameId frame).pageTable.lookup page.id = some frameId :=
        coherent.frame held
      rw [view, resident]
      simpa [held', sameData] using seen
    · rw [coherent.view_setFrame_of_ne held same, seen]
  stored := id

end Frames

section Write

/-- The pool after the page of a frame has been written to the file. -/
def written (pool : BufferPool poolSize) (frameId : Fin poolSize) (page : Page) :
    BufferPool poolSize :=
  { pool.setFrame frameId
      { pool.frames frameId with
        page := some { page with data := page.data.finalizeChecksum } } with
    disk := { pool.disk with
      file := DiskManager.store pool.disk.file page.id.toNat page.data.finalizeChecksum } }

theorem writeFrame_eq (faultless : pool.disk.faults = []) {frameId : Fin poolSize} {page : Page}
    (held : (pool.frames frameId).page = some page) :
    writeFrame frameId pool = (.ok (), pool.written frameId page) := by
  simp [writeFrame, held, onDisk, DiskManager.writePage, DiskManager.systemCall, setFrame,
    faultless, Fallible.bind_apply, written]

/-- After a write the frame is in sync, whatever it was before. -/
theorem Coherent.written {inUse inUse' : Option (Fin poolSize)} {frameId : Fin poolSize}
    {page : Page} (coherent : Coherent pool inUse)
    (held : (pool.frames frameId).page = some page)
    (others : ∀ other, other ≠ frameId → inUse' ≠ some other → inUse ≠ some other) :
    Coherent (pool.written frameId page) inUse' where
  table := by
    intro pageId other resident
    rcases coherent.table resident with ⟨old, oldHeld, rfl⟩
    by_cases same : other = frameId
    · subst same
      rw [held, Option.some.injEq] at oldHeld
      subst oldHeld
      exact ⟨{ page with data := page.data.finalizeChecksum }, by simp [BufferPool.written], rfl⟩
    · exact ⟨old, by simpa [BufferPool.written, setFrame_frames_of_ne same] using oldHeld, rfl⟩
  frame := by
    intro other found otherHeld
    by_cases same : other = frameId
    · subst same
      simp only [BufferPool.written, setFrame_frames_self, Option.some.injEq] at otherHeld
      subst otherHeld
      have resident := coherent.frame held
      exact resident
    · simp only [BufferPool.written, setFrame_frames_of_ne same] at otherHeld
      exact coherent.frame otherHeld
  allocated := by
    intro other found otherHeld
    by_cases same : other = frameId
    · subst same
      simp only [BufferPool.written, setFrame_frames_self, Option.some.injEq] at otherHeld
      subst otherHeld
      have bound := coherent.allocated held
      exact bound
    · simp only [BufferPool.written, setFrame_frames_of_ne same] at otherHeld
      exact coherent.allocated otherHeld
  fileLength := by
    have allocated := coherent.allocated held
    have fileLength := coherent.fileLength
    simp only [BufferPool.written, DiskManager.length_store]
    omega
  synced := by
    intro other notInUse
    by_cases same : other = frameId
    · subst same
      intro found otherHeld _
      simp only [BufferPool.written, setFrame_frames_self, Option.some.injEq] at otherHeld
      subst otherHeld
      exact ⟨_, DiskManager.stored_store_self page.id page.data, by simp⟩
    · intro found otherHeld clean
      simp only [BufferPool.written, setFrame_frames_of_ne same] at otherHeld clean
      rcases coherent.synced other (others other same notInUse) found otherHeld clean with
        ⟨data, present, sameData⟩
      refine ⟨data, DiskManager.stored_store_of_ne ?_ present, sameData⟩
      intro sameId
      have left := coherent.frame held
      rw [sameId, coherent.frame otherHeld] at left
      exact same (by simpa using left)
  faultless := coherent.faultless

theorem Coherent.continues_written {inUse : Option (Fin poolSize)} {frameId : Fin poolSize}
    {page : Page} (coherent : Coherent pool inUse)
    (held : (pool.frames frameId).page = some page) :
    Continues pool (pool.written frameId page) where
  view := by
    intro pageId data seen
    have table : (pool.written frameId page).pageTable = pool.pageTable := rfl
    rw [view] at seen ⊢
    rw [table]
    cases resident : pool.pageTable.lookup pageId with
    | some other =>
        by_cases same : other = frameId
        · subst same
          simpa [resident, held, BufferPool.written] using seen
        · simpa [resident, BufferPool.written, setFrame_frames_of_ne same] using seen
    | none =>
        have ne : page.id ≠ pageId := by
          rintro rfl
          simp [coherent.frame held] at resident
        simp only [resident, Option.map_eq_some_iff] at seen ⊢
        rcases seen with ⟨found, present, rfl⟩
        exact ⟨found, DiskManager.stored_store_of_ne ne present, rfl⟩
  stored := by
    intro pageId present
    by_cases same : page.id = pageId
    · subst same
      simp only [BufferPool.written, DiskManager.stored_store_self, Option.isSome_some]
    · rcases Option.isSome_iff_exists.mp present with ⟨found, found_eq⟩
      simp only [BufferPool.written, DiskManager.stored_store_of_ne same found_eq,
        Option.isSome_some]

end Write

section Evict

/-- The pool after a victim has been taken out of the page table and its frame cleared. -/
def evicted (pool : BufferPool poolSize) (victimId : Fin poolSize) (page : Page) :
    BufferPool poolSize :=
  setFrame { pool with pageTable := pool.pageTable.erase page.id } victimId Frame.new

/-- Evicting a page whose content is in the file. -/
theorem Coherent.evicted {victimId : Fin poolSize} {page : Page} (coherent : Coherent pool none)
    (held : (pool.frames victimId).page = some page) :
    Coherent (pool.evicted victimId page) none where
  table := by
    intro pageId frameId resident
    have ne : pageId ≠ page.id := by
      rintro rfl
      simp [BufferPool.evicted, BufferPool.setFrame] at resident
    have old : pool.pageTable.lookup pageId = some frameId := by
      simpa [BufferPool.evicted, BufferPool.setFrame, AList.lookup_erase_ne ne] using resident
    have apart : frameId ≠ victimId := by
      rintro rfl
      exact ne (coherent.lookup_inj old (coherent.frame held))
    rcases coherent.table old with ⟨found, foundHeld, rfl⟩
    exact ⟨found, by rw [BufferPool.evicted, setFrame_frames_of_ne apart, foundHeld], rfl⟩
  frame := by
    intro frameId found foundHeld
    by_cases same : frameId = victimId
    · subst same
      simp [BufferPool.evicted, Frame.new] at foundHeld
    · rw [BufferPool.evicted, setFrame_frames_of_ne same] at foundHeld
      have resident := coherent.frame foundHeld
      have ne : found.id ≠ page.id := by
        intro sameId
        rw [sameId, coherent.frame held] at resident
        exact same (by simpa using resident.symm)
      simpa [BufferPool.evicted, BufferPool.setFrame, AList.lookup_erase_ne ne] using resident
  allocated := by
    intro frameId found foundHeld
    by_cases same : frameId = victimId
    · subst same
      simp [BufferPool.evicted, Frame.new] at foundHeld
    · rw [BufferPool.evicted, setFrame_frames_of_ne same] at foundHeld
      exact coherent.allocated foundHeld
  fileLength := coherent.fileLength
  synced := by
    intro frameId _
    by_cases same : frameId = victimId
    · subst same
      intro found foundHeld
      simp [BufferPool.evicted, Frame.new] at foundHeld
    · have kept := coherent.synced frameId (by simp)
      rw [Synced, BufferPool.evicted, setFrame_frames_of_ne same]
      exact kept
  faultless := coherent.faultless

theorem Coherent.continues_evicted {victimId : Fin poolSize} {page : Page} {data : PageData}
    (coherent : Coherent pool none) (held : (pool.frames victimId).page = some page)
    (present : DiskManager.stored pool.disk.file page.id = some data)
    (sameData : data.cleared = page.data.cleared) :
    Continues pool (pool.evicted victimId page) where
  view := by
    intro pageId seenData seen
    by_cases same : pageId = page.id
    · subst same
      rw [view_of_frame coherent held] at seen
      simpa [view, BufferPool.evicted, BufferPool.setFrame, present, sameData] using seen
    · have table : (pool.evicted victimId page).pageTable.lookup pageId =
          pool.pageTable.lookup pageId := by
        simp [BufferPool.evicted, BufferPool.setFrame, AList.lookup_erase_ne same]
      rw [view] at seen ⊢
      rw [table]
      cases resident : pool.pageTable.lookup pageId with
      | none => simpa [resident, BufferPool.evicted, BufferPool.setFrame] using seen
      | some frameId =>
          have apart : frameId ≠ victimId := by
            rintro rfl
            exact same (coherent.lookup_inj resident (coherent.frame held))
          simpa [resident, BufferPool.evicted, setFrame_frames_of_ne apart] using seen
  stored := id

/-- What `find_free_frame` leaves behind: the frame it gives is empty and nothing is lost. -/
structure Freed (pool pool' : BufferPool poolSize) (frameId : Fin poolSize) : Prop where
  coherent : Coherent pool' none
  empty : (pool'.frames frameId).page = none
  continues : Continues pool pool'
  numPages : pool'.disk.numPages = pool.disk.numPages
  absent : ∀ {pageId}, pool.pageTable.lookup pageId = none →
    pool'.pageTable.lookup pageId = none
  available : ∀ {other}, other ≠ frameId → pool.Available other → pool'.Available other
  pins : ∀ other, pool'.pins other ≤ pool.pins other

theorem Coherent.freed_evicted {start : BufferPool poolSize} {victimId : Fin poolSize} {page : Page}
    {data : PageData} (coherent : Coherent pool none)
    (held : (pool.frames victimId).page = some page)
    (present : DiskManager.stored pool.disk.file page.id = some data)
    (sameData : data.cleared = page.data.cleared) (continues : Continues start pool)
    (numPages : pool.disk.numPages = start.disk.numPages)
    (table : pool.pageTable = start.pageTable)
    (queued : ∀ {other}, other ≠ victimId → start.Available other → other ∈ pool.replacer.order)
    (pinned : ∀ other, other ≠ victimId → pool.pins other = start.pins other) :
    Freed start (pool.evicted victimId page) victimId where
  coherent := coherent.evicted held
  empty := by simp [BufferPool.evicted, Frame.new]
  continues := continues.trans (coherent.continues_evicted held present sameData)
  numPages := numPages
  absent := by
    intro pageId missing
    rw [← table] at missing
    by_cases same : pageId = page.id
    · subst same
      simp [BufferPool.evicted, BufferPool.setFrame]
    · simpa [BufferPool.evicted, BufferPool.setFrame, AList.lookup_erase_ne same] using missing
  available := fun ne available => .inr (queued ne available)
  pins := by
    intro other
    by_cases same : other = victimId
    · simp [same, BufferPool.pins, BufferPool.evicted, Frame.new]
    · rw [← pinned other same]
      simp [BufferPool.pins, BufferPool.evicted, setFrame_frames_of_ne same]

theorem findFreeFrame_cases (coherent : Coherent pool none) :
    (∃ frameId pool', findFreeFrame pool = (.ok frameId, pool') ∧ pool.Available frameId ∧
      Freed pool pool' frameId) ∨
    (findFreeFrame pool = (.error (.io .poolFull), pool) ∧ ∀ frameId, ¬pool.Available frameId) := by
  cases search : (List.finRange poolSize).find? fun frameId => (pool.frames frameId).isEmpty with
  | some frameId =>
      left
      have empty : (pool.frames frameId).isEmpty = true := by simpa using List.find?_some search
      refine ⟨frameId, pool, by simp [findFreeFrame, search], .inl empty, ?_⟩
      exact ⟨coherent, by simpa [Frame.isEmpty] using empty, .refl pool, rfl, id, fun _ => id,
        fun _ => le_rfl⟩
  | none =>
      have full : ∀ frameId, (pool.frames frameId).isEmpty = false := by
        simpa using List.find?_eq_none.mp search
      cases queue : pool.replacer.order with
      | nil =>
          right
          refine ⟨by simp [findFreeFrame, search, LruReplacer.evict, queue], ?_⟩
          intro frameId available
          rcases available with empty | queued
          · simp [full frameId] at empty
          · simp [queue] at queued
      | cons victimId order =>
          left
          obtain ⟨page, held⟩ : ∃ page, (pool.frames victimId).page = some page := by
            have occupied := full victimId
            rwa [Frame.isEmpty, Option.isNone_eq_false_iff, Option.isSome_iff_exists] at occupied
          have queued : pool.Available victimId := .inr (by simp [queue])
          have stays : ∀ {other}, other ≠ victimId → pool.Available other → other ∈ order := by
            intro other ne available
            rcases available with empty | queued
            · simp [full other] at empty
            · simpa [queue, ne] using queued
          -- `evict` takes the victim off the queue before its page is written back
          let unqueued : BufferPool poolSize := { pool with replacer := ⟨order⟩ }
          have coherent' : Coherent unqueued none :=
            ⟨coherent.table, coherent.frame, coherent.allocated, coherent.fileLength,
              coherent.synced, coherent.faultless⟩
          have held' : (unqueued.frames victimId).page = some page := held
          have continues : Continues pool unqueued := ⟨id, id⟩
          by_cases dirty : (pool.frames victimId).isDirty = true
          · let page' : Page := { page with data := page.data.finalizeChecksum }
            have saved : Coherent (unqueued.written victimId page) none :=
              coherent'.written held' fun _ _ => id
            have savedHeld : ((unqueued.written victimId page).frames victimId).page =
                some page' := by simp [BufferPool.written, page']
            have present : DiskManager.stored (unqueued.written victimId page).disk.file page'.id =
                some page'.data := DiskManager.stored_store_self page.id page.data
            refine ⟨victimId, (unqueued.written victimId page).evicted victimId page', ?_, queued,
              saved.freed_evicted savedHeld present rfl
                (continues.trans (coherent'.continues_written held')) rfl rfl stays
                  fun other apart => ?_⟩
            swap
            · rw [pins, BufferPool.written, setFrame_frames_of_ne apart]
              rfl
            rw [findFreeFrame]
            simp [search, LruReplacer.evict, queue, dirty, Fallible.bind_apply,
              writeFrame_eq coherent'.faultless held', unqueued, savedHeld, BufferPool.evicted]
          · have clean : (unqueued.frames victimId).isDirty = false := by simpa using dirty
            rcases coherent'.synced victimId (by simp) page held' clean with
              ⟨data, present, sameData⟩
            refine ⟨victimId, unqueued.evicted victimId page, ?_, queued,
              coherent'.freed_evicted held' present sameData continues rfl rfl stays fun _ _ => rfl⟩
            rw [findFreeFrame]
            simp [search, LruReplacer.evict, queue, dirty, Fallible.bind_apply, held, unqueued,
              BufferPool.evicted]

end Evict

end VenomDb.BufferPool
