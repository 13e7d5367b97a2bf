import VenomDb.Buffer.Transparency

/-!
# The buffer pool as its client sees it

One lemma for each operation of the pool: what it returns, that it keeps the pool
coherent, and what it does to the views. Pins that were never returned make a frame
unavailable but do no other harm, so the lemmas ask for no balance of pins.
-/

namespace VenomDb.BufferPool

variable {poolSize : ℕ} [Crc32] {pool pool' : BufferPool poolSize}
variable {frameId : Fin poolSize} {pageId : UInt32} {page : Page} {data : PageData}

/-- A frame that a client has fetched: unpinning it makes it available again, whatever pins
other clients have left behind. -/
structure Held (pool : BufferPool poolSize) (frameId : Fin poolSize) (page : Page) : Prop where
  page : (pool.frames frameId).page = some page
  pinned : (pool.frames frameId).pinCount ≠ 0
  returns : (pool.frames frameId).pinCount = 1 ∨ frameId ∈ pool.replacer.order

/-- Putting a page into an empty frame. -/
theorem Coherent.install {isDirty : Bool} (coherent : Coherent pool none)
    (empty : (pool.frames frameId).page = none)
    (missing : pool.pageTable.lookup page.id = none)
    (allocated : page.id.toNat < pool.disk.numPages.toNat)
    (synced : isDirty = false → ∃ data, DiskManager.stored pool.disk.file page.id = some data ∧
      data.cleared = page.data.cleared) :
    Coherent (install frameId page isDirty pool) none where
  table := by
    intro other otherFrame resident
    by_cases same : other = page.id
    · subst same
      have here : otherFrame = frameId := by simpa [BufferPool.install] using resident.symm
      subst here
      exact ⟨page, by simp [BufferPool.install], rfl⟩
    · have old : pool.pageTable.lookup other = some otherFrame := by
        simpa [BufferPool.install, AList.lookup_insert_ne same] using resident
      rcases coherent.table old with ⟨found, held, rfl⟩
      have apart : otherFrame ≠ frameId := by
        rintro rfl
        simp [empty] at held
      exact ⟨found, by simpa [BufferPool.install, apart] using held, rfl⟩
  frame := by
    intro otherFrame found held
    by_cases same : otherFrame = frameId
    · subst same
      obtain rfl : page = found := by simpa [BufferPool.install] using held
      simp [BufferPool.install]
    · have old : (pool.frames otherFrame).page = some found := by
        simpa [BufferPool.install, same] using held
      have resident := coherent.frame old
      have ne : found.id ≠ page.id := by
        intro sameId
        rw [sameId, missing] at resident
        simp at resident
      simpa [BufferPool.install, AList.lookup_insert_ne ne] using resident
  allocated := by
    intro otherFrame found held
    by_cases same : otherFrame = frameId
    · subst same
      obtain rfl : page = found := by simpa [BufferPool.install] using held
      exact allocated
    · have old : (pool.frames otherFrame).page = some found := by
        simpa [BufferPool.install, same] using held
      exact coherent.allocated old
  fileLength := coherent.fileLength
  synced := by
    intro otherFrame _ found held clean
    by_cases same : otherFrame = frameId
    · subst same
      obtain rfl : page = found := by simpa [BufferPool.install] using held
      exact synced (by simpa [BufferPool.install] using clean)
    · have old : (pool.frames otherFrame).page = some found := by
        simpa [BufferPool.install, same] using held
      exact coherent.synced otherFrame (by simp) found old
        (by simpa [BufferPool.install, same] using clean)
  faultless := coherent.faultless

/-- A page that is put into an empty frame hides no other page. -/
theorem view_install_of_ne {isDirty : Bool} (coherent : Coherent pool none)
    (empty : (pool.frames frameId).page = none) {other : UInt32} (ne : other ≠ page.id) :
    (install frameId page isDirty pool).view other = pool.view other := by
  have table : (install frameId page isDirty pool).pageTable.lookup other =
      pool.pageTable.lookup other := by
    simp [install, AList.lookup_insert_ne ne]
  rw [view, view, table]
  cases resident : pool.pageTable.lookup other with
  | none => rfl
  | some otherFrame =>
      have apart : otherFrame ≠ frameId := by
        rintro rfl
        rcases coherent.table resident with ⟨found, held, -⟩
        simp [empty] at held
      simp [install, apart]

theorem view_install_self {isDirty : Bool} :
    (install frameId page isDirty pool).view page.id = some page.data.cleared := by
  simp [view, install]

omit [Crc32] in
theorem held_install {isDirty : Bool} : Held (install frameId page isDirty pool) frameId page where
  page := by simp [install]
  pinned := by simp [install]
  returns := by simp [install]

omit [Crc32] in
theorem available_install {isDirty : Bool} {other : Fin poolSize} (ne : other ≠ frameId)
    (available : pool.Available other) : (install frameId page isDirty pool).Available other := by
  rcases available with empty | queued
  · exact .inl (by simpa [install, ne] using empty)
  · exact .inr (by simpa [install, LruReplacer.pin, ne] using queued)

omit [Crc32] in
theorem pins_install {isDirty : Bool} : (install frameId page isDirty pool).pins frameId = 1 := by
  simp [pins, install]

omit [Crc32] in
theorem pins_install_of_ne {isDirty : Bool} {other : Fin poolSize} (ne : other ≠ frameId) :
    (install frameId page isDirty pool).pins other = pool.pins other := by
  simp [pins, install, ne]

/-- What `fetch_page` leaves behind when it succeeds. -/
structure Fetched (pool pool' : BufferPool poolSize) (frameId : Fin poolSize) (pageId : UInt32)
    (data : PageData) : Prop where
  coherent : Coherent pool' none
  continues : Continues pool pool'
  numPages : pool'.disk.numPages = pool.disk.numPages
  held : ∃ page, Held pool' frameId page ∧ page.id = pageId ∧ page.data.cleared = data
  available : ∀ {other}, other ≠ frameId → pool.Available other → pool'.Available other
  pins : ∀ {other}, other ≠ frameId → pool'.pins other ≤ pool.pins other
  pinned : pool'.pins frameId ≤ pool.pins frameId + 1

omit [Crc32] in
theorem held_hit (held : (pool.frames frameId).page = some page)
    (pinnable : pool.Pinnable frameId) :
    Held (pool.hit frameId) frameId page where
  page := by simpa [hit] using held
  pinned := by simpa [hit] using Counter.succ_ne_zero pinnable
  returns := .inr (by simp [hit, LruReplacer.recordAccess])

/-- A resident page is found in its frame. -/
theorem fetchPage_resident (coherent : Coherent pool none) (seen : pool.view pageId = some data)
    (resident : pool.pageTable.lookup pageId = some frameId) (pinnable : pool.Pinnable frameId) :
    fetchPage pageId pool = (.ok frameId, pool.hit frameId) ∧
      Fetched pool (pool.hit frameId) frameId pageId data := by
  rcases coherent.table resident with ⟨page, held, rfl⟩
  let frame : Frame :=
    { pool.frames frameId with pinCount := (pool.frames frameId).pinCount + 1 }
  refine ⟨fetchPage_pinnable resident pinnable, ?_⟩
  have kept : Coherent (pool.setFrame frameId frame) none := by
    refine coherent.setFrame rfl (fun _ found foundHeld clean => ?_) (by simp)
    exact coherent.synced frameId (by simp) found (by simpa [frame] using foundHeld)
      (by simpa [frame] using clean)
  have continues := coherent.continues_setFrame frame held held rfl
  refine ⟨⟨kept.table, kept.frame, kept.allocated, kept.fileLength, kept.synced, kept.faultless⟩,
    ⟨continues.view, continues.stored⟩, rfl, ⟨page, held_hit held pinnable, rfl, ?_⟩, ?_, ?_,
    ?_⟩
  · simpa [view_of_frame coherent held] using seen
  · intro other ne available
    rcases available with empty | queued
    · exact .inl (by simpa [hit, BufferPool.setFrame, ne] using empty)
    · exact .inr (by simpa [hit, LruReplacer.recordAccess, LruReplacer.pin, ne] using queued)
  · intro other ne
    simp [pins, hit, setFrame_frames_of_ne ne]
  · simp [pins, hit, Counter.toNat_succ pinnable]

theorem readPage_of_stored {disk : DiskManager} (faultless : disk.faults = [])
    (present : DiskManager.stored disk.file pageId = some data) :
    DiskManager.readPage pageId disk = (.ok (Page.fromBytes pageId data), disk) := by
  rw [DiskManager.stored, Option.filter_eq_some_iff] at present
  simp [DiskManager.readPage, DiskManager.systemCall, faultless, Fallible.bind_apply, present.1,
    Page.fromBytes, present.2]

theorem readPage_of_not_stored {disk : DiskManager} (faultless : disk.faults = [])
    (missing : DiskManager.stored disk.file pageId = none) :
    ∃ error, DiskManager.readPage pageId disk = (.error (.io error), disk) := by
  cases found : disk.file[pageId.toNat]? with
  | none =>
      exact ⟨.unexpectedEof, by simp [DiskManager.readPage, DiskManager.systemCall, faultless,
        Fallible.bind_apply, found]⟩
  | some data =>
      have invalid : data.verifyChecksum = false := by
        simpa [DiskManager.stored, found, Option.filter_eq_none_iff] using missing
      exact ⟨.checksumMismatch pageId, by simp [DiskManager.readPage, DiskManager.systemCall,
        faultless, Fallible.bind_apply, found, Page.fromBytes, invalid]⟩

/-- Counting a miss changes nothing else. -/
theorem Coherent.countMiss (coherent : Coherent pool none) :
    Coherent { pool with misses := pool.misses + 1 } none :=
  ⟨coherent.table, coherent.frame, coherent.allocated, coherent.fileLength, coherent.synced,
    coherent.faultless⟩

/-- The ends of `fetch_page`: the page is in its frame, no frame is available, the page is neither
resident nor in the file, or its frame has all the pins it can have. -/
theorem fetchPage_cases (coherent : Coherent pool none) (pageId : UInt32) :
    (∃ frameId pool' data, fetchPage pageId pool = (.ok frameId, pool') ∧
      Fetched pool pool' frameId pageId data) ∨
    (fetchPage pageId pool =
        (.error (.io .poolFull), { pool with misses := pool.misses + 1 }) ∧
      ∀ frameId, ¬pool.Available frameId) ∨
    (pool.view pageId = none ∧ ∃ error pool', fetchPage pageId pool = (.error (.io error), pool') ∧
      Coherent pool' none ∧ Continues pool pool' ∧ pool'.disk.numPages = pool.disk.numPages ∧
      (∀ frameId, pool.Available frameId → pool'.Available frameId) ∧
      ∀ frameId, pool'.pins frameId ≤ pool.pins frameId) ∨
    (fetchPage pageId pool = (.error (.panic .overflow), pool) ∧ pool.Saturated pageId) := by
  cases resident : pool.pageTable.lookup pageId with
  | some frameId =>
      by_cases pinnable : pool.Pinnable frameId
      · rcases coherent.table resident with ⟨page, held, rfl⟩
        exact .inl ⟨frameId, _, _,
          fetchPage_resident coherent (view_of_frame coherent held) resident pinnable⟩
      · exact .inr (.inr (.inr
          ⟨fetchPage_overflow resident pinnable, frameId, resident, pinnable⟩))
  | none =>
      rcases findFreeFrame_cases coherent.countMiss with
        ⟨frameId, freed, run, -, spec⟩ | ⟨run, full⟩
      · have missing : freed.pageTable.lookup pageId = none := spec.absent resident
        cases present : DiskManager.stored freed.disk.file pageId with
        | some found =>
            left
            let page := Page.fromBytes pageId found
            have sees : freed.view pageId = some found.cleared := by simp [view, missing, present]
            refine ⟨frameId, install frameId page false freed, found.cleared, ?_, ?_, ?_,
              spec.numPages, ⟨page, held_install, rfl, rfl⟩, ?_, ?_, ?_⟩
            · simp [fetchPage, resident, Fallible.bind_apply, run, onDisk,
                readPage_of_stored spec.coherent.faultless present, page]
            · exact spec.coherent.install spec.empty missing
                (lt_of_lt_of_le (DiskManager.stored_lt present) spec.coherent.fileLength)
                fun _ => ⟨found, present, rfl⟩
            · refine ⟨fun {other otherData} otherSeen => ?_, spec.continues.stored⟩
              have kept := spec.continues.view otherSeen
              by_cases same : other = pageId
              · subst same
                rw [← kept, sees]
                exact view_install_self
              · rw [view_install_of_ne spec.coherent spec.empty same, kept]
            · intro other ne available
              exact available_install ne (spec.available ne available)
            · intro other ne
              rw [pins_install_of_ne ne]
              exact spec.pins other
            · rw [pins_install]
              exact Nat.le_add_left 1 _
        | none =>
            right; right; left
            rcases readPage_of_not_stored spec.coherent.faultless present with ⟨error, read⟩
            refine ⟨?_, error, freed, ?_, spec.coherent,
              ⟨spec.continues.view, spec.continues.stored⟩, spec.numPages, ?_,
              spec.pins⟩
            · cases seen : pool.view pageId with
              | none => rfl
              | some data =>
                  have kept : freed.view pageId = some data := spec.continues.view seen
                  simp [view, missing, present] at kept
            · simp [fetchPage, resident, Fallible.bind_apply, run, onDisk, read]
            · intro other available
              by_cases same : other = frameId
              · subst same
                exact .inl (by simp [Frame.isEmpty, spec.empty])
              · exact spec.available same available
      · exact .inr (.inl ⟨by simp [fetchPage, resident, Fallible.bind_apply, run], full⟩)

/-- A fetched page has the content the client saw before. -/
theorem Fetched.eq_view {seen : PageData} (fetched : Fetched pool pool' frameId pageId data)
    (before : pool.view pageId = some seen) : data = seen := by
  rcases fetched.held with ⟨page, held, rfl, rfl⟩
  have after := fetched.continues.view before
  rw [view_of_frame fetched.coherent held.page] at after
  exact Option.some.inj after

/-- What `new_page` leaves behind: a page of zero slots under the next id. -/
structure Allocated (pool pool' : BufferPool poolSize) (frameId : Fin poolSize) (pageId : UInt32) :
    Prop where
  coherent : Coherent pool' none
  continues : Continues pool pool'
  fresh : pageId = pool.disk.numPages
  numPages : pool'.disk.numPages.toNat = pool.disk.numPages.toNat + 1
  unwritten : pool'.disk.file.length ≤ pageId.toNat
  held : Held pool' frameId (Page.new pageId)
  available : ∀ {other}, other ≠ frameId → pool.Available other → pool'.Available other
  pins : ∀ {other}, other ≠ frameId → pool'.pins other ≤ pool.pins other
  pinned : pool'.pins frameId ≤ pool.pins frameId + 1

theorem newPage_cases (coherent : Coherent pool none) :
    (∃ pageId frameId pool', newPage pool = (.ok (pageId, frameId), pool') ∧
      Allocated pool pool' frameId pageId) ∨
    (newPage pool = (.error (.io .poolFull), pool) ∧ ∀ frameId, ¬pool.Available frameId) ∨
    (∃ pool', newPage pool = (.error (.panic .overflow), pool') ∧
      ¬pool.disk.numPages.toNat + 1 < 2 ^ 32) := by
  rcases findFreeFrame_cases coherent with ⟨frameId, freed, run, -, spec⟩ | ⟨run, full⟩
  · by_cases room : freed.disk.numPages.toNat + 1 < 4294967296
    · left
      have successor : (freed.disk.numPages + 1).toNat = freed.disk.numPages.toNat + 1 :=
        Counter.toNat_succ room
      let allocated : BufferPool poolSize :=
        { freed with disk := { freed.disk with numPages := freed.disk.numPages + 1 } }
      have coherent' : Coherent allocated none := by
        refine ⟨spec.coherent.table, spec.coherent.frame, ?_, ?_, spec.coherent.synced,
          spec.coherent.faultless⟩
        · intro other page held
          have bound := spec.coherent.allocated held
          simp only [allocated, successor]
          omega
        · have bound := spec.coherent.fileLength
          simp only [allocated, successor]
          omega
      have unseen : allocated.pageTable.lookup freed.disk.numPages = none := by
        cases resident : allocated.pageTable.lookup freed.disk.numPages with
        | none => rfl
        | some other =>
            rcases spec.coherent.table resident with ⟨page, held, sameId⟩
            have bound := spec.coherent.allocated held
            rw [sameId] at bound
            omega
      refine ⟨freed.disk.numPages, frameId,
        install frameId (Page.new freed.disk.numPages) true allocated, ?_, ?_, ?_, spec.numPages,
        ?_, spec.coherent.fileLength, held_install, ?_, ?_, ?_⟩
      · simp [newPage, Fallible.bind_apply, run, onDisk, DiskManager.allocatePage, room, allocated]
      · refine coherent'.install spec.empty unseen ?_ (by simp)
        simp only [Page.new, allocated, successor]
        omega
      · refine ⟨fun {other otherData} seen => ?_, spec.continues.stored⟩
        have kept : allocated.view other = some otherData := spec.continues.view seen
        have ne : other ≠ (Page.new freed.disk.numPages).id := by
          rintro rfl
          have bound := spec.coherent.view_lt (spec.continues.view seen)
          simp [Page.new] at bound
        rw [view_install_of_ne coherent' spec.empty ne, kept]
      · show (freed.disk.numPages + 1).toNat = _
        rw [successor, spec.numPages]
      · intro other ne available
        exact available_install ne (spec.available ne available)
      · intro other ne
        rw [pins_install_of_ne ne]
        exact spec.pins other
      · rw [pins_install]
        exact Nat.le_add_left 1 _
    · right; right
      exact ⟨freed, by simp [newPage, Fallible.bind_apply, run, onDisk, DiskManager.allocatePage,
        room], by rwa [← spec.numPages]⟩
  · exact .inr (.inl ⟨by simp [newPage, Fallible.bind_apply, run], full⟩)

section InUse

/-- Changing the page in a frame in use. -/
theorem Coherent.setPage {inUse : Option (Fin poolSize)} {page' : Page}
    (coherent : Coherent pool inUse) (alone : inUse = none ∨ inUse = some frameId)
    (held : (pool.frames frameId).page = some page) (sameId : page'.id = page.id) :
    Coherent (pool.setPage frameId page') (some frameId) := by
  refine coherent.setFrame (by simp [held, sameId]) (by simp) ?_
  rintro other ne -
  rcases alone with rfl | rfl
  · simp
  · simpa using Ne.symm ne

omit [Crc32] in
theorem Held.setPage (held : Held pool frameId page) (page' : Page) :
    Held (pool.setPage frameId page') frameId page' where
  page := by simp [BufferPool.setPage]
  pinned := by simpa [BufferPool.setPage] using held.pinned
  returns := by simpa [BufferPool.setPage, BufferPool.setFrame] using held.returns

theorem view_setPage_of_ne {inUse : Option (Fin poolSize)} (coherent : Coherent pool inUse)
    (held : (pool.frames frameId).page = some page) {page' : Page} {other : UInt32}
    (ne : other ≠ page.id) : (pool.setPage frameId page').view other = pool.view other :=
  coherent.view_setFrame_of_ne held ne

omit [Crc32] in
theorem available_setPage {page' : Page} {other : Fin poolSize}
    (held : (pool.frames frameId).page = some page) (available : pool.Available other) :
    (pool.setPage frameId page').Available other := by
  rcases available with empty | queued
  · by_cases same : other = frameId
    · subst same
      simp [Frame.isEmpty, held] at empty
    · exact .inl (by simpa [BufferPool.setPage, setFrame_frames_of_ne same] using empty)
  · exact .inr queued

omit [Crc32] in
theorem pinnable_new {disk : DiskManager} : (new disk : BufferPool poolSize).Pinnable frameId := by
  simp [Pinnable, pins, new, Frame.new]

omit [Crc32] in
theorem pins_setPage {page' : Page} {other : Fin poolSize} :
    (pool.setPage frameId page').pins other = pool.pins other := by
  by_cases same : other = frameId
  · simp [same, pins, BufferPool.setPage]
  · simp [pins, BufferPool.setPage, setFrame_frames_of_ne same]

omit [Crc32] in
/-- Only the pin, the dirty flag and the queue change in `unpin`. -/
theorem unpin_eq (held : Held pool frameId page) (isDirty : Bool) :
    ∃ pinCount order, unpin frameId isDirty pool =
        { pool.setFrame frameId
            { pool.frames frameId with
              pinCount := pinCount, isDirty := (pool.frames frameId).isDirty || isDirty } with
          replacer := ⟨order⟩ } ∧
      frameId ∈ order ∧ ∀ other ∈ pool.replacer.order, other ∈ order := by
  have pinned := held.pinned
  by_cases last : (pool.frames frameId).pinCount - 1 = 0
  · by_cases queued : frameId ∈ pool.replacer.order
    · refine ⟨0, pool.replacer.order, ?_, queued, fun _ => id⟩
      simp [unpin, pinned, last, LruReplacer.unpin, setFrame, queued]
    · refine ⟨0, pool.replacer.order ++ [frameId], ?_, by simp,
        fun other inside => by simp [inside]⟩
      simp [unpin, pinned, last, LruReplacer.unpin, setFrame, queued]
  · refine ⟨(pool.frames frameId).pinCount - 1, pool.replacer.order, ?_, ?_, fun _ => id⟩
    · simp [unpin, pinned, last, setFrame]
    · rcases held.returns with single | queued
      · exact absurd (by rw [single]; decide) last
      · exact queued

/-- Unpinning a frame in use as dirty, or one that was not modified. -/
theorem Coherent.unpin {inUse : Option (Fin poolSize)} {isDirty : Bool}
    (coherent : Coherent pool inUse) (held : Held pool frameId page)
    (flagged : inUse = none ∨ inUse = some frameId ∧ isDirty = true) :
    Coherent (unpin frameId isDirty pool) none := by
  rcases unpin_eq held isDirty with ⟨pinCount, order, equation, -⟩
  rw [equation]
  have kept : Coherent (pool.setFrame frameId { pool.frames frameId with
      pinCount := pinCount, isDirty := (pool.frames frameId).isDirty || isDirty }) none := by
    refine coherent.setFrame rfl (fun _ found foundHeld clean => ?_) ?_
    · rcases flagged with rfl | ⟨-, rfl⟩
      · rw [setFrame_frames_self] at foundHeld clean
        exact coherent.synced frameId (by simp) found foundHeld (by simp at clean; exact clean.1)
      · simp at clean
    · rintro other ne -
      rcases flagged with rfl | ⟨rfl, -⟩
      · simp
      · simpa using Ne.symm ne
  exact ⟨kept.table, kept.frame, kept.allocated, kept.fileLength, kept.synced, kept.faultless⟩

theorem continues_unpin {inUse : Option (Fin poolSize)} (isDirty : Bool)
    (coherent : Coherent pool inUse) (held : Held pool frameId page) :
    Continues pool (unpin frameId isDirty pool) := by
  rcases unpin_eq held isDirty with ⟨pinCount, order, equation, -⟩
  rw [equation]
  have kept := coherent.continues_setFrame { pool.frames frameId with
    pinCount := pinCount, isDirty := (pool.frames frameId).isDirty || isDirty } held.page held.page
      rfl
  exact ⟨kept.view, kept.stored⟩

omit [Crc32] in
theorem available_unpin {isDirty : Bool} (held : Held pool frameId page) :
    (unpin frameId isDirty pool).Available frameId := by
  rcases unpin_eq held isDirty with ⟨pinCount, order, equation, queued, -⟩
  rw [equation]
  exact .inr queued

omit [Crc32] in
theorem available_unpin_of_ne {isDirty : Bool} (held : Held pool frameId page)
    {other : Fin poolSize}
    (ne : other ≠ frameId) (available : pool.Available other) :
    (unpin frameId isDirty pool).Available other := by
  rcases unpin_eq held isDirty with ⟨pinCount, order, equation, -, keeps⟩
  rw [equation]
  rcases available with empty | queued
  · exact .inl (by simpa [BufferPool.setFrame, ne] using empty)
  · exact .inr (keeps other queued)

omit [Crc32] in
/-- A frame gives one pin back. -/
theorem pins_unpin (isDirty : Bool) (held : Held pool frameId page) :
    (unpin frameId isDirty pool).pins frameId + 1 = pool.pins frameId := by
  have first : (pool.frames frameId).pinCount.toNat ≠ 0 :=
    fun zero => held.pinned (UInt32.toNat.inj zero)
  have down := Counter.toNat_pred held.pinned
  rw [pins, pins, BufferPool.unpin]
  dsimp only
  split_ifs with idle last
  · exact absurd idle held.pinned
  · simp only [setFrame_frames_self]
    omega
  · simp only [setFrame_frames_self]
    omega

omit [Crc32] in
theorem pins_unpin_of_ne {isDirty : Bool} {other : Fin poolSize} (ne : other ≠ frameId) :
    (unpin frameId isDirty pool).pins other = pool.pins other := by
  rw [pins, pins, BufferPool.unpin]
  dsimp only
  split_ifs
  · rfl
  · rw [setFrame_frames_of_ne ne]
  · rw [setFrame_frames_of_ne ne]

omit [Crc32] in
theorem disk_unpin (isDirty : Bool) : (unpin frameId isDirty pool).disk = pool.disk := by
  simp only [unpin]
  split
  · rfl
  · split <;> rfl

end InUse

section Flush

/-- The pool after the page of a frame has been flushed. -/
def flushed (pool : BufferPool poolSize) (frameId : Fin poolSize) (page : Page) :
    BufferPool poolSize :=
  (pool.written frameId page).setFrame frameId
    { (pool.written frameId page).frames frameId with isDirty := false }

/-- `flush_page` flushes a resident dirty page and does nothing otherwise. -/
theorem flushPage_eq {inUse : Option (Fin poolSize)} (coherent : Coherent pool inUse)
    (pageId : UInt32) :
    flushPage pageId pool = (.ok (), pool) ∧
        (∀ frameId, pool.pageTable.lookup pageId = some frameId →
          (pool.frames frameId).isDirty = false) ∨
      ∃ frameId page, (pool.frames frameId).page = some page ∧ page.id = pageId ∧
        flushPage pageId pool = (.ok (), pool.flushed frameId page) := by
  cases resident : pool.pageTable.lookup pageId with
  | none => exact .inl ⟨by simp [flushPage, resident], by simp⟩
  | some frameId =>
      rcases coherent.table resident with ⟨page, held, rfl⟩
      by_cases dirty : (pool.frames frameId).isDirty = true
      · refine .inr ⟨frameId, page, held, rfl, ?_⟩
        simp [flushPage, resident, dirty, Fallible.bind_apply,
          writeFrame_eq coherent.faultless held,
          flushed]
      · exact .inl ⟨by simp [flushPage, resident, dirty], by simpa using dirty⟩

theorem flushed_page : ((pool.flushed frameId page).frames frameId).page =
    some { page with data := page.data.finalizeChecksum } := by
  simp [flushed, written]

theorem stored_flushed : DiskManager.stored (pool.flushed frameId page).disk.file page.id =
    some page.data.finalizeChecksum :=
  DiskManager.stored_store_self page.id page.data

theorem Coherent.flushed {inUse : Option (Fin poolSize)} (coherent : Coherent pool inUse)
    (held : (pool.frames frameId).page = some page) :
    Coherent (pool.flushed frameId page) inUse := by
  have saved : Coherent (pool.written frameId page) inUse := coherent.written held fun _ _ => id
  refine saved.setFrame rfl (fun _ found foundHeld _ => ?_) fun _ _ => id
  have same := flushed_page.symm.trans foundHeld
  cases same
  exact ⟨_, stored_flushed, rfl⟩

theorem Coherent.continues_flushed {inUse : Option (Fin poolSize)} (coherent : Coherent pool inUse)
    (held : (pool.frames frameId).page = some page) :
    Continues pool (pool.flushed frameId page) := by
  have saved : Coherent (pool.written frameId page) inUse := coherent.written held fun _ _ => id
  have savedHeld : ((pool.written frameId page).frames frameId).page =
      some { page with data := page.data.finalizeChecksum } := by
    simp [BufferPool.written]
  exact (coherent.continues_written held).trans
    (saved.continues_setFrame _ savedHeld savedHeld rfl)

theorem available_flushed (held : (pool.frames frameId).page = some page) {other : Fin poolSize}
    (available : pool.Available other) : (pool.flushed frameId page).Available other := by
  rcases available with empty | queued
  · by_cases same : other = frameId
    · subst same
      simp [Frame.isEmpty, held] at empty
    · exact .inl (by simpa [BufferPool.flushed, written, BufferPool.setFrame, same] using empty)
  · exact .inr queued

theorem pins_flushed {other : Fin poolSize} :
    (pool.flushed frameId page).pins other = pool.pins other := by
  by_cases same : other = frameId
  · simp [same, pins, BufferPool.flushed, written]
  · simp [pins, BufferPool.flushed, written, setFrame_frames_of_ne same]

/-- `flush_page` puts a page that has a view into the file. -/
theorem flushPage_spec (coherent : Coherent pool none) (pageId : UInt32) :
    ∃ pool', flushPage pageId pool = (.ok (), pool') ∧ Coherent pool' none ∧
      Continues pool pool' ∧ pool'.disk.numPages = pool.disk.numPages ∧
      (∀ frameId, pool.Available frameId → pool'.Available frameId) ∧
      (∀ frameId, pool'.pins frameId = pool.pins frameId) ∧
      ∀ {data}, pool.view pageId = some data →
        (DiskManager.stored pool'.disk.file pageId).isSome := by
  rcases flushPage_eq coherent pageId with ⟨run, clean⟩ | ⟨frameId, page, held, rfl, run⟩
  · refine ⟨pool, run, coherent, .refl pool, rfl, fun _ => id, fun _ => rfl, ?_⟩
    intro data seen
    cases resident : pool.pageTable.lookup pageId with
    | none =>
        simp only [view, resident, Option.map_eq_some_iff] at seen
        rcases seen with ⟨found, present, -⟩
        simp [present]
    | some frameId =>
        rcases coherent.table resident with ⟨page, held, rfl⟩
        rcases coherent.synced frameId (by simp) page held (clean frameId resident) with
          ⟨found, present, -⟩
        simp [present]
  · exact ⟨_, run, coherent.flushed held, coherent.continues_flushed held, rfl,
      fun _ => available_flushed held, fun _ => pins_flushed,
      fun _ => by simp [stored_flushed]⟩

end Flush

end VenomDb.BufferPool
