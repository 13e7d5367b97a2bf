import VenomDb.Buffer.Eviction

/-!
# Calls whose reads and writes may fail

What each call on the pool can do when the operating system may refuse any read or write.
A victim leaves the queue before it is written back: if that write fails, a frame that holds
an unpinned page is in no queue any more, and nothing ever puts it back.
-/

namespace VenomDb

namespace BufferPool

open Fallible

variable {poolSize : ℕ} {pool pool' pool'' : BufferPool poolSize} {frameId : Fin poolSize}
  {pageId : UInt32}

section SameHolding

/-- The frames hold the pages they held, and the file grew only for pages in frames. -/
structure SameHolding (pool pool' : BufferPool poolSize) : Prop where
  pageIds : ∀ frameId,
    ((pool'.frames frameId).page.map Page.id) = ((pool.frames frameId).page.map Page.id)
  pins : SamePins pool pool'
  pageTable : pool'.pageTable = pool.pageTable
  numPages : pool'.disk.numPages = pool.disk.numPages
  file : ∀ bound, pool.disk.file.length ≤ bound →
    (∀ frameId page, (pool.frames frameId).page = some page → page.id.toNat < bound) →
      pool'.disk.file.length ≤ bound

theorem SameHolding.refl (pool : BufferPool poolSize) : SameHolding pool pool :=
  ⟨fun _ => rfl, .refl pool, rfl, rfl, fun _ short _ => short⟩

/-- A page held afterwards has the id of the page held before. -/
theorem SameHolding.held (same : SameHolding pool pool') {page : Page}
    (held : (pool'.frames frameId).page = some page) :
    ∃ old, (pool.frames frameId).page = some old ∧ old.id = page.id := by
  have ids := same.pageIds frameId
  rw [held] at ids
  exact Option.map_eq_some_iff.mp ids.symm

theorem SameHolding.held' (same : SameHolding pool pool') {page : Page}
    (held : (pool.frames frameId).page = some page) :
    ∃ new, (pool'.frames frameId).page = some new ∧ new.id = page.id := by
  have ids := same.pageIds frameId
  rw [held] at ids
  exact Option.map_eq_some_iff.mp ids

theorem SameHolding.isSome (same : SameHolding pool pool') (frameId : Fin poolSize) :
    (pool'.frames frameId).page.isSome = (pool.frames frameId).page.isSome := by
  have ids := congrArg Option.isSome (same.pageIds frameId)
  simpa using ids

theorem SameHolding.trans (first : SameHolding pool pool') (second : SameHolding pool' pool'') :
    SameHolding pool pool'' := by
  refine ⟨?_, first.pins.trans second.pins, second.pageTable.trans first.pageTable,
    second.numPages.trans first.numPages, ?_⟩
  · intro frameId
    rw [second.pageIds, first.pageIds]
  · intro bound short inside
    apply second.file bound (first.file bound short inside)
    intro frameId page held
    rcases first.held held with ⟨old, held', sameId⟩
    rw [← sameId]
    exact inside frameId old held'

/-- A frame changes, but neither its page id nor its pins. -/
theorem sameHolding_setFrame {frame : Frame}
    (sameId : frame.page.map Page.id = (pool.frames frameId).page.map Page.id)
    (samePins : frame.pinCount = (pool.frames frameId).pinCount) :
    SameHolding pool (pool.setFrame frameId frame) := by
  refine ⟨?_, samePins_setFrame samePins, rfl, rfl, fun _ short _ => short⟩
  intro other
  by_cases same : other = frameId
  · subst same
    rw [setFrame_frames_self, sameId]
  · rw [setFrame_frames_of_ne same]

end SameHolding

section Writing

/-- The operating system refuses the next read or write. -/
def Refuses (pool : BufferPool poolSize) : Prop := pool.disk.faults.head? = some true

instance (pool : BufferPool poolSize) : Decidable pool.Refuses :=
  inferInstanceAs (Decidable (_ = _))

/-- A read or a write uses up one answer of the operating system. -/
theorem systemCall_eq (disk : DiskManager) :
    DiskManager.systemCall disk =
      (if disk.faults.head? = some true then .error (.io .device) else .ok (),
        { disk with faults := disk.faults.tail }) := by
  rcases disk with ⟨file, numPages, _ | ⟨_ | _, faults⟩⟩
  · rfl
  · rfl
  · rfl

variable [Crc32]

theorem writePage_refused {disk : DiskManager} (refused : disk.faults.head? = some true)
    (page : Page) : DiskManager.writePage page disk =
      (.error (.io .device), { disk with faults := disk.faults.tail }) := by
  apply bind_error
  rw [systemCall_eq, if_pos refused]

theorem writePage_done {disk : DiskManager} (granted : disk.faults.head? ≠ some true)
    (page : Page) : DiskManager.writePage page disk =
      (.ok (), { disk with
        faults := disk.faults.tail
        file := DiskManager.store disk.file page.id.toNat page.data.finalizeChecksum }) := by
  have call : DiskManager.systemCall disk = (.ok (), { disk with faults := disk.faults.tail }) := by
    rw [systemCall_eq, if_neg granted]
  rw [DiskManager.writePage, bind_ok call]
  rfl

/-- Writing a frame back changes nothing that is held, and fails exactly when it is refused. -/
theorem writeFrame_cases {page : Page} (held : (pool.frames frameId).page = some page) :
    ∃ pool', SameHolding pool pool' ∧
      ((pool.Refuses ∧ writeFrame frameId pool = (.error (.io .device), pool')) ∨
        (¬ pool.Refuses ∧ writeFrame frameId pool = (.ok (), pool'))) := by
  let frame : Frame := { pool.frames frameId with
    page := some { page with data := page.data.finalizeChecksum } }
  have same : SameHolding pool (pool.setFrame frameId frame) :=
    sameHolding_setFrame (by simp [frame, held]) rfl
  have start : writeFrame frameId pool =
      onDisk (DiskManager.writePage page) (pool.setFrame frameId frame) := by
    rw [writeFrame, get_bind, held]
    dsimp only
    rw [modify_bind]
  rw [start]
  by_cases refused : pool.Refuses
  · refine ⟨{ pool.setFrame frameId frame with
      disk := { pool.disk with faults := pool.disk.faults.tail } }, ?_, .inl ⟨refused, ?_⟩⟩
    · exact ⟨same.pageIds, ⟨same.pins.replacer, same.pins.pinCount⟩, rfl, rfl,
        fun _ short _ => short⟩
    · rw [onDisk, writePage_refused (by exact refused)]
      rfl
  · refine ⟨{ pool.setFrame frameId frame with
      disk := { pool.disk with
        faults := pool.disk.faults.tail
        file := DiskManager.store pool.disk.file page.id.toNat page.data.finalizeChecksum } },
      ?_, .inr ⟨refused, ?_⟩⟩
    · refine ⟨same.pageIds, ⟨same.pins.replacer, same.pins.pinCount⟩, rfl, rfl, ?_⟩
      intro bound short inside
      have here := inside frameId page held
      dsimp only
      rw [DiskManager.length_store]
      omega
    · rw [onDisk, writePage_done (by exact refused)]
      rfl

/-- The victim of an eviction is gone: from its frame, from the table and from the queue. -/
def cleared (pool : BufferPool poolSize) (victimId : Fin poolSize) (pageId : UInt32)
    (order : List (Fin poolSize)) : BufferPool poolSize :=
  { pool.setFrame victimId Frame.new with
    pageTable := pool.pageTable.erase pageId
    replacer := ⟨order⟩ }

/-- Everything `find_free_frame` can do. -/
theorem findFreeFrame_ends (pool : BufferPool poolSize) :
    (∃ frameId, (pool.frames frameId).page = none ∧ findFreeFrame pool = (.ok frameId, pool)) ∨
    ((∀ frameId, (pool.frames frameId).page.isSome) ∧
      ((pool.replacer.order = [] ∧ findFreeFrame pool = (.error (.io .poolFull), pool)) ∨
      ∃ victimId order pool', pool.replacer.order = victimId :: order ∧ SameHolding pool pool' ∧
        (((pool.frames victimId).isDirty = true ∧ pool.Refuses ∧
          findFreeFrame pool = (.error (.io .device), { pool' with replacer := ⟨order⟩ })) ∨
        (¬ ((pool.frames victimId).isDirty = true ∧ pool.Refuses) ∧
          ∃ page, (pool.frames victimId).page = some page ∧
            findFreeFrame pool = (.ok victimId, pool'.cleared victimId page.id order))))) := by
  cases search : (List.finRange poolSize).find? fun frameId => (pool.frames frameId).isEmpty with
  | some frameId =>
      have empty : (pool.frames frameId).page = none := by
        simpa [Frame.isEmpty] using List.find?_some search
      exact .inl ⟨frameId, empty, by rw [findFreeFrame, get_bind, search]; rfl⟩
  | none =>
      have full : ∀ frameId, (pool.frames frameId).page.isSome := by
        intro frameId
        have occupied := List.find?_eq_none.mp search frameId (List.mem_finRange frameId)
        simpa [Frame.isEmpty, Option.isSome_iff_ne_none] using occupied
      refine .inr ⟨full, ?_⟩
      rcases queue : pool.replacer.order with _ | ⟨victimId, order⟩
      · refine .inl ⟨rfl, ?_⟩
        rw [findFreeFrame, get_bind, search]
        simp [LruReplacer.evict, queue]
      · rcases Option.isSome_iff_exists.mp (full victimId) with ⟨page, held⟩
        have start : findFreeFrame pool =
            (do
              if (pool.frames victimId).isDirty then writeFrame victimId
              clearFrame victimId) { pool with replacer := ⟨order⟩ } := by
          rw [findFreeFrame, get_bind, search]
          simp only [LruReplacer.evict, queue, modify_bind]
          rfl
        have clear {other : BufferPool poolSize} {new : Page}
            (still : (other.frames victimId).page = some new) (sameId : new.id = page.id)
            (queued : other.replacer = ⟨order⟩) :
            clearFrame victimId other = (.ok victimId, other.cleared victimId page.id order) := by
          simp only [clearFrame, modify_bind, still, sameId]
          rw [cleared, ← queued]
          rfl
        by_cases dirty : (pool.frames victimId).isDirty = true
        · -- the queue is already shorter when the page is written
          let popped : BufferPool poolSize := { pool with replacer := ⟨order⟩ }
          have heldPopped : (popped.frames victimId).page = some page := held
          rcases writeFrame_cases heldPopped with ⟨written, same, outcome⟩
          have queued : written.replacer = ⟨order⟩ := same.pins.replacer
          have back : SameHolding pool { written with replacer := pool.replacer } :=
            ⟨same.pageIds, ⟨rfl, same.pins.pinCount⟩, same.pageTable, same.numPages, same.file⟩
          refine .inr ⟨victimId, order, _, rfl, back, ?_⟩
          rw [start, if_pos dirty]
          rcases outcome with ⟨refused, run⟩ | ⟨granted, run⟩
          · refine .inl ⟨dirty, refused, ?_⟩
            rw [bind_error run, ← queued]
          · refine .inr ⟨fun lost => granted lost.2, page, held, ?_⟩
            rcases same.held' heldPopped with ⟨new, still, sameId⟩
            rw [bind_ok run]
            exact clear still sameId queued
        · refine .inr ⟨victimId, order, pool, rfl, .refl pool, .inr ⟨fun lost => dirty lost.1,
            page, held, ?_⟩⟩
          have still : (({ pool with replacer := ⟨order⟩ } : BufferPool poolSize).frames
            victimId).page = some page := held
          rw [start, if_neg dirty]
          exact clear still rfl rfl

/-- Flushing a page changes nothing that is held, whether or not the write is refused. -/
theorem sameHolding_flushPage (pageId : UInt32) (pool : BufferPool poolSize) :
    SameHolding pool (flushPage pageId pool).2 := by
  rw [flushPage, get_bind]
  cases pool.pageTable.lookup pageId with
  | none => exact .refl pool
  | some frameId =>
      dsimp only
      split_ifs with dirty
      · rcases held : (pool.frames frameId).page with _ | page
        · have nothing : writeFrame frameId pool = (.ok (), pool) := by
            rw [writeFrame, get_bind, held]
            rfl
          rw [bind_ok nothing]
          exact sameHolding_setFrame rfl rfl
        · rcases writeFrame_cases held with ⟨written, same, ⟨-, run⟩ | ⟨-, run⟩⟩
          · rw [bind_error run]
            exact same
          · rw [bind_ok run]
            exact same.trans (sameHolding_setFrame rfl rfl)
      · exact .refl pool

theorem sameHolding_flushAll (order : List UInt32 → List UInt32) (pool : BufferPool poolSize) :
    SameHolding pool (flushAll order pool).2 := by
  have step : ∀ pageId, Keeps (SameHolding pool) (flushPage pageId) := by
    intro pageId other same
    exact same.trans (sameHolding_flushPage pageId other)
  exact keeps_forEach step pool (.refl pool)

end Writing

section Calls

variable [Crc32]

/-- `new_page` is `find_free_frame`, the counter and `install`. -/
theorem newPage_ends (pool : BufferPool poolSize) :
    (∃ failure freed, findFreeFrame pool = (.error failure, freed) ∧
      newPage pool = (.error failure, freed)) ∨
    ∃ frameId freed, findFreeFrame pool = (.ok frameId, freed) ∧
      (newPage pool = (.error (.panic .overflow), freed) ∨
        freed.disk.numPages.toNat + 1 < 2 ^ 32 ∧
          newPage pool = (.ok (freed.disk.numPages, frameId),
            BufferPool.install frameId (Page.new freed.disk.numPages) true
              { freed with disk := { freed.disk with numPages := freed.disk.numPages + 1 } })) := by
  rcases run : findFreeFrame pool with ⟨failure | frameId, freed⟩
  · exact .inl ⟨failure, freed, rfl, by rw [newPage, bind_error run]⟩
  · refine .inr ⟨frameId, freed, rfl, ?_⟩
    rw [newPage, bind_ok run]
    by_cases room : freed.disk.numPages.toNat + 1 < 2 ^ 32
    · refine .inr ⟨room, ?_⟩
      have allocated : onDisk DiskManager.allocatePage freed = (.ok freed.disk.numPages,
          { freed with disk := { freed.disk with numPages := freed.disk.numPages + 1 } }) := by
        rw [onDisk, DiskManager.allocatePage, if_pos room]
      rw [bind_ok allocated, modify_bind]
      rfl
    · refine .inl ?_
      have overflow : onDisk DiskManager.allocatePage freed =
          (.error (.panic .overflow), freed) := by
        rw [onDisk, DiskManager.allocatePage, if_neg room]
      rw [bind_error overflow]

/-- A read gives the page with the id asked for, or fails; only the answers of the operating
system are used up. -/
theorem readPage_ends (pageId : UInt32) (disk : DiskManager) :
    (∃ error, DiskManager.readPage pageId disk =
        (.error (.io error), { disk with faults := disk.faults.tail }) ∧ error ≠ .poolFull) ∨
      ∃ data, pageId.toNat < disk.file.length ∧ DiskManager.readPage pageId disk =
        (.ok (Page.fromBytes pageId data), { disk with faults := disk.faults.tail }) := by
  by_cases refused : disk.faults.head? = some true
  · refine .inl ⟨.device, ?_, by simp⟩
    apply bind_error
    rw [systemCall_eq, if_pos refused]
  · have call : DiskManager.systemCall disk =
        (.ok (), { disk with faults := disk.faults.tail }) := by
      rw [systemCall_eq, if_neg refused]
    rw [DiskManager.readPage, bind_ok call, get_bind]
    dsimp only
    rcases present : disk.file[pageId.toNat]? with _ | data
    · exact .inl ⟨.unexpectedEof, rfl, by simp⟩
    · by_cases valid : data.verifyChecksum = true
      · refine .inr ⟨data, (List.getElem?_eq_some_iff.mp present).1, ?_⟩
        simp [Page.fromBytes, valid]
      · refine .inl ⟨.checksumMismatch pageId, ?_, by simp⟩
        simp [Page.fromBytes, valid]

/-- `fetch_page` of a page that is not resident is `find_free_frame`, a read and `install`. -/
theorem fetchPage_ends (missing : pool.pageTable.lookup pageId = none) :
    (∃ failure freed,
      findFreeFrame { pool with misses := pool.misses + 1 } = (.error failure, freed) ∧
        fetchPage pageId pool = (.error failure, freed)) ∨
    ∃ frameId freed,
      findFreeFrame { pool with misses := pool.misses + 1 } = (.ok frameId, freed) ∧
        ((∃ error, error ≠ .poolFull ∧ fetchPage pageId pool = (.error (.io error),
          { freed with disk := { freed.disk with faults := freed.disk.faults.tail } })) ∨
        ∃ data, pageId.toNat < freed.disk.file.length ∧ fetchPage pageId pool = (.ok frameId,
          BufferPool.install frameId (Page.fromBytes pageId data) false
            { freed with disk := { freed.disk with faults := freed.disk.faults.tail } })) := by
  rw [fetchPage, get_bind, missing]
  dsimp only
  rw [modify_bind]
  rcases run : findFreeFrame { pool with misses := pool.misses + 1 } with ⟨failure | frameId, freed⟩
  · exact .inl ⟨failure, freed, rfl, by rw [bind_error run]⟩
  · refine .inr ⟨frameId, freed, rfl, ?_⟩
    rw [bind_ok run]
    rcases readPage_ends pageId freed.disk with ⟨error, read, other⟩ | ⟨data, inside, read⟩
    · refine .inl ⟨error, other, ?_⟩
      apply bind_error
      rw [onDisk, read]
    · refine .inr ⟨data, inside, ?_⟩
      have done : onDisk (DiskManager.readPage pageId) freed = (.ok (Page.fromBytes pageId data),
          { freed with disk := { freed.disk with faults := freed.disk.faults.tail } }) := by
        rw [onDisk, read]
      rw [bind_ok done, modify_bind]
      rfl

end Calls

section Evictable

/-- Every frame that holds an unpinned page is in the queue. -/
def Evictable (pool : BufferPool poolSize) : Prop :=
  ∀ frameId, (pool.frames frameId).page.isSome → (pool.frames frameId).pinCount = 0 →
    frameId ∈ pool.replacer.order

/-- No frame is in the queue twice. -/
def QueuedOnce (pool : BufferPool poolSize) : Prop := pool.replacer.order.Nodup

/-- The next victim is dirty and unpinned, and its write-back will be refused. -/
def LosesVictim (pool : BufferPool poolSize) : Prop :=
  (∀ frameId, (pool.frames frameId).page.isSome) ∧
    ∃ victimId, pool.replacer.order.head? = some victimId ∧
      (pool.frames victimId).pinCount = 0 ∧ (pool.frames victimId).isDirty = true ∧ pool.Refuses

theorem SameHolding.evictable (same : SameHolding pool pool') (evictable : pool.Evictable) :
    pool'.Evictable := by
  intro frameId holds unpinned
  rw [same.pins.replacer]
  apply evictable frameId
  · rwa [← same.isSome]
  · rwa [← same.pins.pinCount]

theorem SameHolding.queuedOnce (same : SameHolding pool pool') (once : pool.QueuedOnce) :
    pool'.QueuedOnce := by
  rw [QueuedOnce, same.pins.replacer]
  exact once

theorem Evictable.install (evictable : pool.Evictable) (frameId : Fin poolSize) (page : Page)
    (isDirty : Bool) : (pool.install frameId page isDirty).Evictable := by
  intro other holds unpinned
  by_cases same : other = frameId
  · subst same
    simp [BufferPool.install] at unpinned
  · have elsewhere : (pool.install frameId page isDirty).frames other = pool.frames other := by
      simp [BufferPool.install, same]
    rw [elsewhere] at holds unpinned
    simp [BufferPool.install, LruReplacer.pin, same, evictable other holds unpinned]

/-- The disk has no part in it. -/
theorem Evictable.withDisk (evictable : pool.Evictable) (disk : DiskManager) :
    Evictable { pool with disk := disk } := evictable

theorem QueuedOnce.install (once : pool.QueuedOnce) (frameId : Fin poolSize) (page : Page)
    (isDirty : Bool) : (pool.install frameId page isDirty).QueuedOnce :=
  List.Nodup.filter _ once

variable [Crc32]

/-- A frame is found and the rest stays evictable, or none is found and only a victim whose
write-back was refused is missing from the queue. -/
theorem findFreeFrame_evictable (evictable : pool.Evictable) (once : pool.QueuedOnce) :
    (∃ frameId freed, findFreeFrame pool = (.ok frameId, freed) ∧ freed.Evictable ∧
      ¬ pool.LosesVictim) ∨
    ∃ failure freed, findFreeFrame pool = (.error failure, freed) ∧
      (freed.Evictable ↔ ¬ pool.LosesVictim) := by
  rcases findFreeFrame_ends pool with ⟨frameId, empty, run⟩ | ⟨full, ⟨queue, run⟩ |
    ⟨victimId, order, other, queue, same, ⟨dirty, refused, run⟩ | ⟨granted, page, held, run⟩⟩⟩
  · refine .inl ⟨frameId, pool, run, evictable, fun lost => ?_⟩
    have holds := lost.1 frameId
    simp [empty] at holds
  · refine .inr ⟨_, pool, run, ?_⟩
    simp [evictable, LosesVictim, queue]
  · refine .inr ⟨_, _, run, ?_, ?_⟩
    · rintro evictable' ⟨-, front, isFront, unpinned, -⟩
      obtain rfl : victimId = front := by simpa [queue] using isFront
      have again : victimId ∈ order := by
        apply evictable' victimId
        · rw [same.isSome]
          exact full victimId
        · rw [same.pins.pinCount, unpinned]
      rw [QueuedOnce, queue] at once
      exact (List.nodup_cons.mp once).1 again
    · intro kept frameId holds unpinned
      have waiting : frameId ∈ victimId :: order := by
        rw [← queue]
        apply evictable frameId (full frameId)
        rwa [← same.pins.pinCount]
      rcases List.mem_cons.mp waiting with rfl | later
      · refine absurd ⟨full, frameId, by simp [queue], ?_, dirty, refused⟩ kept
        rwa [← same.pins.pinCount]
      · exact later
  · refine .inl ⟨victimId, _, run, ?_, ?_⟩
    · intro frameId holds unpinned
      by_cases isVictim : frameId = victimId
      · subst isVictim
        simp [cleared, Frame.new] at holds
      · have elsewhere : (other.cleared victimId page.id order).frames frameId =
            other.frames frameId := setFrame_frames_of_ne isVictim _
        rw [elsewhere] at holds unpinned
        have waiting : frameId ∈ victimId :: order := by
          rw [← queue]
          apply evictable frameId (full frameId)
          rwa [← same.pins.pinCount]
        exact (List.mem_cons.mp waiting).resolve_left isVictim
    · rintro ⟨-, front, isFront, -, dirty, refused⟩
      obtain rfl : victimId = front := by simpa [queue] using isFront
      exact granted ⟨dirty, refused⟩

theorem newPage_evictable (evictable : pool.Evictable) (once : pool.QueuedOnce) :
    (newPage pool).2.Evictable ↔ ¬ pool.LosesVictim := by
  rcases findFreeFrame_evictable evictable once with
    ⟨frameId, freed, run, kept, found⟩ | ⟨failure, freed, run, outcome⟩
  · simp only [found, not_false_eq_true, iff_true]
    rcases newPage_ends pool with ⟨_, _, run', -⟩ | ⟨_, _, run', ran | ⟨-, ran⟩⟩
    · simp [run] at run'
    · cases run.symm.trans run'
      rw [ran]
      exact kept
    · cases run.symm.trans run'
      rw [ran]
      exact (kept.withDisk _).install _ _ _
  · rcases newPage_ends pool with ⟨_, _, run', ran⟩ | ⟨_, _, run', -⟩
    · cases run.symm.trans run'
      rw [ran]
      exact outcome
    · simp [run] at run'

theorem fetchPage_evictable (evictable : pool.Evictable) (once : pool.QueuedOnce)
    (missing : pool.pageTable.lookup pageId = none) :
    (fetchPage pageId pool).2.Evictable ↔ ¬ pool.LosesVictim := by
  let missed : BufferPool poolSize := { pool with misses := pool.misses + 1 }
  have evictable' : missed.Evictable := evictable
  have once' : missed.QueuedOnce := once
  rcases findFreeFrame_evictable evictable' once' with
    ⟨frameId, freed, run, kept, found⟩ | ⟨failure, freed, run, outcome⟩
  · have found' : ¬ pool.LosesVictim := found
    simp only [found', not_false_eq_true, iff_true]
    rcases fetchPage_ends missing with ⟨_, _, run', -⟩ | ⟨_, _, run', ⟨_, -, ran⟩ | ⟨_, -, ran⟩⟩
    · simp [missed, run'] at run
    · cases run.symm.trans run'
      rw [ran]
      exact kept.withDisk _
    · cases run.symm.trans run'
      rw [ran]
      exact (kept.withDisk _).install _ _ _
  · rcases fetchPage_ends missing with ⟨_, _, run', ran⟩ | ⟨_, _, run', -⟩
    · cases run.symm.trans run'
      rw [ran]
      exact outcome
    · simp [missed, run'] at run

/-- A hit queues the frame it pins and leaves the others where they are. -/
theorem evictable_fetchPage_resident (evictable : pool.Evictable)
    (resident : pool.pageTable.lookup pageId = some frameId) :
    (fetchPage pageId pool).2.Evictable := by
  rcases fetchPage_resident_cases resident with ⟨pinnable, run⟩ | ⟨-, run⟩
  swap
  · rw [run]
    exact evictable
  rw [run]
  intro other holds unpinned
  by_cases same : other = frameId
  · subst same
    rw [hit, setFrame_frames_self] at unpinned
    exact absurd unpinned (Counter.succ_ne_zero pinnable)
  · have elsewhere : (pool.setFrame frameId { pool.frames frameId with
        pinCount := (pool.frames frameId).pinCount + 1 }).frames other = pool.frames other :=
      setFrame_frames_of_ne same _
    rw [hit] at holds unpinned ⊢
    rw [elsewhere] at holds unpinned
    simp [LruReplacer.recordAccess, LruReplacer.pin, same, evictable other holds unpinned]

omit [Crc32] in
theorem Evictable.unpin (evictable : pool.Evictable) (frameId : Fin poolSize) (isDirty : Bool) :
    (pool.unpin frameId isDirty).Evictable := by
  have elsewhere {other : Fin poolSize} (apart : other ≠ frameId) (frame : Frame) :
      (pool.setFrame frameId frame).frames other = pool.frames other :=
    setFrame_frames_of_ne apart frame
  rw [BufferPool.unpin]
  dsimp only
  split_ifs with idle last
  · exact evictable
  · -- the last pin is returned: the frame joins the queue
    intro other holds unpinned
    by_cases same : other = frameId
    · subst same
      simp only [LruReplacer.unpin]
      split_ifs with queued
      · exact queued
      · simp
    · dsimp only at holds unpinned ⊢
      rw [elsewhere same] at holds unpinned
      have waiting := evictable other holds unpinned
      simp only [LruReplacer.unpin]
      split_ifs
      · exact waiting
      · exact List.mem_append_left _ waiting
  · intro other holds unpinned
    by_cases same : other = frameId
    · subst same
      rw [setFrame_frames_self] at unpinned
      exact absurd unpinned last
    · rw [elsewhere same] at holds unpinned
      exact evictable other holds unpinned

end Evictable

section Once

theorem once_unpin (once : pool.QueuedOnce) (frameId : Fin poolSize) (isDirty : Bool) :
    (pool.unpin frameId isDirty).QueuedOnce := by
  rw [BufferPool.unpin]
  dsimp only
  split_ifs
  · exact once
  · simp only [QueuedOnce, LruReplacer.unpin]
    split_ifs with queued
    · exact once
    · refine List.nodup_append.mpr ⟨once, by simp, ?_⟩
      intro other waiting last isLast
      simp only [List.mem_singleton] at isLast
      subst isLast
      rintro rfl
      exact queued waiting
  · exact once

variable [Crc32]

theorem keeps_once_findFreeFrame :
    Keeps (QueuedOnce : BufferPool poolSize → Prop) findFreeFrame := by
  intro pool once
  rcases findFreeFrame_ends pool with ⟨frameId, -, run⟩ | ⟨-, ⟨-, run⟩ |
    ⟨victimId, order, other, queue, -, ⟨-, -, run⟩ | ⟨-, page, -, run⟩⟩⟩
  · rw [run]
    exact once
  · rw [run]
    exact once
  · rw [run]
    rw [QueuedOnce, queue] at once
    exact (List.nodup_cons.mp once).2
  · rw [run]
    rw [QueuedOnce, queue] at once
    exact (List.nodup_cons.mp once).2

omit [Crc32] in
theorem keeps_once_onDisk {α : Type} (operation : Fallible Failure DiskManager α) :
    Keeps (QueuedOnce : BufferPool poolSize → Prop) (onDisk operation) := fun _ once => once

theorem keeps_once_newPage : Keeps (QueuedOnce : BufferPool poolSize → Prop) newPage := by
  apply keeps_once_findFreeFrame.bind
  intro frameId
  apply (keeps_once_onDisk _).bind
  intro pageId
  apply Keeps.bind
  · exact keeps_modify fun _ once => once.install _ _ _
  · exact fun _ => keeps_pure _

theorem keeps_once_fetchPage (pageId : UInt32) :
    Keeps (QueuedOnce : BufferPool poolSize → Prop) (fetchPage pageId) := by
  apply keeps_get_bind
  intro pool once
  cases pool.pageTable.lookup pageId with
  | some frameId =>
      have again : (((pool.replacer.pin frameId).recordAccess frameId).order).Nodup := by
        simp only [LruReplacer.recordAccess, LruReplacer.pin]
        refine List.nodup_append.mpr ⟨(once.filter _).filter _, by simp, ?_⟩
        intro other waiting last isLast
        simp only [List.mem_singleton] at isLast
        subst isLast
        simpa using (List.mem_filter.mp waiting).2
      dsimp only
      split_ifs
      · exact again
      · exact once
  | none =>
      have rest : Keeps (QueuedOnce : BufferPool poolSize → Prop) (do
          let frameId ← findFreeFrame
          let page ← onDisk (DiskManager.readPage pageId)
          Fallible.modify (BufferPool.install frameId page false)
          return frameId) := by
        apply keeps_once_findFreeFrame.bind
        intro frameId
        apply (keeps_once_onDisk _).bind
        intro page
        apply Keeps.bind
        · exact keeps_modify fun _ once => once.install _ _ _
        · exact fun _ => keeps_pure _
      exact rest { pool with misses := pool.misses + 1 } once

theorem once_apply (once : pool.QueuedOnce) (call : Call poolSize) :
    (call.apply pool).QueuedOnce := by
  cases call with
  | newPage => exact keeps_once_newPage pool once
  | fetchPage pageId => exact keeps_once_fetchPage pageId pool once
  | getPageMut frameId page =>
      rw [Call.apply]
      split
      · exact once
      · exact once
  | unpin frameId isDirty => exact once_unpin once frameId isDirty
  | flushPage pageId => exact (sameHolding_flushPage pageId pool).queuedOnce once
  | flushAll order => exact (sameHolding_flushAll order pool).queuedOnce once

theorem once_after (disk : DiskManager) (calls : List (Call poolSize)) :
    (after disk calls).QueuedOnce := by
  induction calls using List.reverseRecOn with
  | nil => exact List.nodup_nil
  | append_singleton calls call ih =>
      rw [after_concat]
      exact once_apply ih call

end Once

section Runs

variable [Crc32]

/-- A call of `new_page`, or of `fetch_page` for a page that is not resident, whose victim cannot
be written back. -/
def Call.LosesVictim (pool : BufferPool poolSize) : Call poolSize → Prop
  | .newPage => pool.LosesVictim
  | .fetchPage pageId => pool.pageTable.lookup pageId = none ∧ pool.LosesVictim
  | _ => False

/-- One call: every unpinned page is still queued exactly if no victim is lost. -/
theorem Call.evictable_apply (evictable : pool.Evictable) (once : pool.QueuedOnce)
    (call : Call poolSize) : (call.apply pool).Evictable ↔ ¬ call.LosesVictim pool := by
  cases call with
  | newPage => exact newPage_evictable evictable once
  | fetchPage pageId =>
      cases resident : pool.pageTable.lookup pageId with
      | none =>
          simpa [Call.LosesVictim, resident, Call.apply] using
            fetchPage_evictable evictable once resident
      | some frameId =>
          simpa [Call.LosesVictim, resident, Call.apply] using
            evictable_fetchPage_resident evictable resident
  | getPageMut frameId page =>
      simp only [Call.LosesVictim, not_false_eq_true, iff_true, Call.apply]
      rcases held : pool.getPage frameId with _ | old
      · exact evictable
      · intro other holds unpinned
        dsimp only [setPage] at holds unpinned ⊢
        by_cases same : other = frameId
        · subst same
          rw [setFrame_frames_self] at unpinned
          exact evictable other (by rw [getPage] at held; simp [held]) unpinned
        · rw [setFrame_frames_of_ne same] at holds unpinned
          exact evictable other holds unpinned
  | unpin frameId isDirty =>
      simpa [Call.LosesVictim, Call.apply] using evictable.unpin frameId isDirty
  | flushPage pageId =>
      simpa [Call.LosesVictim, Call.apply] using
        (sameHolding_flushPage pageId pool).evictable evictable
  | flushAll order =>
      simpa [Call.LosesVictim, Call.apply] using
        (sameHolding_flushAll order pool).evictable evictable

/-- With an unpinned frame neither call says that all pages are pinned. -/
theorem Evictable.not_poolFull (evictable : pool.Evictable)
    (unpinned : ∃ frameId, (pool.frames frameId).pinCount = 0) :
    (newPage pool).1 ≠ .error (.io .poolFull) ∧
      ∀ pageId, (fetchPage pageId pool).1 ≠ .error (.io .poolFull) := by
  have search {other : BufferPool poolSize} (frames : other.frames = pool.frames)
      (replacer : other.replacer = pool.replacer) {freed : BufferPool poolSize} :
      findFreeFrame other ≠ (.error (.io .poolFull), freed) := by
    intro full
    rcases findFreeFrame_ends other with ⟨_, -, run⟩ | ⟨occupied, ⟨queue, -⟩ |
      ⟨_, _, _, -, -, ⟨-, -, run⟩ | ⟨-, _, -, run⟩⟩⟩
    · simp [run] at full
    · rcases unpinned with ⟨frameId, idle⟩
      rw [frames] at occupied
      have waiting := evictable frameId (occupied frameId) idle
      rw [← replacer, queue] at waiting
      simp at waiting
    · simp [run] at full
    · simp [run] at full
  constructor
  · intro full
    rcases newPage_ends pool with ⟨failure, freed, run, ran⟩ | ⟨_, _, -, ran | ⟨-, ran⟩⟩
    · rw [ran] at full
      cases full
      exact search rfl rfl run
    · simp [ran] at full
    · simp [ran] at full
  · intro pageId full
    cases resident : pool.pageTable.lookup pageId with
    | some frameId =>
        rcases fetchPage_resident_cases resident with ⟨-, run⟩ | ⟨-, run⟩
        · simp [run] at full
        · simp [run] at full
    | none =>
        rcases fetchPage_ends resident with
          ⟨failure, freed, run, ran⟩ | ⟨_, _, -, ⟨error, other, ran⟩ | ⟨_, -, ran⟩⟩
        · rw [ran] at full
          cases full
          exact search (by rfl) (by rfl) run
        · rw [ran] at full
          cases full
          exact other rfl
        · simp [ran] at full

/-- Every unpinned page can be evicted, and a pool with an unpinned frame finds a frame. -/
def Reclaims (pool : BufferPool poolSize) : Prop :=
  pool.Evictable ∧ ((∃ frameId, (pool.frames frameId).pinCount = 0) →
    (newPage pool).1 ≠ .error (.io .poolFull) ∧
      ∀ pageId, (fetchPage pageId pool).1 ≠ .error (.io .poolFull))

/-- No write-back of an unpinned victim is refused. -/
def VictimsWritten (disk : DiskManager) (calls : List (Call poolSize)) : Prop :=
  ∀ before call, before ++ [call] <+: calls → ¬ call.LosesVictim (after disk before)

/-- Through a whole sequence of calls, with any reads and writes refused, unpinned pages stay
evictable exactly if no write-back of an unpinned victim is refused. -/
theorem reclaims_iff_victimsWritten (disk : DiskManager) (calls : List (Call poolSize)) :
    (∀ before, before <+: calls → (after disk before).Reclaims) ↔ VictimsWritten disk calls := by
  constructor
  · intro reclaims before call made
    have earlier := reclaims before ((List.prefix_append before [call]).trans made)
    have later := reclaims (before ++ [call]) made
    rw [after_concat] at later
    exact (call.evictable_apply earlier.1 (once_after disk before)).mp later.1
  · intro written before
    have evictable : before <+: calls → (after disk before).Evictable := by
      induction before using List.reverseRecOn with
      | nil =>
          intro _ frameId holds
          simp [after, new, Frame.new] at holds
      | append_singleton before call ih =>
          intro made
          have earlier := ih ((List.prefix_append before [call]).trans made)
          rw [after_concat]
          exact (call.evictable_apply earlier (once_after disk before)).mpr
            (written before call made)
    intro made
    exact ⟨evictable made, (evictable made).not_poolFull⟩

end Runs

section Lost

attribute [local instance] Crc32.ieee

/-- One frame, a page allocated and unpinned in it, then a second allocation. -/
def allocatedTwice : List (Call 1) := [.newPage, .unpin ⟨0, Nat.one_pos⟩ true, .newPage]

/-- The write-back of the first page is refused, and its frame can never be used again. -/
theorem victim_lost :
    (¬ ∀ before, before <+: allocatedTwice →
      (after (DiskManager.new [] [true]) before).Reclaims) ∧
    ((after (DiskManager.new [] [true]) allocatedTwice).frames 0).pinCount = 0 ∧
    (newPage (after (DiskManager.new [] [true]) allocatedTwice)).1 = .error (.io .poolFull) := by
  refine ⟨fun reclaims => ?_, rfl, rfl⟩
  have queued := (reclaims allocatedTwice (List.prefix_refl _)).1 0 rfl rfl
  exact absurd queued (by decide)

end Lost

end BufferPool

end VenomDb
