import VenomDb.Buffer.Transparency

/-!
# Who holds a pin

A client that holds one frame at a time and returns its pin finds all pins at zero afterwards,
and every frame can be handed out again. A call that fails leaves no pin behind.
-/

namespace VenomDb.BufferPool

open Fallible

variable {poolSize : ℕ} [Crc32] {pool : BufferPool poolSize} {held : Option (Fin poolSize)}
  {frameId : Fin poolSize} {pins : UInt32}

/-- One frame at most has pins. The others can be handed out, and the disk does not fail. -/
structure Pins (pool : BufferPool poolSize) (held : Option (Fin poolSize)) (pins : UInt32) :
    Prop where
  count : ∀ frameId, held = some frameId → (pool.frames frameId).pinCount = pins
  free : ∀ frameId, held ≠ some frameId →
    (pool.frames frameId).pinCount = 0 ∧ pool.Available frameId
  faultless : pool.disk.faults = []

/-- No frame has a pin. -/
abbrev Idle (pool : BufferPool poolSize) : Prop := Pins pool none 0

/-- One frame has one pin. -/
abbrev Busy (frameId : Fin poolSize) (pool : BufferPool poolSize) : Prop :=
  Pins pool (some frameId) 1

/-- A failure without a message: an I/O error or a panic. -/
def IsRaw (failure : Failure) : Prop := ∀ error, failure ≠ .sql error

/-- A call that fails without a message and leaves no pin. -/
abbrev Refused (failure : Failure) (pool : BufferPool poolSize) : Prop := IsRaw failure ∧ pool.Idle

section Frames

omit [Crc32]

/-- A failure without a message gets one, unless it is a panic. -/
theorem wrapIo_of_isRaw {failure : Failure} (isRaw : IsRaw failure) (wrap : IoError → SqlError) :
    (∃ panic, failure.wrapIo wrap = .panic panic) ∨
      ∃ error, failure.wrapIo wrap = .sql (wrap error) := by
  cases failure with
  | io error => exact .inr ⟨error, rfl⟩
  | sql error => exact absurd rfl (isRaw error)
  | panic panic => exact .inl ⟨panic, rfl⟩

theorem Pins.hold (idle : pool.Idle) (frameId : Fin poolSize) : Pins pool (some frameId) 0 where
  count := fun other _ => (idle.free other (by simp)).1
  free := fun other _ => idle.free other (by simp)
  faultless := idle.faultless

/-- A frame that has no pin can be pinned. -/
theorem Pins.pinnable (idle : pool.Idle) (frameId : Fin poolSize) : pool.Pinnable frameId := by
  simp [Pinnable, BufferPool.pins, (idle.free frameId (by simp)).1]

theorem Pins.release (rest : Pins pool (some frameId) 0) (available : pool.Available frameId) :
    pool.Idle where
  count := by simp
  free := by
    intro other _
    by_cases same : other = frameId
    · subst same
      exact ⟨rest.count other rfl, available⟩
    · exact rest.free other (by simpa using Ne.symm same)
  faultless := rest.faultless

/-- The content of a frame does not matter. -/
theorem Pins.setFrame {frame : Frame} (rest : Pins pool held pins)
    (count : frame.pinCount = (pool.frames frameId).pinCount)
    (empty : frame.isEmpty = (pool.frames frameId).isEmpty) :
    Pins (pool.setFrame frameId frame) held pins where
  count := by
    intro other isHeld
    by_cases same : other = frameId
    · subst same
      rw [setFrame_frames_self, count, rest.count other isHeld]
    · rw [setFrame_frames_of_ne same, rest.count other isHeld]
  free := by
    intro other unheld
    rcases rest.free other unheld with ⟨unpinned, available⟩
    by_cases same : other = frameId
    · subst same
      rw [setFrame_frames_self, count]
      refine ⟨unpinned, available.imp (fun isEmpty => ?_) id⟩
      rw [setFrame_frames_self, empty, isEmpty]
    · rw [Available, setFrame_frames_of_ne same]
      exact ⟨unpinned, available⟩
  faultless := rest.faultless

theorem Pins.setFrame_held (rest : Pins pool (some frameId) pins) (frame : Frame) :
    Pins (pool.setFrame frameId frame) (some frameId) frame.pinCount where
  count := by
    intro other isHeld
    obtain rfl := Option.some.inj isHeld
    rw [setFrame_frames_self]
  free := by
    intro other unheld
    have apart : other ≠ frameId := fun same => unheld (same ▸ rfl)
    rw [Available, setFrame_frames_of_ne apart]
    exact rest.free other unheld
  faultless := rest.faultless

/-- A page in the place of another. -/
theorem Pins.setPage (rest : Pins pool held pins) (here : (pool.getPage frameId).isSome)
    (page : Page) : Pins (pool.setPage frameId page) held pins := by
  refine rest.setFrame rfl ?_
  rw [getPage, Option.isSome_iff_exists] at here
  rcases here with ⟨old, found⟩
  simp [Frame.isEmpty, found]

theorem pins_new {disk : DiskManager} (faultless : disk.faults = []) :
    Idle (new disk : BufferPool poolSize) where
  count := by simp
  free := fun frameId _ => ⟨rfl, .inl rfl⟩
  faultless := faultless

/-- The last pin of a frame is returned. -/
theorem unpin_last (one : (pool.frames frameId).pinCount = 1) (isDirty : Bool) :
    pool.unpin frameId isDirty =
      { pool.setFrame frameId { pool.frames frameId with
          pinCount := 0, isDirty := (pool.frames frameId).isDirty || isDirty } with
        replacer := pool.replacer.unpin frameId } := by
  simp [unpin, one, setFrame]

/-- A frame that has been put back into the queue is free. -/
theorem Pins.unpin (busy : pool.Busy frameId) (isDirty : Bool) :
    (pool.unpin frameId isDirty).Idle := by
  have one := busy.count frameId rfl
  have rest := busy.setFrame_held
    { pool.frames frameId with pinCount := 0, isDirty := (pool.frames frameId).isDirty || isDirty }
  have keeps : ∀ other ∈ pool.replacer.order, other ∈ (pool.replacer.unpin frameId).order := by
    intro other queued
    rw [LruReplacer.unpin]
    split_ifs
    · exact queued
    · simp [queued]
  have here : frameId ∈ (pool.replacer.unpin frameId).order := by
    rw [LruReplacer.unpin]
    split_ifs with queued
    · exact queued
    · simp
  rw [unpin_last one]
  refine Pins.release ⟨rest.count, fun other unheld => ?_, rest.faultless⟩ (.inr here)
  rcases rest.free other unheld with ⟨unpinned, available⟩
  exact ⟨unpinned, available.imp id (keeps other)⟩

theorem Pins.install (idle : pool.Idle) (frameId : Fin poolSize) (page : Page) (isDirty : Bool) :
    (pool.install frameId page isDirty).Busy frameId := by
  have busy := (Pins.hold idle frameId).setFrame_held
    { page := some page, pinCount := 1, isDirty := isDirty }
  refine ⟨busy.count, fun other unheld => ?_, busy.faultless⟩
  have apart : other ≠ frameId := fun same => unheld (same ▸ rfl)
  rcases busy.free other unheld with ⟨unpinned, available⟩
  refine ⟨unpinned, available.imp id fun queued => ?_⟩
  have queued : other ∈ pool.replacer.order := queued
  simpa [BufferPool.install, LruReplacer.pin, apart] using queued

end Frames

section Calls

theorem ends_writePage (page : Page) : Ends (fun pool : BufferPool poolSize => Pins pool held pins)
    (onDisk (DiskManager.writePage page)) (fun _ pool => Pins pool held pins)
    (fun _ _ => False) := by
  intro pool rest
  simp only [onDisk, DiskManager.writePage, DiskManager.systemCall, rest.faultless, bind_apply,
    modify_apply]
  exact ⟨rest.count, rest.free, rfl⟩

theorem ends_writeFrame (frameId : Fin poolSize) :
    Ends (fun pool => Pins pool held pins) (writeFrame frameId) (fun _ pool => Pins pool held pins)
      (fun _ _ => False) := by
  refine ends_get_bind fun pool rest => ?_
  rcases found : (pool.frames frameId).page with _ | page
  · exact ends_pure fun _ same => same ▸ rest
  · refine ends_modify_bind (fun pool => Pins pool held pins) ?_ (ends_writePage page)
    rintro pool rfl
    exact rest.setFrame rfl (by simp [Frame.isEmpty, found])

omit [Crc32] in
theorem ends_clearFrame (victimId : Fin poolSize) {failed : Failure → BufferPool poolSize → Prop} :
    Ends (fun pool => Pins pool (some victimId) 0) (clearFrame victimId) (fun _ pool => pool.Idle)
      failed := by
  refine ends_modify_bind (fun pool => Pins pool (some victimId) 0) (fun pool rest => ?_)
    (ends_modify_bind Idle (fun pool rest => ?_) (ends_pure fun _ idle => idle))
  · split
    · exact rest
    · exact ⟨rest.count, rest.free, rest.faultless⟩
  · exact (rest.setFrame_held Frame.new).release (.inl (by simp [Frame.isEmpty, Frame.new]))

/-- While no frame is pinned, a frame can be had if there is one. -/
theorem ends_findFreeFrame : Ends (Idle : BufferPool poolSize → Prop) findFreeFrame
    (fun _ pool => pool.Idle)
    (fun failure pool => Refused failure pool ∧ IsEmpty (Fin poolSize)) := by
  refine ends_get_bind fun pool idle => ?_
  cases search : (List.finRange poolSize).find? fun frameId => (pool.frames frameId).isEmpty with
  | some frameId => exact ends_pure fun _ same => same ▸ idle
  | none =>
      cases queue : pool.replacer.order with
      | nil =>
          have none : IsEmpty (Fin poolSize) := by
            refine ⟨fun frameId => ?_⟩
            have full : (pool.frames frameId).isEmpty = false := by
              simpa using List.find?_eq_none.mp search frameId
            have available := (idle.free frameId (by simp)).2
            simp [Available, full, queue] at available
          simp only [LruReplacer.evict, queue]
          exact ends_throw fun _ same => ⟨⟨by simp [IsRaw], same ▸ idle⟩, none⟩
      | cons victimId order =>
          simp only [LruReplacer.evict, queue]
          refine ends_modify_bind (fun pool => Pins pool (some victimId) 0) ?_ ?_
          · rintro pool rfl
            have rest := Pins.hold idle victimId
            refine ⟨rest.count, fun other unheld => ?_, rest.faultless⟩
            have apart : other ≠ victimId := fun same => unheld (same ▸ rfl)
            rcases rest.free other unheld with ⟨unpinned, available⟩
            refine ⟨unpinned, available.imp id fun queued => ?_⟩
            simpa [queue, apart] using queued
          · split_ifs
            · exact ((ends_writeFrame victimId).failing fun _ _ impossible => impossible.elim).bind
                fun _ => ends_clearFrame victimId
            · exact ends_clearFrame victimId

theorem ends_readPage (pageId : UInt32) : Ends (Idle : BufferPool poolSize → Prop)
    (onDisk (DiskManager.readPage pageId)) (fun _ pool => pool.Idle) Refused := by
  intro pool idle
  simp only [onDisk, DiskManager.readPage, DiskManager.systemCall, idle.faultless, bind_apply,
    get_apply]
  cases pool.disk.file[pageId.toNat]? with
  | none => exact ⟨by simp [IsRaw], idle⟩
  | some data =>
      dsimp only
      split_ifs
      · exact idle
      · exact ⟨by simp [IsRaw], idle⟩

theorem ends_fetchPage (pageId : UInt32) : Ends (Idle : BufferPool poolSize → Prop)
    (fetchPage pageId) Busy Refused := by
  refine ends_get_bind fun pool idle => ?_
  cases pool.pageTable.lookup pageId with
  | some frameId =>
      dsimp only
      split_ifs
      swap
      · rintro _ rfl
        exact ⟨by simp [IsRaw], idle⟩
      refine ends_modify_bind (Busy frameId) ?_ (ends_pure fun _ busy => busy)
      rintro pool rfl
      have rest := Pins.hold idle frameId
      let frame : Frame :=
        { pool.frames frameId with pinCount := (pool.frames frameId).pinCount + 1 }
      have one : frame.pinCount = 1 := by simp [frame, rest.count frameId rfl]
      have busy : (pool.setFrame frameId frame).Busy frameId := by
        rw [Busy, ← one]
        exact rest.setFrame_held frame
      refine ⟨busy.count, fun other unheld => ?_, busy.faultless⟩
      have apart : other ≠ frameId := fun same => unheld (same ▸ rfl)
      rcases busy.free other unheld with ⟨unpinned, available⟩
      refine ⟨unpinned, available.imp id fun queued => ?_⟩
      have queued : other ∈ pool.replacer.order := queued
      simpa [hit, LruReplacer.recordAccess, LruReplacer.pin, apart] using queued
  | none =>
      refine ends_modify_bind Idle ?_ ((ends_findFreeFrame.failing fun _ _ refused =>
        refused.1).bind fun frameId => (ends_readPage pageId).bind fun page => ?_)
      · rintro pool rfl
        exact ⟨idle.count, idle.free, idle.faultless⟩
      · exact ends_modify_bind (Busy frameId) (fun _ idle => idle.install frameId page false)
          (ends_pure fun _ busy => busy)

theorem ends_newPage : Ends (Idle : BufferPool poolSize → Prop) newPage
    (fun out => Busy out.2) Refused := by
  have allocate : Ends (Idle : BufferPool poolSize → Prop) (onDisk DiskManager.allocatePage)
      (fun _ pool => pool.Idle) Refused := by
    intro pool idle
    simp only [onDisk, DiskManager.allocatePage]
    split_ifs
    · exact ⟨idle.count, idle.free, idle.faultless⟩
    · exact ⟨by simp [IsRaw], idle⟩
  refine (ends_findFreeFrame.failing fun _ _ refused => refused.1).bind fun frameId =>
    allocate.bind fun pageId => ?_
  exact ends_modify_bind (Busy frameId) (fun _ idle => idle.install frameId _ true)
    (ends_pure fun _ busy => busy)

theorem ends_flushPage (pageId : UInt32) : Ends (Idle : BufferPool poolSize → Prop)
    (flushPage pageId) (fun _ pool => pool.Idle) (fun _ _ => False) := by
  refine ends_get_bind fun pool idle => ?_
  cases pool.pageTable.lookup pageId with
  | none => exact ends_pure fun _ same => same ▸ idle
  | some frameId =>
      dsimp only
      split_ifs
      · have write : Ends (fun other => other = pool) (writeFrame frameId)
            (fun _ pool => pool.Idle) (fun _ _ => False) :=
          (ends_writeFrame frameId).imp (fun _ same => same ▸ idle) (fun _ _ idle => idle)
            fun _ _ impossible => impossible
        exact write.bind fun _ => ends_modify fun pool idle => idle.setFrame rfl rfl
      · exact ends_pure fun _ same => same ▸ idle

end Calls

end VenomDb.BufferPool
