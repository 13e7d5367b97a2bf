import VenomDb.Lib.Counters
import VenomDb.Storage.DiskManager
import Mathlib.Data.List.AList

/-!
# The buffer pool

A fixed array of frames in front of the data file, with a least-recently-used
queue of frames that may be evicted. The pool size is a parameter, so a frame
index is always one of the pool's frames.
-/

namespace VenomDb

structure Frame where
  page : Option Page
  pinCount : UInt32
  isDirty : Bool

namespace Frame

def new : Frame where
  page := none
  pinCount := 0
  isDirty := false

def isEmpty (frame : Frame) : Bool := frame.page.isNone

end Frame

/-- The eviction queue, next victim first. -/
structure LruReplacer (poolSize : ℕ) where
  order : List (Fin poolSize)

namespace LruReplacer

variable {poolSize : ℕ}

def new : LruReplacer poolSize := ⟨[]⟩

def unpin (replacer : LruReplacer poolSize) (frameId : Fin poolSize) : LruReplacer poolSize :=
  if frameId ∈ replacer.order then replacer else ⟨replacer.order ++ [frameId]⟩

def pin (replacer : LruReplacer poolSize) (frameId : Fin poolSize) : LruReplacer poolSize :=
  ⟨replacer.order.filter fun id => id ≠ frameId⟩

def evict (replacer : LruReplacer poolSize) : Option (Fin poolSize × LruReplacer poolSize) :=
  match replacer.order with
  | [] => none
  | victim :: order => some (victim, ⟨order⟩)

/-- Moves the frame to the back of the queue, and puts it there if it was not queued. -/
def recordAccess (replacer : LruReplacer poolSize) (frameId : Fin poolSize) :
    LruReplacer poolSize :=
  ⟨(replacer.order.filter fun id => id ≠ frameId) ++ [frameId]⟩

end LruReplacer

structure BufferPool (poolSize : ℕ) where
  frames : Fin poolSize → Frame
  /-- Page id to frame index. -/
  pageTable : AList (fun _ : UInt32 => Fin poolSize)
  replacer : LruReplacer poolSize
  disk : DiskManager
  hits : ℕ
  misses : ℕ

namespace BufferPool

variable {poolSize : ℕ}

def new (disk : DiskManager) : BufferPool poolSize where
  frames := fun _ => Frame.new
  pageTable := ∅
  replacer := LruReplacer.new
  disk := disk
  hits := 0
  misses := 0

def setFrame (pool : BufferPool poolSize) (frameId : Fin poolSize) (frame : Frame) :
    BufferPool poolSize :=
  { pool with frames := Function.update pool.frames frameId frame }

@[simp]
theorem setFrame_frames_self {pool : BufferPool poolSize} (frameId : Fin poolSize) (frame : Frame) :
    (pool.setFrame frameId frame).frames frameId = frame := by simp [setFrame]

theorem setFrame_frames_of_ne {pool : BufferPool poolSize} {frameId other : Fin poolSize}
    (ne : other ≠ frameId)
    (frame : Frame) : (pool.setFrame frameId frame).frames other = pool.frames other := by
  simp [setFrame, ne]

/-- Run an operation of the disk manager. -/
def onDisk {α : Type} (operation : Fallible Failure DiskManager α) :
    Fallible Failure (BufferPool poolSize) α := fun pool =>
  match operation pool.disk with
  | (result, disk) => (result, { pool with disk := disk })

variable [Crc32]

/-- Write the page of a frame to disk. `write_page` embeds the checksum in the page it is given,
so the frame keeps it whether or not the write succeeds. -/
def writeFrame (frameId : Fin poolSize) : Fallible Failure (BufferPool poolSize) Unit := do
  let pool ← Fallible.get
  match (pool.frames frameId).page with
  | none => return ()
  | some page => do
      Fallible.modify fun pool =>
        pool.setFrame frameId
          { pool.frames frameId with
            page := some { page with data := page.data.finalizeChecksum } }
      onDisk (DiskManager.writePage page)

/-- The frame to use for a page: an empty one, or the next victim of the queue, which is
written back first if it is dirty. -/
def findFreeFrame : Fallible Failure (BufferPool poolSize) (Fin poolSize) := do
  let pool ← Fallible.get
  match (List.finRange poolSize).find? fun frameId => (pool.frames frameId).isEmpty with
  | some frameId => return frameId
  | none =>
      match pool.replacer.evict with
      | none => Fallible.throw (.io .poolFull)
      | some (victimId, replacer) => do
          Fallible.modify fun pool => { pool with replacer := replacer }
          if (pool.frames victimId).isDirty then writeFrame victimId
          Fallible.modify fun pool =>
            match (pool.frames victimId).page with
            | none => pool
            | some page => { pool with pageTable := pool.pageTable.erase page.id }
          Fallible.modify fun pool => pool.setFrame victimId Frame.new
          return victimId

/-- What `findFreeFrame` does to its victim after writing it back. -/
def clearFrame (victimId : Fin poolSize) :
    Fallible Failure (BufferPool poolSize) (Fin poolSize) := do
  Fallible.modify fun pool =>
    match (pool.frames victimId).page with
    | none => pool
    | some page => { pool with pageTable := pool.pageTable.erase page.id }
  Fallible.modify fun pool => pool.setFrame victimId Frame.new
  return victimId

/-- Put a page into a free frame, pinned once. -/
def install (frameId : Fin poolSize) (page : Page) (isDirty : Bool) (pool : BufferPool poolSize) :
    BufferPool poolSize :=
  { pool with
    frames := Function.update pool.frames frameId
      { page := some page, pinCount := 1, isDirty := isDirty }
    pageTable := pool.pageTable.insert page.id frameId
    replacer := pool.replacer.pin frameId }

/-- Allocate a brand new page. Gives its id and frame, pinned. -/
def newPage : Fallible Failure (BufferPool poolSize) (UInt32 × Fin poolSize) := do
  let frameId ← findFreeFrame
  let pageId ← onDisk DiskManager.allocatePage
  Fallible.modify (install frameId (Page.new pageId) true)
  return (pageId, frameId)

/-- Pin the frame in which a page was found. -/
def hit (frameId : Fin poolSize) (pool : BufferPool poolSize) : BufferPool poolSize :=
  { pool.setFrame frameId
      { pool.frames frameId with pinCount := (pool.frames frameId).pinCount + 1 } with
    -- `record_access` puts the frame back into the queue that `pin` just took it from
    replacer := (pool.replacer.pin frameId).recordAccess frameId
    hits := pool.hits + 1 }

/-- Fetch a page into the pool. Gives its frame, pinned. Overflow of its pin count panics. -/
def fetchPage (pageId : UInt32) : Fallible Failure (BufferPool poolSize) (Fin poolSize) := do
  let pool ← Fallible.get
  match pool.pageTable.lookup pageId with
  | some frameId =>
      if (pool.frames frameId).pinCount.toNat + 1 < 2 ^ 32 then do
        Fallible.modify (hit frameId)
        return frameId
      else Fallible.throw (.panic .overflow)
  | none => do
      Fallible.modify fun pool => { pool with misses := pool.misses + 1 }
      let frameId ← findFreeFrame
      let page ← onDisk (DiskManager.readPage pageId)
      Fallible.modify (install frameId page false)
      return frameId

/-- The pins of a frame, as a number. -/
def pins (pool : BufferPool poolSize) (frameId : Fin poolSize) : ℕ :=
  (pool.frames frameId).pinCount.toNat

/-- The page in a frame can be pinned once more. -/
def Pinnable (pool : BufferPool poolSize) (frameId : Fin poolSize) : Prop :=
  pool.pins frameId + 1 < 2 ^ 32

omit [Crc32] in
theorem Pinnable.of_le {pool pool' : BufferPool poolSize} {frameId : Fin poolSize}
    (pinnable : pool.Pinnable frameId) (fewer : pool'.pins frameId ≤ pool.pins frameId) :
    pool'.Pinnable frameId :=
  (Nat.succ_le_succ fewer).trans_lt pinnable

/-- The page is in a frame that has all the pins it can have. -/
def Saturated (pool : BufferPool poolSize) (pageId : UInt32) : Prop :=
  ∃ frameId, pool.pageTable.lookup pageId = some frameId ∧ ¬pool.Pinnable frameId

theorem fetchPage_pinnable {pool : BufferPool poolSize} {pageId : UInt32} {frameId : Fin poolSize}
    (resident : pool.pageTable.lookup pageId = some frameId) (pinnable : pool.Pinnable frameId) :
    fetchPage pageId pool = (.ok frameId, pool.hit frameId) := by
  rw [Pinnable, pins] at pinnable
  rw [fetchPage, Fallible.get_bind, resident]
  dsimp only
  rw [if_pos pinnable]
  rfl

theorem fetchPage_overflow {pool : BufferPool poolSize} {pageId : UInt32} {frameId : Fin poolSize}
    (resident : pool.pageTable.lookup pageId = some frameId) (saturated : ¬pool.Pinnable frameId) :
    fetchPage pageId pool = (.error (.panic .overflow), pool) := by
  rw [Pinnable, pins] at saturated
  rw [fetchPage, Fallible.get_bind, resident]
  dsimp only
  rw [if_neg saturated]
  rfl

/-- A fetch of a resident page pins its frame, or panics and changes nothing. -/
theorem fetchPage_resident_cases {pool : BufferPool poolSize} {pageId : UInt32}
    {frameId : Fin poolSize} (resident : pool.pageTable.lookup pageId = some frameId) :
    pool.Pinnable frameId ∧ fetchPage pageId pool = (.ok frameId, pool.hit frameId) ∨
      ¬pool.Pinnable frameId ∧ fetchPage pageId pool = (.error (.panic .overflow), pool) :=
  (em (pool.Pinnable frameId)).imp
    (fun pinnable => ⟨pinnable, fetchPage_pinnable resident pinnable⟩)
    fun saturated => ⟨saturated, fetchPage_overflow resident saturated⟩

def getPage (pool : BufferPool poolSize) (frameId : Fin poolSize) : Option Page :=
  (pool.frames frameId).page

/-- Replace the page of a frame: what a caller does through `get_page_mut`. -/
def setPage (pool : BufferPool poolSize) (frameId : Fin poolSize) (page : Page) :
    BufferPool poolSize :=
  pool.setFrame frameId { pool.frames frameId with page := some page }

/-- Unpin a frame, marking it dirty if the page was modified. -/
def unpin (frameId : Fin poolSize) (isDirty : Bool) (pool : BufferPool poolSize) :
    BufferPool poolSize :=
  let frame := pool.frames frameId
  if frame.pinCount = 0 then pool
  else
    let pinCount := frame.pinCount - 1
    let pool := pool.setFrame frameId
      { frame with pinCount := pinCount, isDirty := frame.isDirty || isDirty }
    if pinCount = 0 then { pool with replacer := pool.replacer.unpin frameId } else pool

/-- Flush a page to disk if it is resident and dirty. -/
def flushPage (pageId : UInt32) : Fallible Failure (BufferPool poolSize) Unit := do
  let pool ← Fallible.get
  match pool.pageTable.lookup pageId with
  | none => return ()
  | some frameId =>
      if (pool.frames frameId).isDirty then do
        writeFrame frameId
        Fallible.modify fun pool =>
          pool.setFrame frameId { pool.frames frameId with isDirty := false }
      else return ()

/-- Flush all resident pages, in the order in which the map gives its keys. -/
def flushAll (order : List UInt32 → List UInt32) : Fallible Failure (BufferPool poolSize) Unit := do
  let pool ← Fallible.get
  Fallible.forEach (order pool.pageTable.keys) flushPage

end BufferPool

end VenomDb
