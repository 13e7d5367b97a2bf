import VenomDb.Buffer.DiskErrors
import VenomDb.Buffer.PageStore

/-!
# Frames with all the pins they can have

A page in such a frame cannot be fetched again. Fetching a page and unpinning it makes no other
frame so: a frame that is pinned anew was evicted, and its count started again.
-/

namespace VenomDb

namespace BufferPool

open Fallible

variable {poolSize : ℕ} {pool pool' : BufferPool poolSize} {frameId : Fin poolSize}
  {pageId : UInt32} {pageIds : List UInt32}

/-- None of the pages is in a frame that has all the pins it can have. -/
def PinsLeft (pool : BufferPool poolSize) (pageIds : List UInt32) : Prop :=
  ∀ pageId ∈ pageIds, ¬pool.Saturated pageId

theorem pinsLeft_iff : pool.PinsLeft pageIds ↔ ∀ pageId ∈ pageIds, ∀ frameId,
    pool.pageTable.lookup pageId = some frameId → pool.Pinnable frameId := by
  simp [PinsLeft, Saturated]

/-- Fewer pages are resident, and their frames have no more pins. -/
structure Lighter (pool pool' : BufferPool poolSize) : Prop where
  resident : ∀ {pageId frameId}, pool'.pageTable.lookup pageId = some frameId →
    pool.pageTable.lookup pageId = some frameId
  pins : ∀ frameId, pool'.pins frameId ≤ pool.pins frameId

variable [Crc32]

theorem lighter_findFreeFrame {found : Fin poolSize}
    (run : findFreeFrame pool = (.ok found, pool')) : Lighter pool pool' := by
  rcases findFreeFrame_ends pool with ⟨frameId, -, ends⟩ | ⟨-, ⟨-, ends⟩ |
    ⟨victimId, order, other, -, same, ⟨-, -, ends⟩ | ⟨-, page, -, ends⟩⟩⟩
  · obtain ⟨-, rfl⟩ := Prod.mk.inj (run.symm.trans ends)
    exact ⟨id, fun _ => le_refl _⟩
  · simp [run] at ends
  · simp [run] at ends
  · obtain ⟨-, rfl⟩ := Prod.mk.inj (run.symm.trans ends)
    refine ⟨fun {pageId frameId} resident => ?_, fun frameId => ?_⟩
    · by_cases gone : pageId = page.id
      · subst gone
        simp [cleared] at resident
      · rw [← same.pageTable]
        simpa [cleared, AList.lookup_erase_ne gone] using resident
    · by_cases here : frameId = victimId
      · subst here
        simp [pins, cleared, setFrame, Frame.new]
      · have kept := same.pins.pinCount frameId
        simp [pins, cleared, setFrame, here, kept]

/-- The same when one frame has just been pinned. -/
def Loaded (pool : BufferPool poolSize) (pageIds : List UInt32) (frameId : Fin poolSize) : Prop :=
  ∀ pageId ∈ pageIds, ∀ other, pool.pageTable.lookup pageId = some other → other ≠ frameId →
    pool.Pinnable other

omit [Crc32] in
/-- After `unpin` a frame can be pinned, whether it gave back a pin or had none. -/
theorem pinnable_unpin (pool : BufferPool poolSize) (frameId : Fin poolSize) (isDirty : Bool) :
    (pool.unpin frameId isDirty).Pinnable frameId := by
  rw [Pinnable, pins, BufferPool.unpin]
  dsimp only
  split_ifs with idle last
  · simp [idle]
  · simpa only [setFrame_frames_self] using Counter.room_pred idle
  · simpa only [setFrame_frames_self] using Counter.room_pred idle

omit [Crc32] in
theorem Loaded.unpin (loaded : pool.Loaded pageIds frameId) (isDirty : Bool) :
    (pool.unpin frameId isDirty).PinsLeft pageIds := by
  have table : (pool.unpin frameId isDirty).pageTable = pool.pageTable := by
    rw [BufferPool.unpin]
    dsimp only
    split_ifs <;> rfl
  rw [pinsLeft_iff]
  intro pageId inside other resident
  rw [table] at resident
  by_cases same : other = frameId
  · exact same ▸ pinnable_unpin pool frameId isDirty
  · exact (loaded pageId inside other resident same).of_le (pins_unpin_of_ne same).le

theorem loaded_fetchPage (left : pool.PinsLeft pageIds)
    (run : fetchPage pageId pool = (.ok frameId, pool')) : pool'.Loaded pageIds frameId := by
  have room := pinsLeft_iff.mp left
  rcases resident : pool.pageTable.lookup pageId with _ | hit
  · rw [fetchPage, get_bind, resident] at run
    dsimp only at run
    rw [modify_bind] at run
    rcases bind_eq_ok run with ⟨found, freed, search, rest⟩
    rcases bind_eq_ok rest with ⟨page, read, isRead, last⟩
    rw [modify_bind] at last
    obtain ⟨same, rfl⟩ := Prod.mk.inj last
    obtain rfl : found = frameId := Except.ok.inj same
    have lighter := lighter_findFreeFrame search
    have untouched : read.pageTable = freed.pageTable ∧ read.frames = freed.frames := by
      rw [onDisk] at isRead
      obtain ⟨-, rfl⟩ := Prod.mk.inj isRead
      exact ⟨rfl, rfl⟩
    intro other inside otherFrame found' here
    have apart : other ≠ page.id := by
      rintro rfl
      rw [install, AList.lookup_insert, Option.some.injEq] at found'
      exact here found'.symm
    rw [install, AList.lookup_insert_ne apart, untouched.1] at found'
    refine (room other inside otherFrame (lighter.resident found')).of_le ?_
    rw [pins_install_of_ne here, pins, untouched.2]
    exact lighter.pins otherFrame
  · rcases fetchPage_resident_cases resident with ⟨-, run'⟩ | ⟨-, run'⟩
    · obtain ⟨same, rfl⟩ := Prod.mk.inj (run.symm.trans run')
      obtain rfl : frameId = hit := Except.ok.inj same
      intro other inside otherFrame found here
      refine (room other inside otherFrame found).of_le (le_of_eq ?_)
      rw [pins, BufferPool.hit]
      dsimp only
      rw [setFrame_frames_of_ne here, pins]
    · simp [run] at run'

/-- A page that is fetched and unpinned leaves no frame with more pins than it had. -/
theorem Saturated.of_unpin {other : UInt32} {isDirty : Bool}
    (saturated : (pool'.unpin frameId isDirty).Saturated other)
    (run : fetchPage pageId pool = (.ok frameId, pool')) : pool.Saturated other := by
  by_contra pinnable
  have left : pool.PinsLeft [other] := by simpa [PinsLeft] using pinnable
  exact (loaded_fetchPage left run).unpin isDirty other List.mem_cons_self saturated

end BufferPool

end VenomDb
