import VenomDb.Buffer.DiskErrors
import VenomDb.Buffer.Versions

/-!
# When a frame can be had

A call that needs a frame gets one if a frame is empty or in the queue, and if none is it fails
and leaves the pool as it was. A hit needs none. Whatever a client fetched and unpinned can be
had again, whoever else holds a pin on it.
-/

namespace VenomDb.BufferPool

open Fallible

variable {poolSize : ℕ} [Crc32] {pool : BufferPool poolSize} {pageId : UInt32}
  {frameId : Fin poolSize} {page page' : Page}

/-- No frame can be had. -/
def Full (pool : BufferPool poolSize) : Prop := ∀ frameId, ¬pool.Available frameId

/-- A frame is found, or none can be had. -/
theorem findFreeFrame_outcome (faultless : pool.disk.faults = []) :
    (∃ frameId freed, findFreeFrame pool = (.ok frameId, freed) ∧
      freed.disk.numPages = pool.disk.numPages ∧ ¬pool.Full) ∨
    (findFreeFrame pool = (.error (.io .poolFull), pool) ∧ pool.Full) := by
  rcases findFreeFrame_ends pool with ⟨frameId, empty, run⟩ | ⟨occupied, ⟨queue, run⟩ |
    ⟨victimId, order, other, queue, same, ⟨-, refused, -⟩ | ⟨-, page, -, run⟩⟩⟩
  · refine .inl ⟨frameId, pool, run, rfl, fun full => full frameId (.inl ?_)⟩
    simp [Frame.isEmpty, empty]
  · refine .inr ⟨run, fun frameId available => ?_⟩
    rcases available with empty | queued
    · have inside := occupied frameId
      simp only [Frame.isEmpty, Option.isNone_iff_eq_none] at empty
      simp [empty] at inside
    · simp [queue] at queued
  · simp [Refuses, faultless] at refused
  · refine .inl ⟨victimId, _, run, same.numPages, fun full => full victimId (.inr ?_)⟩
    simp [queue]

/-- A new page has the next id and a frame of its own, or no frame can be had, or the ids have
run out. -/
theorem newPage_outcome (faultless : pool.disk.faults = []) :
    (∃ frameId pool', newPage pool = (.ok (pool.disk.numPages, frameId), pool') ∧
      Held pool' frameId (Page.new pool.disk.numPages) ∧ pool.disk.numPages.toNat + 1 < 2 ^ 32 ∧
      ¬pool.Full) ∨
    (newPage pool = (.error (.io .poolFull), pool) ∧ pool.Full) ∨
    (∃ pool', newPage pool = (.error (.panic .overflow), pool') ∧
      ¬pool.disk.numPages.toNat + 1 < 2 ^ 32 ∧ ¬pool.Full) := by
  rcases findFreeFrame_outcome faultless with ⟨frameId, freed, run, numPages, free⟩ | ⟨run, full⟩
  · rw [newPage, bind_ok run]
    by_cases room : freed.disk.numPages.toNat + 1 < 2 ^ 32
    · have allocated : onDisk DiskManager.allocatePage freed = (.ok freed.disk.numPages,
          { freed with disk := { freed.disk with numPages := freed.disk.numPages + 1 } }) := by
        rw [onDisk, DiskManager.allocatePage, if_pos room]
      rw [bind_ok allocated, modify_bind, ← numPages]
      exact .inl ⟨frameId, _, rfl, held_install, room, free⟩
    · have overflow : onDisk DiskManager.allocatePage freed =
          (.error (.panic .overflow), freed) := by
        rw [onDisk, DiskManager.allocatePage, if_neg room]
      rw [bind_error overflow, ← numPages]
      exact .inr (.inr ⟨freed, rfl, room, free⟩)
  · rw [newPage, bind_error run]
    exact .inr (.inl ⟨rfl, full⟩)

/-- A page that is not lost is fetched, or it is in no frame and no frame can be had, or its frame
has all the pins it can have. -/
theorem fetchPage_outcome (tabled : Tabled pool) (visible : pool.Visible pageId) :
    (∃ frameId pool' page, fetchPage pageId pool = (.ok frameId, pool') ∧
      Held pool' frameId page ∧ page.id = pageId ∧ pool'.disk.numPages = pool.disk.numPages ∧
      ¬(pool.Full ∧ pool.pageTable.lookup pageId = none)) ∨
    (fetchPage pageId pool = (.error (.io .poolFull), { pool with misses := pool.misses + 1 }) ∧
      pool.Full ∧ pool.pageTable.lookup pageId = none) ∨
    (fetchPage pageId pool = (.error (.panic .overflow), pool) ∧ pool.Saturated pageId) := by
  cases resident : pool.pageTable.lookup pageId with
  | some frameId =>
      rcases tabled.table resident with ⟨page, held, sameId⟩
      rcases fetchPage_resident_cases resident with ⟨pinnable, run⟩ | ⟨saturated, run⟩
      · exact .inl ⟨frameId, pool.hit frameId, page, run, held_hit held pinnable, sameId, rfl,
          by simp⟩
      · exact .inr (.inr ⟨run, frameId, resident, saturated⟩)
  | none =>
      have onFile : pool.OnFile pageId := visible.resolve_left (by simp [resident])
      let missed : BufferPool poolSize := { pool with misses := pool.misses + 1 }
      have faultless : missed.disk.faults = [] := tabled.faultless
      have lacks : Lacks pool (fun _ => False) missed :=
        ⟨tabled.retains.of_eq rfl rfl rfl, by simp⟩
      rw [fetchPage, get_bind, resident]
      dsimp only
      rw [modify_bind]
      rcases findFreeFrame_outcome faultless with
        ⟨frameId, freed, run, numPages, free⟩ | ⟨run, full⟩
      · have kept := (lacks_findFreeFrame.ok lacks run).1.retains
        rcases Option.isSome_iff_exists.mp (kept.onFile onFile) with ⟨data, present⟩
        have read : onDisk (DiskManager.readPage pageId) freed =
            (.ok (Page.fromBytes pageId data), freed) := by
          rw [onDisk, readPage_of_stored kept.tabled.faultless present]
        rw [bind_ok run, bind_ok read, modify_bind]
        exact .inl ⟨frameId, _, Page.fromBytes pageId data, rfl, held_install, rfl, numPages,
          fun full => free full.1⟩
      · rw [bind_error run]
        exact .inr (.inl ⟨rfl, full, rfl⟩)

/-- A fetch that succeeds gives a frame with the page in it, pinned. -/
theorem held_fetchPage (pageId : UInt32) :
    Ends (Tabled : BufferPool poolSize → Prop) (fetchPage pageId)
      (fun frameId pool => ∃ page, Held pool frameId page ∧ page.id = pageId)
      (fun _ _ => True) := by
  refine ends_get_bind fun pool tabled => ?_
  cases resident : pool.pageTable.lookup pageId with
  | some frameId =>
      rcases tabled.table resident with ⟨page, held, sameId⟩
      rintro _ rfl
      dsimp only
      split_ifs with pinnable
      · exact ⟨page, held_hit held pinnable, sameId⟩
      · trivial
  | none =>
      have reads : Ends (fun _ => True)
          (onDisk (DiskManager.readPage pageId) : Fallible Failure (BufferPool poolSize) Page)
          (fun page _ => page.id = pageId) fun _ _ => True := by
        intro pool _
        simp only [onDisk, DiskManager.readPage, bind_apply]
        rcases DiskManager.systemCall pool.disk with ⟨_ | _, disk⟩
        · trivial
        · simp only [get_apply]
          cases disk.file[pageId.toNat]? with
          | none => trivial
          | some data =>
              dsimp only
              split_ifs
              · rfl
              · trivial
      have frees : Ends (fun _ => True)
          (findFreeFrame : Fallible Failure (BufferPool poolSize) _) (fun _ _ => True)
          fun _ _ => True := fun pool _ => by
        rcases findFreeFrame pool with ⟨_ | _, _⟩ <;> trivial
      refine ends_modify_bind (fun _ => True) (fun _ _ => trivial) (frees.bind fun frameId => ?_)
      refine reads.bind fun page => ?_
      refine ends_modify_bind (fun pool => Held pool frameId page ∧ page.id = pageId) ?_ ?_
      · exact fun _ sameId => ⟨held_install, sameId⟩
      · exact ends_pure fun _ held => ⟨page, held⟩

omit [Crc32] in
/-- What was fetched can be had again once it is unpinned. -/
theorem Held.not_full (held : Held pool frameId page) (isDirty : Bool) :
    ¬(pool.unpin frameId isDirty).Full :=
  fun full => full frameId (available_unpin held)

section Rewrite

variable {relevant relevant' : UInt32 → Prop} {holds holds' : UInt32 → PageData → Prop}

/-- A page is exchanged and unpinned as dirty: the version in the file is hidden from then on, so
what holds of this page may change. -/
theorem Shows.rewritten (shows_ : Shows True relevant holds pool) (tabled : Tabled pool)
    (held : Held pool frameId page) (sameId : page'.id = page.id)
    (content : holds' page.id page'.data)
    (others : ∀ other, other ≠ page.id → relevant' other →
      relevant other ∧ ∀ data, holds other data → holds' other data) :
    Shows True relevant' holds' ((pool.setPage frameId page').unpin frameId true) := by
  have held' : Held (pool.setPage frameId page') frameId page' := held.setPage page'
  rcases unpin_eq held' true with ⟨pinCount, order, equation, -, -⟩
  rw [equation]
  let frame : Frame := { (pool.setPage frameId page').frames frameId with
    pinCount := pinCount
    isDirty := ((pool.setPage frameId page').frames frameId).isDirty || true }
  have elsewhere {other : Fin poolSize} (apart : other ≠ frameId) :
      ((pool.setPage frameId page').setFrame frameId frame).frames other = pool.frames other := by
    rw [setFrame_frames_of_ne apart, BufferPool.setPage, setFrame_frames_of_ne apart]
  have framePage : frame.page = some page' := held'.page
  have frameDirty : frame.isDirty = true := by simp [frame]
  suffices shown : Shows True relevant' holds' ((pool.setPage frameId page').setFrame frameId frame)
    from shown.of_eq rfl rfl
  refine ⟨?_, ?_⟩
  · intro other found inside isRelevant
    by_cases same : other = frameId
    · subst same
      rw [setFrame_frames_self, framePage] at inside
      obtain rfl := Option.some.inj inside
      rw [sameId]
      exact content
    · rw [elsewhere same] at inside
      have apart : found.id ≠ page.id := by
        intro samePage
        have resident := tabled.frame inside
        rw [samePage, tabled.frame held.page] at resident
        exact same (Option.some.inj resident).symm
      rcases others found.id apart isRelevant with ⟨old, weaker⟩
      exact weaker _ (shows_.frame inside old)
  · intro pageId data isRelevant bare present
    have apart : pageId ≠ page.id := by
      rintro rfl
      have clean := bare trivial frameId page' (by rw [setFrame_frames_self, framePage]) sameId
      rw [setFrame_frames_self, frameDirty] at clean
      simp at clean
    rcases others pageId apart isRelevant with ⟨old, weaker⟩
    refine weaker _ (shows_.file old ?_ present)
    intro _ other found inside isPage
    have apart' : other ≠ frameId := by
      rintro rfl
      obtain rfl := Option.some.inj (inside.symm.trans held.page)
      exact apart isPage.symm
    have clean := bare trivial other found (by rw [elsewhere apart', inside]) isPage
    rwa [elsewhere apart'] at clean

end Rewrite

end VenomDb.BufferPool
