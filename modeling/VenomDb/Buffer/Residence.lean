import VenomDb.Buffer.PageStore
import VenomDb.Buffer.Pins

/-!
# Where pages are

A page is in a frame or can be read from the data file, and no call loses one: an eviction
writes a dirty page back, and a clean page is in the file already. Nothing is assumed about what
callers do to the content of the pages they hold.
-/

namespace VenomDb.BufferPool

open Fallible

variable {poolSize : ℕ} [Crc32] {base pool : BufferPool poolSize} {frameId : Fin poolSize}
  {pageId : UInt32} {missing : UInt32 → Prop}

/-- A page can be read from the data file. -/
def OnFile (pool : BufferPool poolSize) (pageId : UInt32) : Prop :=
  (DiskManager.stored pool.disk.file pageId).isSome

/-- A page is in a frame or can be read from the data file. -/
def Visible (pool : BufferPool poolSize) (pageId : UInt32) : Prop :=
  (pool.pageTable.lookup pageId).isSome ∨ pool.OnFile pageId

/-- Page table and frames agree, and a clean page can be read from the data file. -/
structure Tabled (pool : BufferPool poolSize) : Prop where
  table : ∀ {pageId frameId}, pool.pageTable.lookup pageId = some frameId →
    ∃ page, (pool.frames frameId).page = some page ∧ page.id = pageId
  frame : ∀ {frameId page}, (pool.frames frameId).page = some page →
    pool.pageTable.lookup page.id = some frameId
  allocated : ∀ {frameId page}, (pool.frames frameId).page = some page →
    page.id.toNat < pool.disk.numPages.toNat
  fileLength : pool.disk.file.length ≤ pool.disk.numPages.toNat
  clean : ∀ {frameId page}, (pool.frames frameId).page = some page →
    (pool.frames frameId).isDirty = false → pool.OnFile page.id
  faultless : pool.disk.faults = []

theorem Tabled.lt_of_visible (tabled : Tabled pool) (visible : pool.Visible pageId) :
    pageId.toNat < pool.disk.numPages.toNat := by
  rcases visible with resident | onFile
  · rcases Option.isSome_iff_exists.mp resident with ⟨frameId, resident⟩
    rcases tabled.table resident with ⟨page, held, rfl⟩
    exact tabled.allocated held
  · rcases Option.isSome_iff_exists.mp onFile with ⟨data, present⟩
    exact (DiskManager.stored_lt present).trans_le tabled.fileLength

theorem tabled_new {disk : DiskManager} (fileLength : disk.file.length ≤ disk.numPages.toNat)
    (faultless : disk.faults = []) : Tabled (new disk : BufferPool poolSize) where
  table := by simp [new]
  frame := by simp [new, Frame.new]
  allocated := by simp [new, Frame.new]
  fileLength := fileLength
  clean := by simp [new, Frame.new]
  faultless := faultless

/-- No page of an earlier pool is lost, and no id is given back. -/
structure Retains (base pool : BufferPool poolSize) : Prop where
  tabled : Tabled pool
  visible : ∀ {pageId}, base.Visible pageId → pool.Visible pageId
  onFile : ∀ {pageId}, base.OnFile pageId → pool.OnFile pageId
  numPages : base.disk.numPages.toNat ≤ pool.disk.numPages.toNat

theorem Tabled.retains (tabled : Tabled pool) : Retains pool pool := ⟨tabled, id, id, le_refl _⟩

section Frames

/-- A frame changes without its page id; if it is clean, its page is on file. -/
theorem Retains.setFrame (retains : Retains base pool) {frame : Frame}
    (samePage : frame.page.map Page.id = ((pool.frames frameId).page).map Page.id)
    (clean : ∀ page, frame.page = some page → frame.isDirty = false → pool.OnFile page.id) :
    Retains base (pool.setFrame frameId frame) := by
  have tabled := retains.tabled
  have found {other : Fin poolSize} {page : Page}
      (held : ((pool.setFrame frameId frame).frames other).page = some page) :
      ∃ old, (pool.frames other).page = some old ∧ old.id = page.id := by
    by_cases same : other = frameId
    · subst same
      rw [setFrame_frames_self] at held
      rw [held] at samePage
      exact Option.map_eq_some_iff.mp samePage.symm
    · rw [setFrame_frames_of_ne same] at held
      exact ⟨page, held, rfl⟩
  refine ⟨⟨?_, ?_, ?_, tabled.fileLength, ?_, tabled.faultless⟩, retains.visible, retains.onFile,
    retains.numPages⟩
  · intro pageId other resident
    rcases tabled.table resident with ⟨old, held, rfl⟩
    by_cases same : other = frameId
    · subst same
      rw [held] at samePage
      rcases Option.map_eq_some_iff.mp samePage with ⟨page, held', sameId⟩
      exact ⟨page, by rw [setFrame_frames_self, held'], sameId⟩
    · exact ⟨old, by rw [setFrame_frames_of_ne same, held], rfl⟩
  · intro other page held
    rcases found held with ⟨old, held', sameId⟩
    rw [← sameId]
    exact tabled.frame held'
  · intro other page held
    rcases found held with ⟨old, held', sameId⟩
    rw [← sameId]
    exact tabled.allocated held'
  · intro other page held isClean
    by_cases same : other = frameId
    · subst same
      rw [setFrame_frames_self] at held isClean
      exact clean page held isClean
    · rw [setFrame_frames_of_ne same] at held isClean
      exact tabled.clean held isClean

/-- The replacer and the counters do not matter. -/
theorem Retains.of_eq {pool' : BufferPool poolSize} (retains : Retains base pool)
    (frames : pool'.frames = pool.frames) (pageTable : pool'.pageTable = pool.pageTable)
    (disk : pool'.disk = pool.disk) : Retains base pool' := by
  rcases pool with ⟨_, _, _, _, _, _⟩
  rcases pool' with ⟨_, _, _, _, _, _⟩
  obtain rfl : _ = _ := frames
  obtain rfl : _ = _ := pageTable
  obtain rfl : _ = _ := disk
  exact ⟨⟨retains.tabled.table, retains.tabled.frame, retains.tabled.allocated,
    retains.tabled.fileLength, retains.tabled.clean, retains.tabled.faultless⟩, retains.visible,
    retains.onFile, retains.numPages⟩

theorem Retains.unpin (retains : Retains base pool) (frameId : Fin poolSize) (isDirty : Bool) :
    Retains base (pool.unpin frameId isDirty) := by
  have kept : Retains base (pool.setFrame frameId { pool.frames frameId with
      pinCount := (pool.frames frameId).pinCount - 1
      isDirty := (pool.frames frameId).isDirty || isDirty }) :=
    retains.setFrame rfl fun page held isClean =>
      retains.tabled.clean held (Bool.or_eq_false_iff.mp isClean).1
  rw [BufferPool.unpin]
  dsimp only
  split_ifs
  · exact retains
  · exact kept.of_eq rfl rfl rfl
  · exact kept

theorem Retains.setPage {page page' : Page} (retains : Retains base pool)
    (held : pool.getPage frameId = some page) (sameId : page'.id = page.id) :
    Retains base (pool.setPage frameId page') := by
  rw [getPage] at held
  refine retains.setFrame (by simp [held, sameId]) ?_
  intro other same isClean
  obtain rfl : page' = other := Option.some.inj same
  rw [sameId]
  exact retains.tabled.clean held isClean

/-- A page is put into an empty frame. -/
theorem Retains.install {page : Page} {isDirty : Bool} (retains : Retains base pool)
    (empty : (pool.frames frameId).page = none)
    (missing : pool.pageTable.lookup page.id = none)
    (allocated : page.id.toNat < pool.disk.numPages.toNat)
    (clean : isDirty = false → pool.OnFile page.id) :
    Retains base (pool.install frameId page isDirty) ∧
      (pool.install frameId page isDirty).Visible page.id := by
  have tabled := retains.tabled
  have resident : (pool.install frameId page isDirty).pageTable.lookup page.id = some frameId :=
    AList.lookup_insert _
  have others {other : UInt32} (apart : other ≠ page.id) :
      (pool.install frameId page isDirty).pageTable.lookup other = pool.pageTable.lookup other :=
    AList.lookup_insert_ne apart
  have here : (pool.install frameId page isDirty).frames frameId = ⟨some page, 1, isDirty⟩ :=
    Function.update_self _ _ _
  have elsewhere {other : Fin poolSize} (apart : other ≠ frameId) :
      (pool.install frameId page isDirty).frames other = pool.frames other :=
    Function.update_of_ne apart _ _
  refine ⟨⟨⟨?_, ?_, ?_, tabled.fileLength, ?_, tabled.faultless⟩, ?_, retains.onFile,
    retains.numPages⟩, .inl (by rw [resident]; rfl)⟩
  · intro other otherFrame found
    by_cases same : other = page.id
    · subst same
      obtain rfl : frameId = otherFrame := Option.some.inj (resident.symm.trans found)
      exact ⟨page, by rw [here], rfl⟩
    · rw [others same] at found
      rcases tabled.table found with ⟨old, held, rfl⟩
      have apart : otherFrame ≠ frameId := by
        rintro rfl
        rw [empty] at held
        simp at held
      exact ⟨old, by rw [elsewhere apart, held], rfl⟩
  · intro other found held
    by_cases same : other = frameId
    · subst same
      rw [here] at held
      obtain rfl : page = found := Option.some.inj held
      exact resident
    · rw [elsewhere same] at held
      rw [others fun sameId => ?_]
      · exact tabled.frame held
      · rw [← sameId, tabled.frame held] at missing
        simp at missing
  · intro other found held
    by_cases same : other = frameId
    · subst same
      rw [here] at held
      obtain rfl : page = found := Option.some.inj held
      exact allocated
    · rw [elsewhere same] at held
      exact tabled.allocated held
  · intro other found held isClean
    by_cases same : other = frameId
    · subst same
      rw [here] at held isClean
      obtain rfl : page = found := Option.some.inj held
      exact clean isClean
    · rw [elsewhere same] at held isClean
      exact tabled.clean held isClean
  · intro other visible
    rcases retains.visible visible with found | onFile
    · by_cases same : other = page.id
      · subst same
        exact .inl (by rw [resident]; rfl)
      · exact .inl (by rwa [others same])
    · exact .inr onFile

end Frames

section Calls

/-- No page is lost, and some pages are in no frame. -/
structure Lacks (base : BufferPool poolSize) (missing : UInt32 → Prop)
    (pool : BufferPool poolSize) : Prop where
  retains : Retains base pool
  missing : ∀ pageId, missing pageId → pool.pageTable.lookup pageId = none

/-- The page of a frame is on file. -/
def Spilled (frameId : Fin poolSize) (pool : BufferPool poolSize) : Prop :=
  ∀ page, (pool.frames frameId).page = some page → pool.OnFile page.id

theorem retains_writeFrame (frameId : Fin poolSize) :
    Ends (Lacks base missing) (writeFrame frameId)
      (fun _ pool => Lacks base missing pool ∧ Spilled frameId pool) (fun _ _ => False) := by
  intro pool lacks
  rcases held : (pool.frames frameId).page with _ | page
  · have nothing : writeFrame frameId pool = (.ok (), pool) := by
      rw [writeFrame, get_bind, held]
      rfl
    rw [nothing]
    exact ⟨lacks, by simp [Spilled, held]⟩
  · rw [writeFrame_eq lacks.retains.tabled.faultless held]
    have stays {pageId : UInt32} (onFile : pool.OnFile pageId) :
        (pool.written frameId page).OnFile pageId := by
      rcases Option.isSome_iff_exists.mp onFile with ⟨data, present⟩
      by_cases same : page.id = pageId
      · subst same
        exact Option.isSome_iff_exists.mpr ⟨_, DiskManager.stored_store_self _ _⟩
      · exact Option.isSome_iff_exists.mpr ⟨data, DiskManager.stored_store_of_ne same present⟩
    have spilled : (pool.written frameId page).OnFile page.id :=
      Option.isSome_iff_exists.mpr ⟨_, DiskManager.stored_store_self _ _⟩
    have allocated := lacks.retains.tabled.allocated held
    -- the file with the page in it, and then the frame with the checksum in its page
    have stored : Retains base { pool with
        disk := { pool.disk with
          file := DiskManager.store pool.disk.file page.id.toNat page.data.finalizeChecksum }
            } := by
      have tabled := lacks.retains.tabled
      refine ⟨⟨tabled.table, tabled.frame, tabled.allocated, ?_, ?_, tabled.faultless⟩, ?_, ?_,
        lacks.retains.numPages⟩
      · have bound := tabled.fileLength
        rw [DiskManager.length_store]
        exact max_le bound allocated
      · exact fun held isClean => stays (tabled.clean held isClean)
      · exact fun visible => (lacks.retains.visible visible).imp id stays
      · exact fun onFile => stays (lacks.retains.onFile onFile)
    refine ⟨⟨stored.setFrame (by simp [held]) ?_, lacks.missing⟩, ?_⟩
    · intro other same _
      obtain rfl := Option.some.inj same
      exact spilled
    · intro other same
      rw [written, setFrame_frames_self] at same
      obtain rfl := Option.some.inj same
      exact spilled

theorem Lacks.evicted {victimId : Fin poolSize} {page : Page} (lacks : Lacks base missing pool)
    (held : (pool.frames victimId).page = some page) (onFile : pool.OnFile page.id) :
    Lacks base missing (pool.evicted victimId page) := by
  have tabled := lacks.retains.tabled
  have gone : (pool.evicted victimId page).pageTable.lookup page.id = none := AList.lookup_erase _ _
  have others {other : UInt32} (apart : other ≠ page.id) :
      (pool.evicted victimId page).pageTable.lookup other = pool.pageTable.lookup other :=
    AList.lookup_erase_ne apart
  have empty : (pool.evicted victimId page).frames victimId = Frame.new :=
    Function.update_self _ _ _
  have elsewhere {other : Fin poolSize} (apart : other ≠ victimId) :
      (pool.evicted victimId page).frames other = pool.frames other :=
    Function.update_of_ne apart _ _
  have still {other : Fin poolSize} {found : Page}
      (inside : ((pool.evicted victimId page).frames other).page = some found) :
      (pool.frames other).page = some found ∧ other ≠ victimId := by
    by_cases same : other = victimId
    · subst same
      rw [empty] at inside
      simp [Frame.new] at inside
    · exact ⟨by rwa [elsewhere same] at inside, same⟩
  refine ⟨⟨⟨?_, ?_, ?_, tabled.fileLength, ?_, tabled.faultless⟩, ?_, lacks.retains.onFile,
    lacks.retains.numPages⟩, ?_⟩
  · intro other otherFrame found
    have apart : other ≠ page.id := by
      rintro rfl
      rw [gone] at found
      simp at found
    rw [others apart] at found
    rcases tabled.table found with ⟨old, inside, rfl⟩
    have frames : otherFrame ≠ victimId := by
      rintro rfl
      rw [held] at inside
      exact apart (congrArg Page.id (Option.some.inj inside)).symm
    exact ⟨old, by rw [elsewhere frames, inside], rfl⟩
  · intro other found inside
    rcases still inside with ⟨inside, apart⟩
    have resident := tabled.frame inside
    rw [others fun sameId => ?_]
    · exact resident
    · rw [sameId, tabled.frame held] at resident
      exact apart (Option.some.inj resident).symm
  · intro other found inside
    exact tabled.allocated (still inside).1
  · intro other found inside isClean
    rcases still inside with ⟨inside, apart⟩
    rw [elsewhere apart] at isClean
    exact tabled.clean inside isClean
  · intro other visible
    by_cases same : other = page.id
    · exact .inr (same ▸ onFile)
    · exact (lacks.retains.visible visible).imp (fun resident => by rwa [others same]) id
  · intro other isMissing
    by_cases same : other = page.id
    · exact same ▸ gone
    · rw [others same]
      exact lacks.missing other isMissing

theorem lacks_clearFrame (victimId : Fin poolSize) {failed : Failure → BufferPool poolSize → Prop} :
    Ends (fun pool => Lacks base missing pool ∧ Spilled victimId pool) (clearFrame victimId)
      (fun frameId pool => Lacks base missing pool ∧ (pool.frames frameId).page = none) failed := by
  rintro pool ⟨lacks, spilled⟩
  rcases held : (pool.frames victimId).page with _ | page
  · simp only [clearFrame, modify_bind, held]
    refine ⟨⟨lacks.retains.setFrame (by simp [held, Frame.new]) (by simp [Frame.new]),
      lacks.missing⟩, ?_⟩
    simp [Frame.new]
  · simp only [clearFrame, modify_bind, held]
    refine ⟨lacks.evicted held (spilled page held), ?_⟩
    simp [setFrame, Frame.new]

theorem lacks_findFreeFrame :
    Ends (Lacks base missing) findFreeFrame
      (fun frameId pool => Lacks base missing pool ∧ (pool.frames frameId).page = none)
      (fun _ => Lacks base missing) := by
  refine ends_get_bind fun pool lacks => ?_
  cases search : (List.finRange poolSize).find? fun frameId => (pool.frames frameId).isEmpty with
  | some frameId =>
      have empty : (pool.frames frameId).page = none := by
        simpa [Frame.isEmpty] using List.find?_some search
      exact ends_pure fun _ same => same ▸ ⟨lacks, empty⟩
  | none =>
      rcases pool.replacer.evict with _ | ⟨victimId, replacer⟩
      · exact ends_throw fun _ same => same ▸ lacks
      · dsimp only
        have queue : Lacks base missing { pool with replacer := replacer } :=
          ⟨lacks.retains.of_eq rfl rfl rfl, lacks.missing⟩
        by_cases dirty : (pool.frames victimId).isDirty = true
        · rw [if_pos dirty]
          refine ends_modify_bind (Lacks base missing) (fun _ same => same ▸ queue) ?_
          exact ((retains_writeFrame victimId).failing fun _ _ impossible => impossible.elim).bind
            fun _ => lacks_clearFrame victimId
        · rw [if_neg dirty]
          refine ends_modify_bind (fun pool => Lacks base missing pool ∧ Spilled victimId pool) ?_
            (lacks_clearFrame victimId)
          rintro _ rfl
          refine ⟨queue, fun page held => ?_⟩
          exact queue.retains.tabled.clean held (by simpa using dirty)

/-- A page that is read is on file. -/
theorem lacks_readPage (frameId : Fin poolSize) (pageId : UInt32) :
    Ends (fun pool => Lacks base missing pool ∧ (pool.frames frameId).page = none)
      (onDisk (DiskManager.readPage pageId))
      (fun page pool => (Lacks base missing pool ∧ (pool.frames frameId).page = none) ∧
        page.id = pageId ∧ pool.OnFile pageId)
      (fun _ => Retains base) := by
  rintro pool ⟨lacks, empty⟩
  have faultless := lacks.retains.tabled.faultless
  simp only [onDisk, DiskManager.readPage, DiskManager.systemCall, faultless, bind_apply, get_apply]
  rcases found : pool.disk.file[pageId.toNat]? with _ | data
  · exact lacks.retains
  · dsimp only
    split_ifs with valid
    · have intact : data.verifyChecksum = true := valid
      exact ⟨⟨lacks, empty⟩, rfl, by simp [OnFile, DiskManager.stored, found, intact]⟩
    · exact lacks.retains

theorem retains_fetchPage (pageId : UInt32) :
    Ends (Retains base) (fetchPage pageId) (fun _ => Retains base) (fun _ => Retains base) := by
  refine ends_get_bind fun pool retains => ?_
  cases resident : pool.pageTable.lookup pageId with
  | some frameId =>
      dsimp only
      split_ifs
      swap
      · rintro _ rfl
        exact retains
      refine ends_modify_bind (Retains base) ?_ (ends_pure fun _ retains => retains)
      rintro pool rfl
      have kept : Retains base (pool.setFrame frameId
          { pool.frames frameId with pinCount := (pool.frames frameId).pinCount + 1 }) :=
        retains.setFrame rfl fun _ held isClean => retains.tabled.clean held isClean
      exact kept.of_eq rfl rfl rfl
  | none =>
      refine ends_modify_bind (Lacks base (· = pageId)) ?_ ?_
      · rintro pool rfl
        exact ⟨retains.of_eq rfl rfl rfl, fun other same => same ▸ resident⟩
      · refine (lacks_findFreeFrame.failing fun _ _ lacks => lacks.retains).bind fun frameId => ?_
        refine (lacks_readPage frameId pageId).bind fun page => ?_
        refine ends_modify_bind (Retains base) ?_ (ends_pure fun _ retains => retains)
        rintro pool ⟨⟨lacks, empty⟩, rfl, onFile⟩
        have allocated := lacks.retains.tabled.lt_of_visible (.inr onFile)
        exact (lacks.retains.install empty (lacks.missing _ rfl) allocated fun _ => onFile).1

/-- A new page is in its frame, and its id was not given out before. -/
theorem retains_newPage :
    Ends (Retains base) newPage
      (fun out pool => Retains base pool ∧ pool.Visible out.1 ∧
        base.disk.numPages.toNat ≤ out.1.toNat) (fun _ => Retains base) := by
  have free : Ends (Retains base) findFreeFrame (fun frameId pool =>
      Lacks base (fun _ => False) pool ∧ (pool.frames frameId).page = none)
      (fun _ => Retains base) :=
    lacks_findFreeFrame.imp (fun _ retains => ⟨retains, by simp⟩) (fun _ _ freed => freed)
      fun _ _ lacks => lacks.retains
  refine free.bind fun frameId => ?_
  intro pool freed
  rcases freed with ⟨⟨retains, -⟩, empty⟩
  have tabled := retains.tabled
  simp only [onDisk, DiskManager.allocatePage, bind_apply]
  split_ifs with room
  · have next := Counter.toNat_succ room
    have counted : Retains base { pool with
        disk := { pool.disk with numPages := pool.disk.numPages + 1 } } := by
      refine ⟨⟨tabled.table, tabled.frame, fun held => ?_, ?_, tabled.clean, tabled.faultless⟩,
        retains.visible, retains.onFile, ?_⟩
      · rw [next]
        exact Nat.lt_succ_of_lt (tabled.allocated held)
      · rw [next]
        exact Nat.le_succ_of_le tabled.fileLength
      · rw [next]
        exact Nat.le_succ_of_le retains.numPages
    have missing : pool.pageTable.lookup pool.disk.numPages = none := by
      by_contra resident
      have visible : pool.Visible pool.disk.numPages :=
        .inl (Option.isSome_iff_ne_none.mpr resident)
      exact lt_irrefl _ (tabled.lt_of_visible visible)
    let counter : BufferPool poolSize :=
      { pool with disk := { pool.disk with numPages := pool.disk.numPages + 1 } }
    have given : (Page.new pool.disk.numPages).id.toNat < counter.disk.numPages.toNat := by
      change pool.disk.numPages.toNat < (pool.disk.numPages + 1).toNat
      rw [next]
      exact Nat.lt_succ_self _
    have installed : Retains base (counter.install frameId (Page.new pool.disk.numPages) true) ∧
        (counter.install frameId (Page.new pool.disk.numPages) true).Visible pool.disk.numPages :=
      counted.install empty missing given (by simp)
    exact ⟨installed.1, installed.2, retains.numPages⟩
  · exact retains

/-- A page that was not lost is on file when it is flushed. -/
theorem retains_flushPage (pageId : UInt32) :
    Ends (Retains base) (flushPage pageId)
      (fun _ pool => Retains base pool ∧ (base.Visible pageId → pool.OnFile pageId))
      (fun _ _ => False) := by
  refine ends_get_bind fun pool retains => ?_
  cases resident : pool.pageTable.lookup pageId with
  | none =>
      refine ends_pure fun _ same => same ▸ ⟨retains, fun visible => ?_⟩
      refine (retains.visible visible).resolve_left ?_
      simp [resident]
  | some frameId =>
      rcases retains.tabled.table resident with ⟨page, held, rfl⟩
      have lacks : Lacks base (fun _ => False) pool := ⟨retains, by simp⟩
      dsimp only
      split_ifs with dirty
      · have write : Ends (fun other => other = pool) (writeFrame frameId)
            (fun _ pool => Retains base pool ∧ Spilled frameId pool ∧ pool.OnFile page.id)
            (fun _ _ => False) := by
          intro other same
          have ended := retains_writeFrame frameId _ lacks
          rw [same]
          rw [writeFrame_eq retains.tabled.faultless held] at ended ⊢
          let saved : Page := { page with data := page.data.finalizeChecksum }
          have here : ((pool.written frameId page).frames frameId).page = some saved := by
            rw [written, setFrame_frames_self]
          exact ⟨ended.1.retains, ended.2, ended.2 saved here⟩
        refine write.bind fun _ => ends_modify fun pool written => ?_
        rcases written with ⟨retains, spilled, onFile⟩
        exact ⟨retains.setFrame rfl fun page held _ => spilled page held, fun _ => onFile⟩
      · refine ends_pure fun _ same => same ▸ ⟨retains, fun _ => ?_⟩
        exact retains.tabled.clean held (by simpa using dirty)

/-- A page that was not lost can be fetched while no frame is pinned. -/
theorem fetchPage_ok (idle : pool.Idle) (tabled : Tabled pool) (visible : pool.Visible pageId)
    (frameId : Fin poolSize) :
    ∃ frameId pool', fetchPage pageId pool = (.ok frameId, pool') := by
  cases resident : pool.pageTable.lookup pageId with
  | some found => exact ⟨found, _, fetchPage_pinnable resident (idle.pinnable found)⟩
  | none =>
      have onFile : pool.OnFile pageId := visible.resolve_left (by simp [resident])
      let missed : BufferPool poolSize := { pool with misses := pool.misses + 1 }
      have idle' : missed.Idle := ⟨idle.count, idle.free, idle.faultless⟩
      have lacks : Lacks pool (fun _ => False) missed :=
        ⟨tabled.retains.of_eq rfl rfl rfl, by simp⟩
      rcases free : findFreeFrame missed with ⟨failure | found, freed⟩
      · exact absurd (ends_findFreeFrame.error idle' free).2 (not_isEmpty_iff.mpr ⟨frameId⟩)
      · have kept := (lacks_findFreeFrame.ok lacks free).1.retains
        rcases Option.isSome_iff_exists.mp (kept.onFile onFile) with ⟨data, present⟩
        have read := readPage_of_stored kept.tabled.faultless present
        refine ⟨found, freed.install found (Page.fromBytes pageId data) false, ?_⟩
        rw [fetchPage, get_bind, resident]
        dsimp only
        rw [modify_bind, bind_ok free]
        simp [onDisk, bind_apply, read]

end Calls

end VenomDb.BufferPool
