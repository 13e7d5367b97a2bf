import VenomDb.Buffer.Pins

/-!
# What a pool makes of a data file

Every page reads as something, if need be as an error: the page of its frame with the checksum that
a write embeds, or what the file gives. Evictions and flushes keep what the pages read as, on any
file, whatever its pages are and however many. Only `Pins` are asked for, so that there is a frame.
-/

namespace VenomDb

open Fallible

namespace PageData

variable [Crc32]

/-- A page that passes its check has the checksum that a write would embed. -/
theorem finalizeChecksum_of_verify {data : PageData} (valid : data.verifyChecksum = true) :
    data.finalizeChecksum = data := by
  have stored : Crc32.hash data.cleared = data.readHeader.checksum := by
    simpa [verifyChecksum, cleared] using valid
  have field : ((data.window 0 PageHeader.size).drop 8).take 4 = data.window 8 4 := by
    simpa using data.drop_take_window 0 8 4 (by decide : _ ≤ PageHeader.size)
  rw [finalizeChecksum_eq, stored, readHeader, PageHeader.fromBytes, field, toLe_toNat_uint32,
    Memory.put_window]

theorem finalizeChecksum_finalizeChecksum (data : PageData) :
    data.finalizeChecksum.finalizeChecksum = data.finalizeChecksum :=
  finalizeChecksum_of_verify data.verifyChecksum_finalizeChecksum

end PageData

/-- What the pages read as. -/
abbrev Contents := UInt32 → Except IoError PageData

namespace DiskManager

variable [Crc32] {file base : List PageData} {pageId other : UInt32} {data : PageData}

/-- What `read_page` gives if the operating system refuses nothing. -/
def load (file : List PageData) : Contents := fun pageId =>
  match file[pageId.toNat]? with
  | none => .error .unexpectedEof
  | some data =>
      if data.verifyChecksum then .ok data else .error (.checksumMismatch pageId)

theorem load_eq_ok : load file pageId = .ok data ↔
    file[pageId.toNat]? = some data ∧ data.verifyChecksum = true := by
  rw [load]
  rcases file[pageId.toNat]? with _ | found
  · simp
  · dsimp only
    split_ifs with valid
    · simp only [Except.ok.injEq, Option.some.injEq]
      refine ⟨?_, And.left⟩
      rintro rfl
      exact ⟨rfl, valid⟩
    · simp only [Option.some.injEq, false_iff, not_and]
      rintro rfl
      exact valid

theorem load_congr (same : file[pageId.toNat]? = base[pageId.toNat]?) :
    load file pageId = load base pageId := by
  rw [load, load, same]

theorem readPage_eq {disk : DiskManager} (faultless : disk.faults = []) (pageId : UInt32) :
    readPage pageId disk = match load disk.file pageId with
      | .ok data => (.ok (Page.fromBytes pageId data), disk)
      | .error error => (.error (.io error), disk) := by
  rw [load]
  rcases found : disk.file[pageId.toNat]? with _ | data
  · simp [readPage, systemCall, faultless, bind_apply, found]
  · by_cases valid : data.verifyChecksum
    · simp [readPage, systemCall, faultless, bind_apply, found, Page.fromBytes, valid]
    · simp [readPage, systemCall, faultless, bind_apply, found, Page.fromBytes, valid]

omit [Crc32] in
/-- A write inside the file changes one page. -/
theorem store_eq_set {index : ℕ} (inside : index < file.length) (data : PageData) :
    store file index data = file.set index data := by
  have gap : index + 1 - file.length = 0 := by omega
  rw [store, gap, List.replicate_zero, List.append_nil]

theorem load_store_self (data : PageData) :
    load (store file pageId.toNat data.finalizeChecksum) pageId = .ok data.finalizeChecksum :=
  load_eq_ok.mpr ⟨getElem?_store_self _ _, data.verifyChecksum_finalizeChecksum⟩

theorem load_store_of_ne (inside : pageId.toNat < file.length) (ne : other ≠ pageId) :
    load (store file pageId.toNat data) other = load file other := by
  apply load_congr
  rw [store_eq_set inside, List.getElem?_set_ne fun same => ne (UInt32.toNat.inj same).symm]

/-- A file some of whose pages have been written, the way a content says. -/
structure Mixes (base : List PageData) (content : Contents) (file : List PageData) : Prop where
  length : file.length = base.length
  page : ∀ index, file[index]? = base[index]? ∨
    ∃ pageId data, pageId.toNat = index ∧ content pageId = .ok data ∧ file[index]? = some data

omit [Crc32] in
theorem mixes_refl (base : List PageData) (content : Contents) : Mixes base content base :=
  ⟨rfl, fun _ => .inl rfl⟩

omit [Crc32] in
theorem Mixes.store {content : Contents} (mixes : Mixes base content file)
    (inside : pageId.toNat < file.length)
    (written : base[pageId.toNat]? = some data ∨ content pageId = .ok data) :
    Mixes base content (store file pageId.toNat data) := by
  rw [store_eq_set inside]
  refine ⟨by rw [List.length_set, mixes.length], fun index => ?_⟩
  by_cases same : pageId.toNat = index
  · subst same
    rw [List.getElem?_set_self inside]
    rcases written with isBase | isContent
    · exact .inl isBase.symm
    · exact .inr ⟨pageId, data, rfl, isContent, rfl⟩
  · rw [List.getElem?_set_ne same]
    exact mixes.page index

end DiskManager

namespace BufferPool

open DiskManager

variable {poolSize : ℕ} [Crc32] {pool : BufferPool poolSize} {base : List PageData}
  {final content : Contents} {within : UInt32 → Prop} {frameId : Fin poolSize} {pageId : UInt32}
  {page : Page}

/-- The pool renders a content. What it still has to write is `within` some pages, and of the file
that it was opened on it has replaced nothing but by the `final` content. -/
structure Renders (base : List PageData) (final content : Contents) (within : UInt32 → Prop)
    (pool : BufferPool poolSize) : Prop where
  table : ∀ {pageId frameId}, pool.pageTable.lookup pageId = some frameId →
    ∃ page, (pool.frames frameId).page = some page ∧ page.id = pageId
  frame : ∀ {frameId page}, (pool.frames frameId).page = some page →
    pool.pageTable.lookup page.id = some frameId
  shown : ∀ {frameId page}, (pool.frames frameId).page = some page →
    content page.id = .ok page.data.finalizeChecksum
  clean : ∀ {frameId page}, (pool.frames frameId).page = some page →
    (pool.frames frameId).isDirty = false → load pool.disk.file page.id = .ok page.data
  dirty : ∀ {frameId page}, (pool.frames frameId).page = some page →
    (pool.frames frameId).isDirty = true → within page.id
  inside : ∀ {frameId page}, (pool.frames frameId).page = some page →
    page.id.toNat < base.length
  file : ∀ {pageId}, pool.pageTable.lookup pageId = none →
    load pool.disk.file pageId = content pageId
  between : ∀ pageId, content pageId = load base pageId ∨ content pageId = final pageId
  mixes : Mixes base final pool.disk.file
  faultless : pool.disk.faults = []

theorem renders_opened (base : List PageData) (final : Contents) (within : UInt32 → Prop) :
    Renders base final (load base) within
      (new (DiskManager.new base []) : BufferPool poolSize) where
  table := by simp [new]
  frame := by simp [new, Frame.new]
  shown := by simp [new, Frame.new]
  clean := by simp [new, Frame.new]
  dirty := by simp [new, Frame.new]
  inside := by simp [new, Frame.new]
  file := fun _ => rfl
  between := fun _ => .inl rfl
  mixes := mixes_refl base final
  faultless := rfl

/-- Distinct pages sit in distinct frames. -/
theorem Renders.frame_inj (renders : Renders base final content within pool) {other : Fin poolSize}
    {page' : Page} (held : (pool.frames frameId).page = some page)
    (held' : (pool.frames other).page = some page') (same : page.id = page'.id) :
    frameId = other := by
  have here := renders.frame held
  rw [same, renders.frame held'] at here
  exact (Option.some.inj here).symm

/-- With nothing left to write, a page in a frame is the page in the file. -/
theorem Renders.read (renders : Renders base final content (fun _ => False) pool)
    (held : (pool.frames frameId).page = some page) :
    load pool.disk.file page.id = .ok page.data ∧ content page.id = .ok page.data := by
  have isClean : (pool.frames frameId).isDirty = false := by
    by_contra isDirty
    exact renders.dirty held (by simpa using isDirty)
  have loaded := renders.clean held isClean
  have shown := renders.shown held
  rw [PageData.finalizeChecksum_of_verify (load_eq_ok.mp loaded).2] at shown
  exact ⟨loaded, shown⟩

section Frames

/-- The replacer and the counters do not matter. -/
theorem Renders.of_eq {pool' : BufferPool poolSize}
    (renders : Renders base final content within pool) (frames : pool'.frames = pool.frames)
    (table : pool'.pageTable = pool.pageTable)
    (disk : pool'.disk = pool.disk) : Renders base final content within pool' := by
  rcases pool' with ⟨_, _, _, _, _, _⟩
  obtain rfl : _ = _ := frames
  obtain rfl : _ = _ := table
  obtain rfl : _ = _ := disk
  exact ⟨renders.table, renders.frame, renders.shown, renders.clean, renders.dirty, renders.inside,
    renders.file, renders.between, renders.mixes, renders.faultless⟩

/-- Only the pages in frames can still have to be written. -/
theorem Renders.narrow {within' : UInt32 → Prop} (renders : Renders base final content within pool)
    (narrows : ∀ pageId, within pageId → (pool.pageTable.lookup pageId).isSome → within' pageId) :
    Renders base final content within' pool :=
  ⟨renders.table, renders.frame, renders.shown, renders.clean,
    fun held isDirty => narrows _ (renders.dirty held isDirty) (by rw [renders.frame held]; rfl),
    renders.inside, renders.file, renders.between, renders.mixes, renders.faultless⟩

/-- A frame changes, and another content is rendered where its page is. -/
theorem Renders.setFrame {frame : Frame} {content' : Contents} {page' : Page}
    (renders : Renders base final content within pool)
    (held : (pool.frames frameId).page = some page) (held' : frame.page = some page')
    (sameId : page'.id = page.id)
    (shown : content' page.id = .ok page'.data.finalizeChecksum)
    (others : ∀ other, other ≠ page.id → content' other = content other)
    (between : content' page.id = load base page.id ∨ content' page.id = final page.id)
    (clean : frame.isDirty = false → load pool.disk.file page.id = .ok page'.data)
    (dirty : frame.isDirty = true → within page.id) :
    Renders base final content' within (pool.setFrame frameId frame) := by
  have here {found : Page}
      (inside : ((pool.setFrame frameId frame).frames frameId).page = some found) :
      found = page' := by
    rw [setFrame_frames_self, held'] at inside
    exact (Option.some.inj inside).symm
  have resident := renders.frame held
  refine ⟨?_, ?_, ?_, ?_, ?_, ?_, ?_, ?_, renders.mixes, renders.faultless⟩
  · intro other otherFrame found
    rcases renders.table found with ⟨old, oldHeld, rfl⟩
    by_cases same : otherFrame = frameId
    · subst same
      obtain rfl : page = old := Option.some.inj (held.symm.trans oldHeld)
      exact ⟨page', by rw [setFrame_frames_self, held'], sameId⟩
    · exact ⟨old, by rw [setFrame_frames_of_ne same, oldHeld], rfl⟩
  · intro otherFrame found inside
    by_cases same : otherFrame = frameId
    · subst same
      rw [here inside, sameId]
      exact resident
    · rw [setFrame_frames_of_ne same] at inside
      exact renders.frame inside
  · intro otherFrame found inside
    by_cases same : otherFrame = frameId
    · subst same
      rw [here inside, sameId, shown]
    · rw [setFrame_frames_of_ne same] at inside
      rw [others _ fun sameId => same (renders.frame_inj inside held sameId), renders.shown inside]
  · intro otherFrame found inside isClean
    by_cases same : otherFrame = frameId
    · subst same
      rw [setFrame_frames_self] at isClean
      rw [here inside, sameId]
      exact clean isClean
    · rw [setFrame_frames_of_ne same] at inside isClean
      exact renders.clean inside isClean
  · intro otherFrame found inside isDirty
    by_cases same : otherFrame = frameId
    · subst same
      rw [setFrame_frames_self] at isDirty
      rw [here inside, sameId]
      exact dirty isDirty
    · rw [setFrame_frames_of_ne same] at inside isDirty
      exact renders.dirty inside isDirty
  · intro otherFrame found inside
    by_cases same : otherFrame = frameId
    · subst same
      rw [here inside, sameId]
      exact renders.inside held
    · rw [setFrame_frames_of_ne same] at inside
      exact renders.inside inside
  · intro other missing
    rw [others other, ← renders.file missing]
    · rfl
    · rintro rfl
      rw [show (pool.setFrame frameId frame).pageTable.lookup page.id = _ from resident] at missing
      simp at missing
  · intro other
    by_cases same : other = page.id
    · subst same
      exact between
    · rw [others other same]
      exact renders.between other

/-- The frame keeps its page, and is as dirty as it was. -/
theorem Renders.repin (renders : Renders base final content within pool)
    (held : (pool.frames frameId).page = some page) (pinCount : UInt32) :
    Renders base final content within
      (pool.setFrame frameId { pool.frames frameId with pinCount := pinCount }) :=
  renders.setFrame held held rfl (renders.shown held) (fun _ _ => rfl) (renders.between _)
    (renders.clean held) (renders.dirty held)

/-- A page from the file is put into an empty frame. -/
theorem Renders.install (renders : Renders base final content within pool)
    (empty : (pool.frames frameId).page = none)
    (missing : pool.pageTable.lookup page.id = none)
    (loaded : load pool.disk.file page.id = .ok page.data) :
    Renders base final content within (pool.install frameId page false) := by
  have here : (pool.install frameId page false).frames frameId = ⟨some page, 1, false⟩ :=
    Function.update_self _ _ _
  have elsewhere {other : Fin poolSize} (apart : other ≠ frameId) :
      (pool.install frameId page false).frames other = pool.frames other :=
    Function.update_of_ne apart _ _
  have valid := load_eq_ok.mp loaded
  refine ⟨?_, ?_, ?_, ?_, ?_, ?_, ?_, renders.between, renders.mixes, renders.faultless⟩
  · intro other otherFrame found
    by_cases same : other = page.id
    · subst same
      obtain rfl : frameId = otherFrame := by simpa [BufferPool.install] using found
      exact ⟨page, by rw [here], rfl⟩
    · have old : pool.pageTable.lookup other = some otherFrame := by
        simpa [BufferPool.install, AList.lookup_insert_ne same] using found
      rcases renders.table old with ⟨held, inside, rfl⟩
      have apart : otherFrame ≠ frameId := by
        rintro rfl
        simp [empty] at inside
      exact ⟨held, by rw [elsewhere apart, inside], rfl⟩
  · intro otherFrame found inside
    by_cases same : otherFrame = frameId
    · subst same
      obtain rfl : page = found := by simpa [here] using inside
      simp [BufferPool.install]
    · rw [elsewhere same] at inside
      have resident := renders.frame inside
      have ne : found.id ≠ page.id := by
        intro sameId
        rw [sameId, missing] at resident
        simp at resident
      simpa [BufferPool.install, AList.lookup_insert_ne ne] using resident
  · intro otherFrame found inside
    by_cases same : otherFrame = frameId
    · subst same
      obtain rfl : page = found := by simpa [here] using inside
      rw [← renders.file missing, loaded, PageData.finalizeChecksum_of_verify valid.2]
    · rw [elsewhere same] at inside
      exact renders.shown inside
  · intro otherFrame found inside isClean
    by_cases same : otherFrame = frameId
    · subst same
      obtain rfl : page = found := by simpa [here] using inside
      exact loaded
    · rw [elsewhere same] at inside isClean
      exact renders.clean inside isClean
  · intro otherFrame found inside isDirty
    by_cases same : otherFrame = frameId
    · subst same
      simp [here] at isDirty
    · rw [elsewhere same] at inside isDirty
      exact renders.dirty inside isDirty
  · intro otherFrame found inside
    by_cases same : otherFrame = frameId
    · subst same
      obtain rfl : page = found := by simpa [here] using inside
      rw [← renders.mixes.length]
      exact (List.getElem?_eq_some_iff.mp valid.1).1
    · rw [elsewhere same] at inside
      exact renders.inside inside
  · intro other missing'
    apply renders.file
    by_cases same : other = page.id
    · rw [same]
      exact missing
    · simpa [BufferPool.install, AList.lookup_insert_ne same] using missing'

/-- A page that has its checksum is written from its frame to the file. -/
theorem Renders.stores (renders : Renders base final content within pool)
    (held : (pool.frames frameId).page = some page)
    (summed : page.data.finalizeChecksum = page.data) :
    Renders base final content within
      { pool with disk := { pool.disk with
          file := store pool.disk.file page.id.toNat page.data } } := by
  have inside := renders.inside held
  rw [← renders.mixes.length] at inside
  have saved : load (store pool.disk.file page.id.toNat page.data) page.id = .ok page.data := by
    have loaded : load (store pool.disk.file page.id.toNat page.data.finalizeChecksum) page.id =
        .ok page.data.finalizeChecksum := load_store_self page.data
    rwa [summed] at loaded
  have others {other : UInt32} (ne : other ≠ page.id) :
      load (store pool.disk.file page.id.toNat page.data) other = load pool.disk.file other :=
    load_store_of_ne inside ne
  refine ⟨renders.table, renders.frame, renders.shown, ?_, renders.dirty, renders.inside, ?_,
    renders.between, renders.mixes.store inside ?_, renders.faultless⟩
  · intro otherFrame found inside isClean
    by_cases same : found.id = page.id
    · obtain rfl := renders.frame_inj inside held same
      obtain rfl : found = page := Option.some.inj (inside.symm.trans held)
      exact saved
    · exact (others same).trans (renders.clean inside isClean)
  · intro other missing
    refine (others ?_).trans (renders.file missing)
    rintro rfl
    have resident := renders.frame held
    exact absurd (resident.symm.trans missing) (by simp)
  · have shown := renders.shown held
    rw [summed] at shown
    rcases renders.between page.id with isBase | isFinal
    · exact .inl (load_eq_ok.mp (isBase.symm.trans shown)).1
    · exact .inr (isFinal.symm.trans shown)

/-- The page of a frame is written to the file. -/
theorem Renders.written (renders : Renders base final content within pool)
    (held : (pool.frames frameId).page = some page) :
    Renders base final content within (pool.written frameId page) ∧
      load (pool.written frameId page).disk.file page.id = .ok page.data.finalizeChecksum := by
  have summed := page.data.finalizeChecksum_finalizeChecksum
  let page' : Page := { page with data := page.data.finalizeChecksum }
  let frame : Frame := { pool.frames frameId with page := some page' }
  have changed : Renders base final content within (pool.setFrame frameId frame) := by
    refine renders.setFrame held rfl rfl ?_ (fun _ _ => rfl) (renders.between _) ?_
      (renders.dirty held)
    · exact (renders.shown held).trans (congrArg Except.ok summed.symm)
    · intro isClean
      have loaded := renders.clean held isClean
      rw [loaded]
      exact congrArg Except.ok
        (PageData.finalizeChecksum_of_verify (load_eq_ok.mp loaded).2).symm
  have here : ((pool.setFrame frameId frame).frames frameId).page = some page' := by
    rw [setFrame_frames_self]
  exact ⟨changed.stores here summed, load_store_self page.data⟩

/-- A frame whose page is in the file is given up. -/
theorem Renders.evicted {pool' : BufferPool poolSize}
    (renders : Renders base final content within pool)
    (held : (pool.frames frameId).page = some page)
    (loaded : load pool.disk.file page.id = .ok page.data)
    (frames : pool'.frames = Function.update pool.frames frameId Frame.new)
    (table : pool'.pageTable = pool.pageTable.erase page.id) (disk : pool'.disk = pool.disk) :
    Renders base final content within pool' := by
  have here : (pool'.frames frameId).page = none := by
    rw [frames, Function.update_self]
    rfl
  have elsewhere {other : Fin poolSize} (apart : other ≠ frameId) :
      pool'.frames other = pool.frames other := by
    rw [frames, Function.update_of_ne apart]
  have apart {other : Fin poolSize} {found : Page}
    (inside : (pool'.frames other).page = some found) :
      other ≠ frameId := by
    rintro rfl
    rw [here] at inside
    simp at inside
  have kept {other : Fin poolSize} {found : Page}
    (inside : (pool'.frames other).page = some found) :
      (pool.frames other).page = some found := elsewhere (apart inside) ▸ inside
  refine ⟨?_, ?_, fun inside => renders.shown (kept inside), ?_, ?_,
    fun inside => renders.inside (kept inside), ?_, renders.between, disk ▸ renders.mixes,
    disk ▸ renders.faultless⟩
  · intro other otherFrame found
    rw [table] at found
    have ne : other ≠ page.id := by
      rintro rfl
      simp at found
    rw [AList.lookup_erase_ne ne] at found
    rcases renders.table found with ⟨old, inside, rfl⟩
    have apart : otherFrame ≠ frameId := by
      rintro rfl
      rw [held] at inside
      exact ne (congrArg Page.id (Option.some.inj inside)).symm
    exact ⟨old, by rw [elsewhere apart, inside], rfl⟩
  · intro otherFrame found inside
    have ne : found.id ≠ page.id := fun sameId =>
      apart inside (renders.frame_inj (kept inside) held sameId)
    rw [table, AList.lookup_erase_ne ne]
    exact renders.frame (kept inside)
  · intro otherFrame found inside isClean
    rw [disk]
    exact renders.clean (kept inside) (elsewhere (apart inside) ▸ isClean)
  · intro otherFrame found inside isDirty
    exact renders.dirty (kept inside) (elsewhere (apart inside) ▸ isDirty)
  · intro other missing
    rw [disk]
    by_cases same : other = page.id
    · subst same
      rw [loaded, renders.shown held,
        PageData.finalizeChecksum_of_verify (load_eq_ok.mp loaded).2]
    · rw [table, AList.lookup_erase_ne same] at missing
      exact renders.file missing

end Frames

section Calls

/-- The file has the page of a frame as the frame has it. -/
def Saved (frameId : Fin poolSize) (pool : BufferPool poolSize) : Prop :=
  ∀ page, (pool.frames frameId).page = some page → load pool.disk.file page.id = .ok page.data

/-- The content is rendered, and a page is in no frame. -/
def Lacking (base : List PageData) (final content : Contents) (within : UInt32 → Prop)
    (pageId : UInt32) (pool : BufferPool poolSize) : Prop :=
  Renders base final content within pool ∧ pool.pageTable.lookup pageId = none

theorem renders_writeFrame (frameId : Fin poolSize) :
    Ends (Lacking base final content within pageId) (writeFrame frameId)
      (fun _ pool => Lacking base final content within pageId pool ∧ Saved frameId pool)
      (fun _ _ => False) := by
  rintro pool ⟨renders, missing⟩
  rcases held : (pool.frames frameId).page with _ | page
  · have nothing : writeFrame frameId pool = (.ok (), pool) := by
      rw [writeFrame, get_bind, held]
      rfl
    rw [nothing]
    exact ⟨⟨renders, missing⟩, by simp [Saved, held]⟩
  · rw [writeFrame_eq renders.faultless held]
    rcases renders.written held with ⟨written, saved⟩
    refine ⟨⟨written, missing⟩, ?_⟩
    intro found inside
    rw [BufferPool.written, setFrame_frames_self] at inside
    obtain rfl := Option.some.inj inside
    exact saved

theorem renders_clearFrame (victimId : Fin poolSize)
    {failed : Failure → BufferPool poolSize → Prop} :
    Ends (fun pool => Lacking base final content within pageId pool ∧ Saved victimId pool)
      (clearFrame victimId) (fun frameId pool => Lacking base final content within pageId pool ∧
        (pool.frames frameId).page = none) failed := by
  rintro pool ⟨⟨renders, missing⟩, saved⟩
  rcases held : (pool.frames victimId).page with _ | page
  · simp only [clearFrame, modify_bind, held]
    have frames : (pool.setFrame victimId Frame.new).frames victimId = Frame.new :=
      setFrame_frames_self _ _
    refine ⟨⟨?_, missing⟩, by rw [frames]; rfl⟩
    have kept {other : Fin poolSize} {found : Page}
        (inside : ((pool.setFrame victimId Frame.new).frames other).page = some found) :
        (pool.setFrame victimId Frame.new).frames other = pool.frames other := by
      apply setFrame_frames_of_ne
      rintro rfl
      rw [frames] at inside
      simp [Frame.new] at inside
    refine ⟨?_, fun inside => renders.frame (kept inside ▸ inside),
      fun inside => renders.shown (kept inside ▸ inside),
      fun inside isClean => renders.clean (kept inside ▸ inside) (kept inside ▸ isClean),
      fun inside isDirty => renders.dirty (kept inside ▸ inside) (kept inside ▸ isDirty),
      fun inside => renders.inside (kept inside ▸ inside), renders.file, renders.between,
      renders.mixes, renders.faultless⟩
    intro other otherFrame found
    rcases renders.table found with ⟨page, inside, isPage⟩
    refine ⟨page, ?_, isPage⟩
    rw [setFrame_frames_of_ne, inside]
    rintro rfl
    simp [held] at inside
  · simp only [clearFrame, modify_bind, held]
    refine ⟨⟨renders.evicted held (saved page held) rfl rfl rfl, ?_⟩, ?_⟩
    · by_cases same : pageId = page.id
      · subst same
        simp [BufferPool.setFrame]
      · simpa [BufferPool.setFrame, AList.lookup_erase_ne same] using missing
    · simp [Frame.new]

theorem renders_findFreeFrame :
    Ends (Lacking base final content within pageId) findFreeFrame
      (fun frameId (pool : BufferPool poolSize) => Lacking base final content within pageId pool ∧
        (pool.frames frameId).page = none) (fun _ _ => True) := by
  refine ends_get_bind fun pool lacking => ?_
  cases search : (List.finRange poolSize).find? fun frameId => (pool.frames frameId).isEmpty with
  | some frameId =>
      have empty : (pool.frames frameId).isEmpty = true := by simpa using List.find?_some search
      exact ends_pure fun _ same => same ▸ ⟨lacking, by simpa [Frame.isEmpty] using empty⟩
  | none =>
      rcases pool.replacer.evict with _ | ⟨victimId, replacer⟩
      · exact ends_throw fun _ _ => trivial
      · dsimp only
        let unqueued : BufferPool poolSize := { pool with replacer := replacer }
        have kept : Lacking base final content within pageId unqueued :=
          ⟨lacking.1.of_eq rfl rfl rfl, lacking.2⟩
        refine ends_modify_bind (fun other => other = unqueued) (fun _ same => same ▸ rfl) ?_
        split_ifs with isDirty
        · refine Ends.bind (Ends.imp (renders_writeFrame victimId) (fun _ same => same ▸ kept)
            (fun _ _ written => written) fun _ _ impossible => impossible.elim)
            fun _ => renders_clearFrame victimId
        · refine (renders_clearFrame victimId).imp (fun _ same => ?_) (fun _ _ cleared => cleared)
            fun _ _ done => done
          refine same ▸ ⟨kept, fun page held => ?_⟩
          exact kept.1.clean held (by simpa using isDirty)

/-- While no frame is pinned, a page is fetched, or it cannot be read. -/
theorem renders_fetchPage (someFrame : Fin poolSize) (pageId : UInt32) :
    Ends (fun pool : BufferPool poolSize => Renders base final content within pool ∧ pool.Idle)
      (fetchPage pageId)
      (fun frameId pool => Renders base final content within pool ∧ pool.Busy frameId ∧
        ∃ page, (pool.frames frameId).page = some page ∧ page.id = pageId)
      (fun failure pool => Renders base final content within pool ∧ pool.Idle ∧
        ∃ error, content pageId = .error error ∧ failure = .io error) := by
  rintro pool ⟨renders, idle⟩
  have pins := ends_fetchPage pageId pool idle
  rcases resident : pool.pageTable.lookup pageId with _ | frameId
  · let missed : BufferPool poolSize := { pool with misses := pool.misses + 1 }
    have idle' : missed.Idle := ⟨idle.count, idle.free, idle.faultless⟩
    have lacking : Lacking base final content within pageId missed :=
      ⟨renders.of_eq rfl rfl rfl, resident⟩
    rcases free : findFreeFrame missed with ⟨failure | frameId, freed⟩
    · exact absurd (ends_findFreeFrame.error idle' free).2 (not_isEmpty_iff.mpr ⟨someFrame⟩)
    · rcases renders_findFreeFrame.ok lacking free with ⟨⟨renders', missing⟩, empty⟩
      have runs : fetchPage pageId pool = (onDisk (DiskManager.readPage pageId) >>= fun page => do
          Fallible.modify (install frameId page false)
          return frameId) freed := by
        rw [fetchPage, get_bind, resident]
        dsimp only
        rw [modify_bind, bind_ok free]
      have read := readPage_eq renders'.faultless pageId
      rw [runs, bind_apply, onDisk, read] at pins ⊢
      rcases loaded : load freed.disk.file pageId with error | data
      · rw [loaded] at pins
        rw [renders'.file missing] at loaded
        exact ⟨renders', pins.2, error, loaded, rfl⟩
      · rw [loaded] at pins
        exact ⟨renders'.install empty missing loaded, pins, Page.fromBytes pageId data,
          by simp [install], rfl⟩
  · rcases renders.table resident with ⟨page, held, rfl⟩
    rw [fetchPage_pinnable resident (idle.pinnable frameId)] at pins ⊢
    refine ⟨(renders.repin held _).of_eq rfl rfl rfl, pins, page, ?_, rfl⟩
    simpa [hit] using held

/-- The page of a frame is replaced, and then unpinned as changed. -/
theorem Renders.put {content' : Contents} {page' : Page}
    (renders : Renders base final content within pool) (busy : pool.Busy frameId)
    (held : (pool.frames frameId).page = some page) (sameId : page'.id = page.id)
    (shown : content' page.id = .ok page'.data.finalizeChecksum)
    (others : ∀ other, other ≠ page.id → content' other = content other)
    (isFinal : content' page.id = final page.id) (pending : within page.id) :
    Renders base final content' within ((pool.setPage frameId page').unpin frameId true) := by
  have one : ((pool.setPage frameId page').frames frameId).pinCount = 1 := by
    rw [BufferPool.setPage, setFrame_frames_self]
    exact busy.count frameId rfl
  let frame : Frame := { page := some page', pinCount := 0, isDirty := true }
  have changed : Renders base final content' within (pool.setFrame frameId frame) :=
    renders.setFrame held rfl sameId shown others (.inr isFinal) (by simp [frame]) fun _ => pending
  rw [unpin_last one]
  refine changed.of_eq ?_ rfl rfl
  simp [BufferPool.setPage, BufferPool.setFrame, frame]

/-- A frame is unpinned as it was. -/
theorem Renders.unpin (renders : Renders base final content within pool) (busy : pool.Busy frameId)
    (held : (pool.frames frameId).page = some page) :
    Renders base final content within (pool.unpin frameId false) := by
  rw [unpin_last (busy.count frameId rfl), Bool.or_false]
  exact (renders.repin held 0).of_eq rfl rfl rfl

/-- A flush leaves one page less to write. -/
theorem renders_flushPage (pageId : UInt32) (pageIds : List UInt32) :
    Ends (fun pool : BufferPool poolSize => Renders base final content (· ∈ pageId :: pageIds) pool)
      (flushPage pageId) (fun _ pool => Renders base final content (· ∈ pageIds) pool)
      (fun _ _ => False) := by
  refine ends_get_bind fun pool renders => ?_
  -- what is dirty in other frames is of the other pages
  have fewer {other : BufferPool poolSize}
      (rendered : Renders base final content (· ∈ pageId :: pageIds) other)
      (clean : ∀ frameId page, (other.frames frameId).page = some page → page.id = pageId →
        (other.frames frameId).isDirty = false) :
      Renders base final content (· ∈ pageIds) other := by
    refine ⟨rendered.table, rendered.frame, rendered.shown, rendered.clean, ?_, rendered.inside,
      rendered.file, rendered.between, rendered.mixes, rendered.faultless⟩
    intro frameId page held isDirty
    rcases List.mem_cons.mp (rendered.dirty held isDirty) with same | inside
    · rw [clean frameId page held same] at isDirty
      simp at isDirty
    · exact inside
  cases resident : pool.pageTable.lookup pageId with
  | none =>
      refine ends_pure fun _ same => same ▸ fewer renders ?_
      rintro frameId page held rfl
      rw [renders.frame held] at resident
      simp at resident
  | some frameId =>
      rcases renders.table resident with ⟨page, held, rfl⟩
      dsimp only
      split_ifs with isDirty
      · intro start same
        rw [same, bind_ok (writeFrame_eq renders.faultless held)]
        rcases renders.written held with ⟨written, saved⟩
        let page' : Page := { page with data := page.data.finalizeChecksum }
        have held' : ((pool.written frameId page).frames frameId).page = some page' := by
          rw [BufferPool.written, setFrame_frames_self]
        let frame : Frame := { (pool.written frameId page).frames frameId with isDirty := false }
        have cleaned : Renders base final content (· ∈ page.id :: pageIds)
            ((pool.written frameId page).setFrame frameId frame) :=
          written.setFrame held' held' rfl (written.shown held') (fun _ _ => rfl)
            (written.between _) (fun _ => saved) (by simp [frame])
        have here : ((pool.written frameId page).setFrame frameId frame).frames frameId = frame :=
          setFrame_frames_self _ _
        have held'' : (((pool.written frameId page).setFrame frameId frame).frames frameId).page =
            some page' := by
          rw [here]
          exact held'
        refine fewer cleaned fun other found inside same => ?_
        obtain rfl : other = frameId := cleaned.frame_inj inside held'' same
        rw [here]
      · refine ends_pure fun _ same => same ▸ fewer renders ?_
        intro other found inside same
        obtain rfl := renders.frame_inj inside held same
        simpa using isDirty

end Calls

end BufferPool

end VenomDb
