import VenomDb.Buffer.Residence

/-!
# All versions of a page

A page that was changed and not written back has two versions, one in its frame and one in the
file. An eviction falls back to the older one if the frame is not marked dirty, and so does a
restart in any case. What holds of all versions of a page is kept by all calls of the pool,
whatever their order, and so is what holds of the versions that the pool itself can fall back to.
-/

namespace VenomDb.BufferPool

open Fallible

variable {poolSize : ℕ} [Crc32] {base pool : BufferPool poolSize} {frameId : Fin poolSize}
  {missing relevant : UInt32 → Prop} {holds : UInt32 → PageData → Prop} {page : Page} {hides : Prop}

/-- No frame hides the file's version of a page. -/
def Bare (pool : BufferPool poolSize) (pageId : UInt32) : Prop :=
  ∀ frameId page, (pool.frames frameId).page = some page → page.id = pageId →
    (pool.frames frameId).isDirty = false

/-- Something holds of every version of the relevant pages, unless `hides` and a dirty frame hides
the version in the file. -/
structure Shows (hides : Prop) (relevant : UInt32 → Prop) (holds : UInt32 → PageData → Prop)
    (pool : BufferPool poolSize) : Prop where
  frame : ∀ {frameId page}, (pool.frames frameId).page = some page → relevant page.id →
    holds page.id page.data
  file : ∀ {pageId data}, relevant pageId → (hides → pool.Bare pageId) →
    DiskManager.stored pool.disk.file pageId = some data → holds pageId data

/-- A page whose version in the file cannot come out of nothing. -/
def Kept (hides : Prop) (pool : BufferPool poolSize) (pageId : UInt32) : Prop :=
  pool.OnFile pageId ∨ hides ∧ pool.Visible pageId

theorem Kept.visible {pageId : UInt32} (kept : pool.Kept hides pageId) : pool.Visible pageId :=
  kept.elim .inr And.right

theorem Kept.retains {pageId : UInt32} (kept : base.Kept hides pageId)
    (retains : Retains base pool) : pool.Kept hides pageId :=
  kept.imp retains.onFile (And.imp_right retains.visible)

/-- The checksum field plays no part. -/
def Unhashed (holds : UInt32 → PageData → Prop) : Prop :=
  ∀ pageId data data', PageData.cleared data' = PageData.cleared data → holds pageId data →
    holds pageId data'

theorem shows_new {disk : DiskManager} (file : ∀ {pageId data}, relevant pageId →
    DiskManager.stored disk.file pageId = some data → holds pageId data) :
    Shows hides relevant holds (new disk : BufferPool poolSize) where
  frame := by simp [new, Frame.new]
  file := fun isRelevant _ present => file isRelevant present

/-- Something that follows, of fewer pages. -/
theorem Shows.imp {relevant' : UInt32 → Prop} {holds' : UInt32 → PageData → Prop}
    (shows_ : Shows hides relevant holds pool)
    (fewer : ∀ pageId, relevant' pageId → relevant pageId)
    (weaker : ∀ pageId data, relevant' pageId → holds pageId data → holds' pageId data) :
    Shows hides relevant' holds' pool where
  frame := fun held isRelevant =>
    weaker _ _ isRelevant (shows_.frame held (fewer _ isRelevant))
  file := fun isRelevant bare present =>
    weaker _ _ isRelevant (shows_.file (fewer _ isRelevant) bare present)

/-- What is there can be seen. -/
theorem Tabled.isSome_view {pageId : UInt32} (tabled : Tabled pool) :
    (pool.view pageId).isSome ↔ pool.Visible pageId := by
  rw [view, Visible, OnFile]
  cases resident : pool.pageTable.lookup pageId with
  | some frameId =>
      rcases tabled.table resident with ⟨page, held, -⟩
      simp [held]
  | none => simp

/-- What a client sees of a page is a version of it. -/
theorem Shows.view {pageId : UInt32} {data : PageData} (shows_ : Shows hides relevant holds pool)
    (unhashed : Unhashed holds) (tabled : Tabled pool) (isRelevant : relevant pageId)
    (seen : pool.view pageId = some data) : holds pageId data := by
  rw [BufferPool.view] at seen
  cases resident : pool.pageTable.lookup pageId with
  | some frameId =>
      rcases tabled.table resident with ⟨page, held, rfl⟩
      obtain rfl : page.data.cleared = data := by simpa [resident, held] using seen
      exact unhashed _ _ _ page.data.cleared_cleared (shows_.frame held isRelevant)
  | none =>
      rw [resident] at seen
      rcases Option.map_eq_some_iff.mp seen with ⟨stored, present, rfl⟩
      refine unhashed _ _ _ stored.cleared_cleared (shows_.file isRelevant (fun _ => ?_) present)
      intro frameId page held isPage
      have found := tabled.frame held
      rw [isPage, resident] at found
      simp at found

section Frames

/-- A frame changes without its page id, and it does not get clean. -/
theorem Shows.setFrame {frame : Frame} (shows_ : Shows hides relevant holds pool)
    (samePage : frame.page.map Page.id = ((pool.frames frameId).page).map Page.id)
    (dirtier : (pool.frames frameId).isDirty = true → frame.isDirty = true)
    (content : ∀ page, frame.page = some page → relevant page.id → holds page.id page.data) :
    Shows hides relevant holds (pool.setFrame frameId frame) where
  frame := by
    intro other page held isRelevant
    by_cases same : other = frameId
    · subst same
      rw [setFrame_frames_self] at held
      exact content page held isRelevant
    · rw [setFrame_frames_of_ne same] at held
      exact shows_.frame held isRelevant
  file := by
    intro pageId data isRelevant bare present
    refine shows_.file isRelevant ?_ present
    intro hidden other page held isPage
    by_cases same : other = frameId
    · subst same
      rw [held] at samePage
      rcases Option.map_eq_some_iff.mp samePage with ⟨page', held', sameId⟩
      have clean := bare hidden other page' (by rwa [setFrame_frames_self]) (sameId.trans isPage)
      rw [setFrame_frames_self] at clean
      by_contra dirty
      simp [dirtier (by simpa using dirty)] at clean
    · have clean := bare hidden other page (by rwa [setFrame_frames_of_ne same]) isPage
      rwa [setFrame_frames_of_ne same] at clean

/-- The replacer, the page table and the counters do not matter. -/
theorem Shows.of_eq {pool' : BufferPool poolSize} (shows_ : Shows hides relevant holds pool)
    (frames : pool'.frames = pool.frames) (file : pool'.disk.file = pool.disk.file) :
    Shows hides relevant holds pool' where
  frame := by
    rw [frames]
    exact shows_.frame
  file := by
    intro pageId data isRelevant bare present
    rw [file] at present
    refine shows_.file isRelevant (fun hidden => ?_) present
    have shown := bare hidden
    rw [Bare, frames] at shown
    exact shown

theorem Shows.unpin (shows_ : Shows hides relevant holds pool) (frameId : Fin poolSize)
    (isDirty : Bool) : Shows hides relevant holds (pool.unpin frameId isDirty) := by
  have kept : Shows hides relevant holds (pool.setFrame frameId { pool.frames frameId with
      pinCount := (pool.frames frameId).pinCount - 1
      isDirty := (pool.frames frameId).isDirty || isDirty }) :=
    shows_.setFrame rfl (fun dirty => by simp [dirty]) fun _ held => shows_.frame held
  rw [BufferPool.unpin]
  dsimp only
  split_ifs
  · exact shows_
  · exact kept.of_eq rfl rfl
  · exact kept

theorem Shows.setPage {page' : Page} (shows_ : Shows hides relevant holds pool)
    (held : pool.getPage frameId = some page) (sameId : page'.id = page.id)
    (content : relevant page.id → holds page.id page'.data) :
    Shows hides relevant holds (pool.setPage frameId page') := by
  rw [getPage] at held
  refine shows_.setFrame (by simp [held, sameId]) id ?_
  intro other same isRelevant
  obtain rfl : page' = other := Option.some.inj same
  rw [sameId] at isRelevant ⊢
  exact content isRelevant

/-- A page is put into an empty frame. -/
theorem Shows.install {isDirty : Bool} (shows_ : Shows hides relevant holds pool)
    (empty : (pool.frames frameId).page = none)
    (content : relevant page.id → holds page.id page.data) :
    Shows hides relevant holds (pool.install frameId page isDirty) := by
  have here : (pool.install frameId page isDirty).frames frameId = ⟨some page, 1, isDirty⟩ :=
    Function.update_self _ _ _
  have elsewhere {other : Fin poolSize} (apart : other ≠ frameId) :
      (pool.install frameId page isDirty).frames other = pool.frames other :=
    Function.update_of_ne apart _ _
  refine ⟨?_, ?_⟩
  · intro other found held isRelevant
    by_cases same : other = frameId
    · subst same
      rw [here] at held
      obtain rfl : page = found := Option.some.inj held
      exact content isRelevant
    · rw [elsewhere same] at held
      exact shows_.frame held isRelevant
  · intro pageId data isRelevant bare present
    refine shows_.file isRelevant ?_ present
    intro hidden other found held isPage
    have apart : other ≠ frameId := by
      rintro rfl
      rw [empty] at held
      simp at held
    have clean := bare hidden other found (by rwa [elsewhere apart]) isPage
    rwa [elsewhere apart] at clean

end Frames

section Calls

/-- It also holds of what the file has of the page in a frame. -/
def Backed (relevant : UInt32 → Prop) (holds : UInt32 → PageData → Prop) (frameId : Fin poolSize)
    (pool : BufferPool poolSize) : Prop :=
  ∀ page, (pool.frames frameId).page = some page → relevant page.id →
    ∀ data, DiskManager.stored pool.disk.file page.id = some data → holds page.id data

theorem Shows.written (shows_ : Shows hides relevant holds pool) (unhashed : Unhashed holds)
    (tabled : Tabled pool) (kept : ∀ pageId, relevant pageId → pool.Kept hides pageId)
    (held : (pool.frames frameId).page = some page) :
    Shows hides relevant holds (pool.written frameId page) ∧
      Backed relevant holds frameId (pool.written frameId page) := by
  let saved : Page := { page with data := page.data.finalizeChecksum }
  have here : (pool.written frameId page).frames frameId =
      { pool.frames frameId with page := some saved } := by
    rw [BufferPool.written, setFrame_frames_self]
  have elsewhere {other : Fin poolSize} (apart : other ≠ frameId) :
      (pool.written frameId page).frames other = pool.frames other := by
    rw [BufferPool.written, setFrame_frames_of_ne apart]
  have content (isRelevant : relevant page.id) : holds page.id page.data.finalizeChecksum :=
    unhashed _ _ _ page.data.cleared_finalizeChecksum (shows_.frame held isRelevant)
  have onFile {data : PageData}
      (present : DiskManager.stored (pool.written frameId page).disk.file page.id = some data) :
      data = page.data.finalizeChecksum :=
    Option.some.inj (present.symm.trans (DiskManager.stored_store_self _ _))
  refine ⟨⟨?_, ?_⟩, ?_⟩
  · intro other found inside isRelevant
    by_cases same : other = frameId
    · subst same
      rw [here] at inside
      obtain rfl : saved = found := Option.some.inj inside
      exact content isRelevant
    · rw [elsewhere same] at inside
      exact shows_.frame inside isRelevant
  · intro pageId data isRelevant bare present
    by_cases same : page.id = pageId
    · subst same
      rw [onFile present]
      exact content isRelevant
    · have bare' (hidden : hides) : pool.Bare pageId := by
        intro other found inside isPage
        by_cases sameFrame : other = frameId
        · subst sameFrame
          rw [held] at inside
          obtain rfl : page = found := Option.some.inj inside
          exact absurd isPage same
        · have clean := bare hidden other found (by rwa [elsewhere sameFrame]) isPage
          rwa [elsewhere sameFrame] at clean
      rcases before : DiskManager.stored pool.disk.file pageId with _ | old
      · -- a hole that the write makes: its page is in a frame, and not clean there
        have lost : ¬pool.OnFile pageId := by simp [OnFile, before]
        rcases kept pageId isRelevant with stored | ⟨hidden, resident | stored⟩
        · exact absurd stored lost
        · rcases Option.isSome_iff_exists.mp resident with ⟨other, resident⟩
          rcases tabled.table resident with ⟨found, inside, rfl⟩
          exact absurd (tabled.clean inside (bare' hidden other found inside rfl)) lost
        · exact absurd stored lost
      · rw [show DiskManager.stored (pool.written frameId page).disk.file pageId = some old from
          DiskManager.stored_store_of_ne same before] at present
        obtain rfl : old = data := Option.some.inj present
        exact shows_.file isRelevant bare' before
  · intro found inside isRelevant data present
    rw [here] at inside
    obtain rfl : saved = found := Option.some.inj inside
    rw [onFile present]
    exact content isRelevant

/-- What the calls inside the pool keep. -/
structure Carries (base : BufferPool poolSize) (missing : UInt32 → Prop) (hides : Prop)
    (relevant : UInt32 → Prop) (holds : UInt32 → PageData → Prop) (pool : BufferPool poolSize) :
    Prop where
  lacks : Lacks base missing pool
  versions : Shows hides relevant holds pool

variable (unhashed : Unhashed holds) (known : ∀ pageId, relevant pageId → base.Kept hides pageId)

include unhashed known

theorem shows_writeFrame (frameId : Fin poolSize) :
    Ends (Carries base missing hides relevant holds) (writeFrame frameId)
      (fun _ pool => Carries base missing hides relevant holds pool ∧ Spilled frameId pool ∧
        Backed relevant holds frameId pool) (fun _ _ => False) := by
  intro pool carries
  have ended := retains_writeFrame frameId pool carries.lacks
  rcases held : (pool.frames frameId).page with _ | page
  · have nothing : writeFrame frameId pool = (.ok (), pool) := by
      rw [writeFrame, get_bind, held]
      rfl
    rw [nothing] at ended ⊢
    exact ⟨carries, ended.2, by simp [Backed, held]⟩
  · rw [writeFrame_eq carries.lacks.retains.tabled.faultless held] at ended ⊢
    have written := carries.versions.written unhashed carries.lacks.retains.tabled
      (fun pageId isRelevant => (known pageId isRelevant).retains carries.lacks.retains) held
    exact ⟨⟨ended.1, written.1⟩, ended.2, written.2⟩

omit unhashed known in
theorem shows_clearFrame (victimId : Fin poolSize) {failed : Failure → BufferPool poolSize → Prop} :
    Ends (fun pool => Carries base missing hides relevant holds pool ∧ Spilled victimId pool ∧
        Backed relevant holds victimId pool) (clearFrame victimId)
      (fun frameId pool => Carries base missing hides relevant holds pool ∧
        (pool.frames frameId).page = none) failed := by
  rintro pool ⟨⟨lacks, versions⟩, spilled, backed⟩
  have clears : Ends (fun pool => Lacks base missing pool ∧ Spilled victimId pool)
      (clearFrame victimId) (fun frameId pool => Lacks base missing pool ∧
        (pool.frames frameId).page = none) failed := lacks_clearFrame victimId
  have ended := clears pool ⟨lacks, spilled⟩
  have tabled := lacks.retains.tabled
  have cleared {other : BufferPool poolSize} (frames : other.frames = pool.frames)
      (file : other.disk.file = pool.disk.file) :
      Shows hides relevant holds (other.setFrame victimId Frame.new) := by
    refine ⟨?_, ?_⟩
    · intro found page held isRelevant
      by_cases same : found = victimId
      · subst same
        rw [setFrame_frames_self] at held
        simp [Frame.new] at held
      · rw [setFrame_frames_of_ne same, frames] at held
        exact versions.frame held isRelevant
    · intro pageId data isRelevant bare present
      have present : DiskManager.stored pool.disk.file pageId = some data := by
        rwa [← file]
      by_cases victim : ∃ page, (pool.frames victimId).page = some page ∧ page.id = pageId
      · rcases victim with ⟨page, held, rfl⟩
        exact backed page held isRelevant data present
      · refine versions.file isRelevant ?_ present
        intro hidden found page held isPage
        have apart : found ≠ victimId := by
          rintro rfl
          exact victim ⟨page, held, isPage⟩
        have clean := bare hidden found page (by rwa [setFrame_frames_of_ne apart, frames]) isPage
        rwa [setFrame_frames_of_ne apart, frames] at clean
  rcases held : (pool.frames victimId).page with _ | page
  · simp only [clearFrame, modify_bind, held] at ended ⊢
    exact ⟨⟨ended.1, cleared rfl rfl⟩, ended.2⟩
  · simp only [clearFrame, modify_bind, held] at ended ⊢
    exact ⟨⟨ended.1, cleared rfl rfl⟩, ended.2⟩

theorem shows_findFreeFrame :
    Ends (Carries base missing hides relevant holds) findFreeFrame
      (fun frameId pool => Carries base missing hides relevant holds pool ∧
        (pool.frames frameId).page = none)
      (fun failure pool => failure = .io .poolFull ∧
        Carries base missing hides relevant holds pool) := by
  refine ends_get_bind fun pool carries => ?_
  cases search : (List.finRange poolSize).find? fun frameId => (pool.frames frameId).isEmpty with
  | some frameId =>
      have empty : (pool.frames frameId).page = none := by
        simpa [Frame.isEmpty] using List.find?_some search
      exact ends_pure fun _ same => same ▸ ⟨carries, empty⟩
  | none =>
      rcases pool.replacer.evict with _ | ⟨victimId, replacer⟩
      · exact ends_throw fun _ same => same ▸ ⟨rfl, carries⟩
      · dsimp only
        have queue : Carries base missing hides relevant holds { pool with replacer := replacer } :=
          ⟨⟨carries.lacks.retains.of_eq rfl rfl rfl, carries.lacks.missing⟩,
            carries.versions.of_eq rfl rfl⟩
        by_cases dirty : (pool.frames victimId).isDirty = true
        · rw [if_pos dirty]
          refine ends_modify_bind (Carries base missing hides relevant holds)
            (fun _ same => same ▸ queue) ?_
          exact ((shows_writeFrame unhashed known victimId).failing fun _ _ impossible =>
            impossible.elim).bind fun _ => shows_clearFrame victimId
        · rw [if_neg dirty]
          refine ends_modify_bind (fun pool => Carries base missing hides relevant holds pool ∧
            Spilled victimId pool ∧ Backed relevant holds victimId pool) ?_
            (shows_clearFrame victimId)
          rintro pool' rfl
          have tabled := queue.lacks.retains.tabled
          have clean : (pool'.frames victimId).isDirty = false := by simpa using dirty
          refine ⟨queue, fun page held => tabled.clean held clean, ?_⟩
          -- the page of a clean frame is in no other frame, so its version on file shows
          intro page held isRelevant data present
          refine queue.versions.file isRelevant ?_ present
          intro hidden other found inside isPage
          have resident := tabled.frame inside
          rw [isPage, tabled.frame held] at resident
          obtain rfl : victimId = other := Option.some.inj resident
          exact clean

end Calls

section Client

variable (unhashed : Unhashed holds)

include unhashed

/-- What a client of the pool can rely on. -/
structure Upholds (hides : Prop) (relevant : UInt32 → Prop)
    (holds : UInt32 → PageData → Prop) (base pool : BufferPool poolSize) : Prop where
  retains : Retains base pool
  versions : Shows hides relevant holds pool

omit unhashed in
theorem Upholds.carries (upholds : Upholds hides relevant holds base pool) :
    Carries base (fun _ => False) hides relevant holds pool :=
  ⟨⟨upholds.retains, by simp⟩, upholds.versions⟩

variable (known : ∀ pageId, relevant pageId → base.Kept hides pageId)

include known

/-- A fetched page is in the frame that the fetch gives. -/
theorem shows_fetchPage (pageId : UInt32) :
    Ends (Upholds hides relevant holds base) (fetchPage pageId)
      (fun frameId pool => Upholds hides relevant holds base pool ∧
        pool.pageTable.lookup pageId = some frameId)
      (fun failure pool => ((∃ error, failure = .io error) ∨
        failure = .panic .overflow ∧ pool.Saturated pageId) ∧
        Upholds hides relevant holds base pool) := by
  refine ends_get_bind fun pool upholds => ?_
  cases resident : pool.pageTable.lookup pageId with
  | some frameId =>
      dsimp only
      split_ifs with pinnable
      swap
      · rintro _ rfl
        exact ⟨.inr ⟨rfl, frameId, resident, pinnable⟩, upholds⟩
      refine ends_modify_bind (fun pool => Upholds hides relevant holds base pool ∧
        pool.pageTable.lookup pageId = some frameId) ?_ (ends_pure fun _ kept => kept)
      rintro pool rfl
      have kept : Retains base (pool.setFrame frameId
          { pool.frames frameId with pinCount := (pool.frames frameId).pinCount + 1 }) :=
        upholds.retains.setFrame rfl fun _ held isClean =>
          upholds.retains.tabled.clean held isClean
      have versions : Shows hides relevant holds (pool.setFrame frameId
          { pool.frames frameId with pinCount := (pool.frames frameId).pinCount + 1 }) :=
        upholds.versions.setFrame rfl id fun _ held => upholds.versions.frame held
      exact ⟨⟨kept.of_eq rfl rfl rfl, versions.of_eq rfl rfl⟩, resident⟩
  | none =>
      refine ends_modify_bind (Carries base (· = pageId) hides relevant holds) ?_ ?_
      · rintro pool rfl
        exact ⟨⟨upholds.retains.of_eq rfl rfl rfl, fun other same => same ▸ resident⟩,
          upholds.versions.of_eq rfl rfl⟩
      · refine ((shows_findFreeFrame unhashed known).failing fun _ _ full =>
          ⟨.inl ⟨_, full.1⟩, full.2.lacks.retains, full.2.versions⟩).bind fun frameId => ?_
        rintro pool ⟨⟨lacks, versions⟩, empty⟩
        have tabled := lacks.retains.tabled
        cases present : DiskManager.stored pool.disk.file pageId with
        | none =>
            rcases readPage_of_not_stored tabled.faultless present with ⟨error, read⟩
            simp only [onDisk, bind_apply, read]
            exact ⟨.inl ⟨error, rfl⟩, lacks.retains, versions⟩
        | some data =>
            simp only [onDisk, bind_apply, readPage_of_stored tabled.faultless present,
              modify_apply, pure_apply]
            have onFile : pool.OnFile pageId := Option.isSome_iff_exists.mpr ⟨data, present⟩
            have allocated := tabled.lt_of_visible (.inr onFile)
            have missing : pool.pageTable.lookup (Page.fromBytes pageId data).id = none :=
              lacks.missing _ rfl
            refine ⟨⟨(lacks.retains.install empty missing allocated fun _ => onFile).1, ?_⟩,
              AList.lookup_insert _⟩
            refine versions.install empty fun isRelevant => ?_
            refine versions.file isRelevant ?_ present
            intro hidden other found held isPage
            have here := tabled.frame held
            rw [isPage, show Page.id _ = pageId from rfl, lacks.missing _ rfl] at here
            simp at here

/-- A new page is in its frame, and was of no relevance before. -/
theorem shows_newPage :
    Ends (Upholds hides relevant holds base) newPage
      (fun out pool => Upholds hides relevant holds base pool ∧
        pool.pageTable.lookup out.1 = some out.2 ∧
        (pool.frames out.2).page = some (Page.new out.1) ∧ (pool.frames out.2).isDirty = true ∧
        pool.disk.numPages.toNat = out.1.toNat + 1 ∧
        base.disk.numPages.toNat ≤ out.1.toNat)
      (fun failure pool => (failure = .io .poolFull ∨ failure = .panic .overflow) ∧
        Upholds hides relevant holds base pool) := by
  have free : Ends (Upholds hides relevant holds base) findFreeFrame (fun frameId pool =>
      Carries base (fun _ => False) hides relevant holds pool ∧ (pool.frames frameId).page = none)
      (fun failure pool => (failure = .io .poolFull ∨ failure = .panic .overflow) ∧
        Upholds hides relevant holds base pool) :=
    (shows_findFreeFrame unhashed known).imp (fun _ upholds => upholds.carries)
      (fun _ _ freed => freed) fun _ _ full =>
        ⟨.inl full.1, full.2.lacks.retains, full.2.versions⟩
  refine free.bind fun frameId => ?_
  rintro pool ⟨⟨⟨retains, -⟩, versions⟩, empty⟩
  have tabled := retains.tabled
  simp only [onDisk, DiskManager.allocatePage, bind_apply]
  split_ifs with room
  · have next := Counter.toNat_succ room
    let counter : BufferPool poolSize :=
      { pool with disk := { pool.disk with numPages := pool.disk.numPages + 1 } }
    have counted : Retains base counter := by
      refine ⟨⟨tabled.table, tabled.frame, fun held => ?_, ?_, tabled.clean, tabled.faultless⟩,
        retains.visible, retains.onFile, ?_⟩
      · have bound := tabled.allocated held
        dsimp only [counter]
        omega
      · have bound := tabled.fileLength
        dsimp only [counter]
        omega
      · have bound := retains.numPages
        dsimp only [counter]
        omega
    have unseen : pool.pageTable.lookup (Page.new pool.disk.numPages).id = none := by
      by_contra resident
      have visible : pool.Visible pool.disk.numPages :=
        .inl (Option.isSome_iff_ne_none.mpr resident)
      exact lt_irrefl _ (tabled.lt_of_visible visible)
    have irrelevant : ¬relevant pool.disk.numPages := fun isRelevant =>
      lt_irrefl _ (tabled.lt_of_visible ((known _ isRelevant).retains retains).visible)
    have given : (Page.new pool.disk.numPages).id.toNat < counter.disk.numPages.toNat := by
      dsimp only [counter, Page.new]
      omega
    have shown : Shows hides relevant holds counter := versions.of_eq rfl rfl
    refine ⟨⟨(counted.install empty unseen given (by simp)).1,
      shown.install empty fun isRelevant => absurd isRelevant irrelevant⟩,
      AList.lookup_insert _, ?_, ?_, next, retains.numPages⟩
    · simp [install]
    · simp [install]
  · exact ⟨.inr rfl, retains, versions⟩

omit unhashed known in
/-- After a flush nothing hides what is on file. -/
theorem bare_flushPage (pageId : UInt32) :
    Ends Tabled (flushPage pageId : Fallible Failure (BufferPool poolSize) Unit)
      (fun _ pool => pool.Bare pageId) (fun _ _ => False) := by
  refine ends_get_bind fun pool tabled => ?_
  have alone {frameId other : Fin poolSize} {page : Page}
      (resident : pool.pageTable.lookup pageId = some frameId)
      (held : (pool.frames other).page = some page) (isPage : page.id = pageId) :
      other = frameId := by
    have found := tabled.frame held
    rw [isPage, resident] at found
    exact (Option.some.inj found).symm
  cases resident : pool.pageTable.lookup pageId with
  | none =>
      refine ends_pure fun _ same => same ▸ ?_
      intro other page held isPage
      have found := tabled.frame held
      rw [isPage, resident] at found
      simp at found
  | some frameId =>
      rcases tabled.table resident with ⟨page, held, rfl⟩
      dsimp only
      split_ifs with dirty
      · have write : Ends (fun other => other = pool) (writeFrame frameId)
            (fun _ written => written = pool.written frameId page) (fun _ _ => False) := by
          rintro _ rfl
          rw [writeFrame_eq tabled.faultless held]
        refine write.bind fun _ => ends_modify fun _ same => same ▸ ?_
        intro other found inside isPage
        by_cases here : other = frameId
        · rw [here, setFrame_frames_self]
        · rw [setFrame_frames_of_ne here, written, setFrame_frames_of_ne here] at inside
          exact absurd (alone resident inside isPage) here
      · refine ends_pure fun _ same => same ▸ ?_
        intro other found inside isPage
        rw [alone resident inside isPage]
        simpa using dirty

/-- A page that was not lost is on file when it is flushed, and nothing hides it there. -/
theorem shows_flushPage (pageId : UInt32) :
    Ends (Upholds hides relevant holds base) (flushPage pageId)
      (fun _ pool => Upholds hides relevant holds base pool ∧
        (base.Visible pageId → pool.OnFile pageId) ∧ pool.Bare pageId)
      (fun _ _ => False) := by
  intro pool upholds
  have ended := retains_flushPage pageId pool upholds.retains
  have bare := bare_flushPage pageId pool upholds.retains.tabled
  have shown : Ends (fun other => other = pool) (flushPage pageId)
      (fun _ pool => Shows hides relevant holds pool) (fun _ _ => False) := by
    refine ends_get_bind fun pool same => ?_
    subst same
    cases resident : pool.pageTable.lookup pageId with
    | none => exact ends_pure fun _ same => same ▸ upholds.versions
    | some frameId =>
        dsimp only
        split_ifs
        · have carries := upholds.carries
          have write : Ends (fun other => other = pool) (writeFrame frameId)
              (fun _ pool => Carries base (fun _ => False) hides relevant holds pool ∧
                Spilled frameId pool ∧ Backed relevant holds frameId pool) (fun _ _ => False) :=
            (shows_writeFrame unhashed known frameId).imp (fun _ same => same ▸ carries)
              (fun _ _ written => written) fun _ _ impossible => impossible
          refine write.bind fun _ => ends_modify fun pool written => ?_
          rcases written with ⟨⟨⟨retains, -⟩, versions⟩, -, backed⟩
          refine ⟨?_, ?_⟩
          · intro other page held
            by_cases same : other = frameId
            · subst same
              rw [setFrame_frames_self] at held
              exact versions.frame held
            · rw [setFrame_frames_of_ne same] at held
              exact versions.frame held
          · intro other data isRelevant bare present
            by_cases here : ∃ page, (pool.frames frameId).page = some page ∧ page.id = other
            · rcases here with ⟨page, held, rfl⟩
              exact backed page held isRelevant data present
            · refine versions.file isRelevant ?_ present
              intro hidden found page held isPage
              have apart : found ≠ frameId := by
                rintro rfl
                exact here ⟨page, held, isPage⟩
              have clean := bare hidden found page (by rwa [setFrame_frames_of_ne apart]) isPage
              rwa [setFrame_frames_of_ne apart] at clean
        · exact ends_pure fun _ same => same ▸ upholds.versions
  have versions := shown pool rfl
  generalize flushPage pageId pool = outcome at ended bare versions ⊢
  rcases outcome with ⟨failure | _, pool'⟩
  · exact ended
  · exact ⟨⟨ended.1, versions⟩, ended.2, bare⟩

end Client

end VenomDb.BufferPool
