import VenomDb.Buffer.PageStore
import VenomDb.Engine.Logical

/-!
# The executor refines its logical model

`Reflects` relates an executor to a logical state; `Using` is the same while a
statement holds a frame. There is one lemma for each call that statements make of the
pool and the log. `Advances` collects what no call takes back: a page in the data file
stays there, and a frame can still be handed out and gets no pin, unless it is the one in
use, which gets one.
-/

namespace VenomDb

/-- A page of the log manager and its list of tuples. -/
def Shadows : Option Page → Option SlottedPage → Prop
  | none, none => True
  | some page, some abstract => Represents page.data abstract
  | _, _ => False

theorem Shadows.cases {page : Option Page} {abstract : Option SlottedPage}
    (shadows : Shadows page abstract) :
    (page = none ∧ abstract = none) ∨
    ∃ concrete content, page = some concrete ∧ abstract = some content ∧
      Represents concrete.data content := by
  cases page <;> cases abstract <;> simp_all [Shadows]

namespace Executor

variable [Crc32]

/-- A page is in the data file. -/
def Stored (executor : Executor) (pageId : UInt32) : Prop :=
  (DiskManager.stored executor.bufferPool.disk.file pageId).isSome

/-- A frame can be handed out. -/
abbrev Available (executor : Executor) (frameId : FrameId) : Prop :=
  executor.bufferPool.Available frameId

abbrev pins (executor : Executor) (frameId : FrameId) : ℕ := executor.bufferPool.pins frameId

/-- A frame can be pinned once more. -/
abbrev Pinnable (executor : Executor) (frameId : FrameId) : Prop :=
  executor.bufferPool.Pinnable frameId

/-- Some pin counter is at its last value: a hit on its page panics. -/
def Overpinned (executor : Executor) : Prop := ∃ frameId, ¬executor.Pinnable frameId

/-- What a statement needs of the pool: a frame, and that every page can be pinned. -/
structure Ready (executor : Executor) : Prop where
  available : ∃ frameId, executor.Available frameId
  pinnable : ∀ frameId, executor.Pinnable frameId

omit [Crc32] in
theorem Ready.not_full {executor : Executor} (ready : executor.Ready) :
    ¬∀ frameId, ¬executor.Available frameId :=
  not_forall_not.mpr ready.available

omit [Crc32] in
theorem Ready.not_overpinned {executor : Executor} (ready : executor.Ready) :
    ¬executor.Overpinned :=
  not_exists_not.mpr ready.pinnable

structure Reflects (executor : Executor) (logical : Logical) (inUse : Option FrameId) : Prop where
  core : executor.core = logical.toCore
  coherent : executor.bufferPool.Coherent inUse
  heap : ∀ {pageId page}, logical.heap pageId = some page →
    ∃ data, executor.bufferPool.view pageId = some data ∧ Represents data page
  shadow : ∀ pageId, Shadows (executor.wal.pages.lookup pageId) (logical.shadow pageId)

/-- A statement holds the frame of a page, which it has changed or not. -/
structure Using (executor : Executor) (logical : Logical) (frameId : FrameId) (pageId : UInt32)
    (dirty : Bool) : Prop where
  reflects : Reflects executor logical (if dirty then some frameId else none)
  held : ∃ page, executor.bufferPool.Held frameId page ∧ page.id = pageId

structure Advances (executor executor' : Executor) (held : Option FrameId) : Prop where
  stored : ∀ {pageId}, executor.Stored pageId → executor'.Stored pageId
  available : ∀ {frameId}, held ≠ some frameId → executor.Available frameId →
    executor'.Available frameId
  pins : ∀ {frameId}, held ≠ some frameId → executor'.pins frameId ≤ executor.pins frameId
  pinned : ∀ {frameId}, held = some frameId → executor'.pins frameId ≤ executor.pins frameId + 1

/-- A frame in use is given back. -/
structure Releases (executor executor' : Executor) (frameId : FrameId) : Prop where
  advances : Advances executor executor' none
  available : executor'.Available frameId
  unpinned : executor'.pins frameId < executor.pins frameId

namespace Advances

variable {executor executor' executor'' : Executor} {frameId : FrameId} {held : Option FrameId}

theorem refl (executor : Executor) (held : Option FrameId) : Advances executor executor held :=
  ⟨fun stored => stored, fun _ available => available, fun _ => le_rfl, fun _ => Nat.le_succ _⟩

/-- What is done while a frame is in use. -/
theorem trans (first : Advances executor executor' held)
    (second : Advances executor' executor'' none) : Advances executor executor'' held where
  stored := fun stored => second.stored (first.stored stored)
  available := fun ne available => second.available (by simp) (first.available ne available)
  pins := fun ne => (second.pins (by simp)).trans (first.pins ne)
  pinned := fun same => (second.pins (by simp)).trans (first.pinned same)

/-- What is done before a frame is taken. -/
theorem andThen (first : Advances executor executor' none)
    (second : Advances executor' executor'' held) : Advances executor executor'' held where
  stored := fun stored => second.stored (first.stored stored)
  available := fun ne available => second.available ne (first.available (by simp) available)
  pins := fun ne => (second.pins ne).trans (first.pins (by simp))
  pinned := fun same => (second.pinned same).trans (Nat.succ_le_succ (first.pins (by simp)))

theorem weaken (advances : Advances executor executor' none) (held : Option FrameId) :
    Advances executor executor' held :=
  advances.andThen (.refl _ _)

/-- A frame that is given back was not lost. -/
theorem release (advances : Advances executor executor' (some frameId))
    (releases : Releases executor' executor'' frameId) : Advances executor executor'' none := by
  have whole := advances.trans releases.advances
  refine ⟨whole.stored, fun {other} _ available => ?_, fun {other} _ => ?_, by simp⟩
  · by_cases same : other = frameId
    · exact same ▸ releases.available
    · exact whole.available (by simpa using Ne.symm same) available
  · by_cases same : other = frameId
    · subst same
      exact Nat.le_of_lt_succ (releases.unpinned.trans_le (advances.pinned rfl))
    · exact whole.pins (by simpa using Ne.symm same)

theorem pins_le (advances : Advances executor executor' held) (frameId : FrameId) :
    executor'.pins frameId ≤ executor.pins frameId + 1 := by
  by_cases same : held = some frameId
  · exact advances.pinned same
  · exact (advances.pins same).trans (Nat.le_succ _)

theorem pinnable (advances : Advances executor executor' none)
    (pinnable : executor.Pinnable frameId) : executor'.Pinnable frameId :=
  pinnable.of_le (advances.pins (by simp))

theorem ready (advances : Advances executor executor' none) (ready : executor.Ready) :
    executor'.Ready where
  available := ready.available.imp fun _ available => advances.available (by simp) available
  pinnable := fun frameId => advances.pinnable (ready.pinnable frameId)

/-- A pin counter at its last value was there before. -/
theorem overpinned (advances : Advances executor executor' none)
    (overpinned : executor'.Overpinned) : executor.Overpinned := by
  rcases overpinned with ⟨frameId, saturated⟩
  exact ⟨frameId, fun pinnable => saturated (advances.pinnable pinnable)⟩

theorem of_pool (same : executor'.bufferPool = executor.bufferPool) :
    Advances executor executor' held := by
  refine (show Advances executor executor' none from ?_).weaken held
  exact ⟨fun stored => by rwa [Stored, same], fun _ available => by rwa [Available, same],
    fun _ => by rw [Executor.pins, Executor.pins, same], by simp⟩

end Advances

/-- What is done before a frame is given back. -/
theorem Releases.after {executor executor' executor'' : Executor} {frameId : FrameId}
    (releases : Releases executor' executor'' frameId)
    (advances : Advances executor executor' none) :
    Releases executor executor'' frameId where
  advances := advances.trans releases.advances
  available := releases.available
  unpinned := releases.unpinned.trans_le (advances.pins (by simp))

section Core

variable {executor : Executor} {logical : Logical} {inUse : Option FrameId} {frameId : FrameId}
  {pageId : UInt32} {dirty : Bool}

/-- Recording an I/O call changes nothing the relation looks at. -/
theorem reflects_record : Reflects executor.record logical inUse ↔
    Reflects executor logical inUse :=
  ⟨fun reflects => ⟨reflects.core, reflects.coherent, reflects.heap, reflects.shadow⟩,
    fun reflects => ⟨reflects.core, reflects.coherent, reflects.heap, reflects.shadow⟩⟩

/-- A change outside of the pages. -/
theorem Reflects.of_core {executor' : Executor} {logical' : Logical}
    (reflects : Reflects executor logical inUse) (core : executor'.core = logical'.toCore)
    (pool : executor'.bufferPool = executor.bufferPool)
    (pages : executor'.wal.pages = executor.wal.pages)
    (heap : logical'.heap = logical.heap) (shadow : logical'.shadow = logical.shadow) :
    Reflects executor' logical' inUse where
  core := core
  coherent := pool ▸ reflects.coherent
  heap := by
    rw [heap, pool]
    exact reflects.heap
  shadow := by
    rw [pages, shadow]
    exact reflects.shadow

/-- While a frame is held, calls that leave the pool alone keep holding it. -/
theorem Using.of_reflects {executor' : Executor} {logical' : Logical}
    (inUse : Using executor logical frameId pageId dirty)
    (pool : executor'.bufferPool = executor.bufferPool)
    (reflects : Reflects executor' logical' (if dirty then some frameId else none)) :
    Using executor' logical' frameId pageId dirty :=
  ⟨reflects, by
    rw [pool]
    exact inUse.held⟩

theorem Using.recorded (inUse : Using executor logical frameId pageId dirty) :
    Using executor.record logical frameId pageId dirty :=
  ⟨reflects_record.mpr inUse.reflects, inUse.held⟩

/-- The page in a held frame is the page of the heap. -/
theorem Using.represents {page : SlottedPage} (inUse : Using executor logical frameId pageId dirty)
    (present : logical.heap pageId = some page) :
    ∃ concrete, executor.bufferPool.Held frameId concrete ∧ concrete.id = pageId ∧
      Represents concrete.data page := by
  rcases inUse.held with ⟨concrete, held, rfl⟩
  rcases inUse.reflects.heap present with ⟨data, seen, represents⟩
  rw [BufferPool.view_of_frame inUse.reflects.coherent held.page, Option.some.injEq] at seen
  subst seen
  exact ⟨concrete, held, rfl, represents.congr_cleared (by simp)⟩

end Core

section Pool

variable {executor : Executor} {logical : Logical} {frameId : FrameId} {pageId : UInt32}
  {dirty : Bool} {page : SlottedPage}

/-- The four ends of a fetch: the page is held, no frame is available, there is no such page, or
the pin counter of its frame is at its end. -/
theorem Reflects.onPool_fetchPage (reflects : Reflects executor logical none) (pageId : UInt32) :
    (∃ frameId executor', onPool (BufferPool.fetchPage pageId) executor = (.ok frameId, executor') ∧
      Using executor' logical frameId pageId false ∧ Advances executor executor' (some frameId)) ∨
    (∃ executor', onPool (BufferPool.fetchPage pageId) executor =
        (.error (.io .poolFull), executor') ∧
      Reflects executor' logical none ∧ Advances executor executor' none ∧
      ∀ frameId, ¬executor.Available frameId) ∨
    (executor.bufferPool.view pageId = none ∧ ∃ error executor',
      onPool (BufferPool.fetchPage pageId) executor = (.error (.io error), executor') ∧
      Reflects executor' logical none ∧ Advances executor executor' none) ∨
    (onPool (BufferPool.fetchPage pageId) executor = (.error (.panic .overflow), executor.record) ∧
      executor.Overpinned) := by
  have sameCore {pool : BufferPool frameCount}
      (numPages : pool.disk.numPages = executor.bufferPool.disk.numPages) :
      ({ executor with bufferPool := pool }.record).core = logical.toCore := by
    rw [← reflects.core]
    simp [Executor.core, record, numPages]
  have sameHeap {pool : BufferPool frameCount}
      (continues : BufferPool.Continues executor.bufferPool pool) {pageId : UInt32}
      {page : SlottedPage} (present : logical.heap pageId = some page) :
      ∃ data, pool.view pageId = some data ∧ Represents data page := by
    rcases reflects.heap present with ⟨data, seen, represents⟩
    exact ⟨data, continues.view seen, represents⟩
  rcases BufferPool.fetchPage_cases reflects.coherent pageId with
    ⟨frameId, pool, found, run, fetched⟩ | ⟨run, full⟩ |
    ⟨unseen, error, pool, run, coherent, continues, numPages, available, pins⟩ |
    ⟨run, frameId, -, saturated⟩
  · left
    refine ⟨frameId, { executor with bufferPool := pool }.record, ?_, ⟨⟨?_, ?_, ?_, ?_⟩, ?_⟩, ?_⟩
    · simp [onPool, run]
    · exact sameCore fetched.numPages
    · exact fetched.coherent
    · exact sameHeap fetched.continues
    · exact reflects.shadow
    · rcases fetched.held with ⟨concrete, held, id, -⟩
      exact ⟨concrete, held, id⟩
    · refine ⟨fun stored => fetched.continues.stored stored,
        fun ne available => fetched.available (by simpa using Ne.symm ne) available,
        fun ne => fetched.pins (by simpa using Ne.symm ne), ?_⟩
      rintro other ⟨⟩
      exact fetched.pinned
  · right; left
    let pool := { executor.bufferPool with misses := executor.bufferPool.misses + 1 }
    refine ⟨{ executor with bufferPool := pool }.record, ?_, ⟨sameCore rfl, ?_, ?_, ?_⟩, ?_, full⟩
    · simp [onPool, run, pool]
    · exact reflects.coherent.countMiss
    · exact fun otherPresent => reflects.heap otherPresent
    · exact reflects.shadow
    · exact ⟨fun stored => stored, fun _ available => available, fun _ => le_rfl, by simp⟩
  · right; right; left
    refine ⟨unseen, error, { executor with bufferPool := pool }.record, by simp [onPool, run],
      ⟨sameCore numPages, coherent, sameHeap continues, reflects.shadow⟩, ?_⟩
    exact ⟨fun stored => continues.stored stored, fun _ => available _, fun _ => pins _, by simp⟩
  · exact .inr (.inr (.inr ⟨by simp [onPool, run], frameId, saturated⟩))

/-- The same for a page of the heap, with the error wrapped in a message. -/
theorem Reflects.fetchPage (reflects : Reflects executor logical none)
    (present : logical.heap pageId = some page) :
    (∃ frameId executor', fetchPage pageId executor = (.ok frameId, executor') ∧
      Using executor' logical frameId pageId false ∧ Advances executor executor' (some frameId)) ∨
    (∃ executor', Executor.fetchPage pageId executor =
        (.error (.sql (.fetchPage pageId .poolFull)), executor') ∧
      Reflects executor' logical none ∧ Advances executor executor' none ∧
      ∀ frameId, ¬executor.Available frameId) ∨
    (Executor.fetchPage pageId executor = (.error (.panic .overflow), executor.record) ∧
      executor.Overpinned) := by
  rcases reflects.heap present with ⟨data, seen, -⟩
  rcases reflects.onPool_fetchPage pageId with
    ⟨frameId, executor', run, rest⟩ | ⟨executor', run, rest⟩ | ⟨unseen, -⟩ | ⟨run, overpinned⟩
  · exact .inl ⟨frameId, executor', Fallible.mapError_ok run, rest⟩
  · exact .inr (.inl ⟨executor', Fallible.mapError_error run, rest⟩)
  · rw [unseen] at seen
    simp at seen
  · exact .inr (.inr ⟨Fallible.mapError_error run, overpinned⟩)

/-- Unpinning a frame, as dirty if its page was changed. -/
theorem Using.unpin (inUse : Using executor logical frameId pageId dirty) (flag : Bool)
    (flagged : dirty = true → flag = true) :
    ∃ executor', modifyPool (BufferPool.unpin frameId flag) executor = (.ok (), executor') ∧
      Reflects executor' logical none ∧ Releases executor executor' frameId := by
  rcases inUse.held with ⟨page, held, -⟩
  have coherent := inUse.reflects.coherent
  have continues := BufferPool.continues_unpin flag coherent held
  have unpinned := BufferPool.pins_unpin flag held
  refine ⟨_, rfl, ⟨?_, ?_, ?_, inUse.reflects.shadow⟩,
    ⟨fun stored => continues.stored stored, ?_, ?_,
    by simp⟩, BufferPool.available_unpin held, Nat.lt_of_succ_le unpinned.le⟩
  · rw [← inUse.reflects.core]
    simp [core, record, BufferPool.disk_unpin]
  · apply coherent.unpin held
    cases dirty with
    | false => exact .inl rfl
    | true => exact .inr ⟨rfl, flagged rfl⟩
  · intro other otherPage otherPresent
    rcases inUse.reflects.heap otherPresent with ⟨data, seen, represents⟩
    exact ⟨data, continues.view seen, represents⟩
  · intro other _ available
    by_cases same : other = frameId
    · subst same
      exact BufferPool.available_unpin held
    · exact BufferPool.available_unpin_of_ne held same available
  · intro other _
    by_cases same : other = frameId
    · subst same
      exact Nat.le_of_succ_le unpinned.le
    · exact (BufferPool.pins_unpin_of_ne same).le

theorem Using.getTuple (inUse : Using executor logical frameId pageId dirty)
    (present : logical.heap pageId = some page) (slotId : UInt16) :
    getTuple frameId slotId executor = (.ok (logical.heap.get ⟨pageId, slotId⟩), executor) := by
  rcases inUse.represents present with ⟨concrete, held, -, represents⟩
  simp [Executor.getTuple, BufferPool.getPage, held.page, represents.getTuple_eq, Heap.get, present]

theorem Using.slots (inUse : Using executor logical frameId pageId dirty)
    (present : logical.heap pageId = some page) :
    slots frameId executor = (.ok (logical.heap.slots pageId), executor) := by
  rcases inUse.represents present with ⟨concrete, held, -, represents⟩
  simp [Executor.slots, BufferPool.getPage, held.page, represents.numSlots_eq, Heap.slots, present]

/-- The page of a held frame is exchanged for another version of it. -/
theorem Using.setPage {concrete concrete' : Page} {page' : SlottedPage}
    (inUse : Using executor logical frameId pageId dirty)
    (held : executor.bufferPool.Held frameId concrete) (id : concrete.id = pageId)
    (sameId : concrete'.id = concrete.id) (represents' : Represents concrete'.data page') :
    let executor' :=
      record { executor with bufferPool := executor.bufferPool.setPage frameId concrete' }
    Using executor' { logical with heap := Function.update logical.heap pageId (some page') }
      frameId
        pageId true ∧
      Advances executor executor' none := by
  intro executor'
  have coherent := inUse.reflects.coherent
  have alone : (if dirty then some frameId else none) = none ∨
      (if dirty then some frameId else none) = some frameId := by
    cases dirty <;> simp
  have coherent' := coherent.setPage alone held.page sameId
  have held' := held.setPage concrete'
  refine ⟨⟨⟨?_, coherent', ?_, inUse.reflects.shadow⟩, ⟨concrete', held', by rw [sameId, id]⟩⟩, ?_⟩
  · rw [show ({ logical with heap := Function.update logical.heap pageId (some page') } :
      Logical).toCore = logical.toCore from rfl, ← inUse.reflects.core]
    rfl
  · intro other otherPage otherPresent
    by_cases same : other = pageId
    · subst same
      obtain rfl : page' = otherPage := by simpa using otherPresent
      refine ⟨concrete'.data.cleared, ?_, represents'.congr_cleared (by simp)⟩
      have seen := BufferPool.view_of_frame coherent' held'.page
      rwa [sameId, id] at seen
    · have old : logical.heap other = some otherPage := by simpa [same] using otherPresent
      rcases inUse.reflects.heap old with ⟨data, seen, oldRepresents⟩
      refine ⟨data, ?_, oldRepresents⟩
      rw [← seen]
      exact BufferPool.view_setPage_of_ne coherent held.page (by rwa [id])
  · exact ⟨fun stored => stored, fun _ available =>
      BufferPool.available_setPage held.page available,
      fun _ => BufferPool.pins_setPage.le, by simp⟩

/-- A page operation on the page of a held frame. -/
theorem Using.onPage {α : Type} {result : α} {page' : SlottedPage}
    {operation : Page → Except Failure (α × Page)}
    (inUse : Using executor logical frameId pageId dirty) (default : α)
    (present : logical.heap pageId = some page)
    (works : ∀ concrete, Represents concrete.data page → ∃ concrete', concrete'.id = concrete.id ∧
      Represents concrete'.data page' ∧ operation concrete = .ok (result, concrete')) :
    ∃ executor', onPage frameId default operation executor = (.ok result, executor') ∧
      Using executor' { logical with heap := Function.update logical.heap pageId (some page') }
        frameId pageId true ∧ Advances executor executor' none := by
  rcases inUse.represents present with ⟨concrete, held, id, represents⟩
  rcases works concrete represents with ⟨concrete', sameId, represents', run⟩
  refine ⟨_, ?_, inUse.setPage held id sameId represents'⟩
  simp [Executor.onPage, BufferPool.getPage, held.page, run, modifyPool, Fallible.bind_apply]

/-- A page operation that refuses and leaves the page alone. -/
theorem Using.onPage_refused {α : Type} {result : α}
    {operation : Page → Except Failure (α × Page)}
    (inUse : Using executor logical frameId pageId dirty) (default : α)
    (present : logical.heap pageId = some page)
    (refuses : ∀ concrete, Represents concrete.data page →
      operation concrete = .ok (result, concrete)) :
    Executor.onPage frameId default operation executor = (.ok result, record executor) := by
  rcases inUse.represents present with ⟨concrete, held, -, represents⟩
  have same : executor.bufferPool.setPage frameId concrete = executor.bufferPool := by
    simp [BufferPool.setPage, BufferPool.setFrame, ← held.page]
  simp [Executor.onPage, BufferPool.getPage, held.page, refuses concrete represents, modifyPool,
    Fallible.bind_apply, same]

/-- Nothing is lost by looking at fewer pages. -/
theorem Reflects.restrict {inUse : Option FrameId} {heap : Heap}
    (reflects : Reflects executor { logical with heap := heap } inUse)
    (fewer : ∀ {pageId page}, logical.heap pageId = some page → heap pageId = some page) :
    Reflects executor logical inUse :=
  ⟨reflects.core, reflects.coherent, fun present => reflects.heap (fewer present), reflects.shadow⟩

section Fields

variable {inUse : Option FrameId} (reflects : Reflects executor logical inUse)
include reflects

theorem Reflects.catalog_eq : executor.catalog = logical.catalog :=
    congrArg Core.catalog reflects.core

theorem Reflects.tablePages_eq : executor.tablePages = logical.tablePages :=
  congrArg Core.tablePages reflects.core

theorem Reflects.indexManager_eq : executor.indexManager = logical.indexManager :=
  congrArg Core.indexManager reflects.core

theorem Reflects.catalogFile_eq : executor.catalogFile = logical.catalogFile :=
  congrArg Core.catalogFile reflects.core

theorem Reflects.pageFiles_eq : executor.pageFiles = logical.pageFiles :=
  congrArg Core.pageFiles reflects.core

theorem Reflects.log_eq : executor.wal.log = logical.log := congrArg Core.log reflects.core

theorem Reflects.nextTxnId_eq : executor.wal.nextTxnId = logical.nextTxnId :=
  congrArg Core.nextTxnId reflects.core

theorem Reflects.numPages_eq : executor.bufferPool.disk.numPages.toNat = logical.numPages :=
  congrArg Core.numPages reflects.core

end Fields

theorem Reflects.numPages_lt {inUse : Option FrameId} (reflects : Reflects executor logical inUse) :
    logical.numPages < 2 ^ 32 := by
  rw [← reflects.numPages_eq]
  exact UInt32.toNat_lt _

theorem Reflects.toNat_nextPageId {inUse : Option FrameId}
    (reflects : Reflects executor logical inUse) :
    logical.nextPageId.toNat = logical.numPages :=
  UInt32.toNat_ofNat_of_lt' (by simpa [UInt32.size] using reflects.numPages_lt)

/-- Pages of the heap have allocated ids. -/
theorem Reflects.heap_lt {inUse : Option FrameId} (reflects : Reflects executor logical inUse)
    (present : logical.heap pageId = some page) : pageId.toNat < logical.numPages := by
  rcases reflects.heap present with ⟨data, seen, -⟩
  rw [← reflects.numPages_eq]
  exact reflects.coherent.view_lt seen

theorem Reflects.heap_nextPageId {inUse : Option FrameId}
    (reflects : Reflects executor logical inUse) : logical.heap logical.nextPageId = none := by
  by_contra present
  rcases Option.ne_none_iff_exists'.mp present with ⟨page, found⟩
  have lt := reflects.heap_lt found
  rw [reflects.toNat_nextPageId] at lt
  omega

theorem Reflects.newPage (reflects : Reflects executor logical none) :
    let run := Fallible.mapError (Failure.wrapIo .newPage) (onPool BufferPool.newPage) executor
    (∃ frameId executor', run = (.ok (logical.nextPageId, frameId), executor') ∧
      Using executor' logical.takePage frameId logical.nextPageId false ∧
      Advances executor executor' (some frameId)) ∨
    (∃ executor', run = (.error (.sql (.newPage .poolFull)), executor') ∧
      Reflects executor' logical none ∧ Advances executor executor' none ∧
      ∀ frameId, ¬executor.Available frameId) ∨
    ∃ executor', run = (.error (.panic .overflow), executor') ∧ ¬logical.numPages + 1 < 2 ^ 32 := by
  have numPages : executor.bufferPool.disk.numPages.toNat = logical.numPages :=
    reflects.numPages_eq
  simp only [Fallible.mapError, onPool]
  rcases BufferPool.newPage_cases reflects.coherent with
    ⟨pageId, frameId, pool, run, allocated⟩ | ⟨run, full⟩ | ⟨pool, run, last⟩
  · left
    obtain rfl : pageId = logical.nextPageId := by
      rw [allocated.fresh, Logical.nextPageId, ← numPages, UInt32.ofNat_toNat]
    refine ⟨frameId, { executor with bufferPool := pool }.record, by simp [run], ⟨⟨?_, ?_, ?_, ?_⟩,
      ⟨_, allocated.held, rfl⟩⟩, ?_⟩
    · rw [show logical.takePage.toCore =
        { logical.toCore with numPages := logical.toCore.numPages + 1 } from rfl, ← reflects.core]
      simp [Executor.core, record, allocated.numPages]
    · exact allocated.coherent
    · intro other page present
      by_cases same : other = logical.nextPageId
      · subst same
        obtain rfl : SlottedPage.empty = page := by simpa [Logical.takePage] using present
        refine ⟨(Page.new logical.nextPageId).data.cleared, ?_,
          (Represents.new logical.nextPageId).congr_cleared (by simp)⟩
        exact BufferPool.view_of_frame allocated.coherent allocated.held.page
      · have old : logical.heap other = some page := by
          simpa [Logical.takePage, same] using present
        rcases reflects.heap old with ⟨data, seen, represents⟩
        exact ⟨data, allocated.continues.view seen, represents⟩
    · exact reflects.shadow
    · refine ⟨fun stored => allocated.continues.stored stored,
        fun ne available => allocated.available (by simpa using Ne.symm ne) available,
        fun ne => allocated.pins (by simpa using Ne.symm ne), ?_⟩
      rintro other ⟨⟩
      exact allocated.pinned
  · refine .inr (.inl ⟨executor.record, by simp [run, Failure.wrapIo], reflects_record.mpr reflects,
      .of_pool rfl, full⟩)
  · exact .inr (.inr ⟨{ executor with bufferPool := pool }.record, by simp [run, Failure.wrapIo],
      numPages ▸ last⟩)

/-- Flushing a page: it is in the data file afterwards. -/
theorem Reflects.flushPage (reflects : Reflects executor logical none) (pageId : UInt32) :
    ∃ executor', onPool (BufferPool.flushPage pageId) executor = (.ok (), executor') ∧
      Reflects executor' logical none ∧ Advances executor executor' none ∧
      ((logical.heap pageId).isSome → executor'.Stored pageId) := by
  rcases BufferPool.flushPage_spec reflects.coherent pageId with
    ⟨pool, run, coherent, continues, numPages, available, pins, stored⟩
  have step : Advances executor { executor with bufferPool := pool }.record none :=
    ⟨fun old => continues.stored old, fun _ => available _, fun _ => (pins _).le, by simp⟩
  refine ⟨{ executor with bufferPool := pool }.record, by simp only [onPool, run],
    ⟨?_, coherent, fun otherPresent => ?_, reflects.shadow⟩, step, fun present => ?_⟩
  · rw [← reflects.core]
    simp [Executor.core, record, numPages]
  · rcases reflects.heap otherPresent with ⟨data, seen, represents⟩
    exact ⟨data, continues.view seen, represents⟩
  · rcases Option.isSome_iff_exists.mp present with ⟨page, found⟩
    rcases reflects.heap found with ⟨data, seen, -⟩
    exact stored seen

theorem Reflects.flushPages (reflects : Reflects executor logical none) (pageIds : List UInt32)
    (present : ∀ pageId ∈ pageIds, (logical.heap pageId).isSome) :
    ∃ executor', flushPages pageIds executor = (.ok (), executor') ∧
      Reflects executor' logical none ∧ Advances executor executor' none ∧
      ∀ pageId ∈ pageIds, executor'.Stored pageId := by
  induction pageIds generalizing executor with
  | nil => exact ⟨executor, rfl, reflects, .refl _ _, by simp⟩
  | cons pageId pageIds ih =>
      rcases reflects.flushPage pageId with ⟨flushed, run, reflects', step, stored⟩
      rcases ih reflects' fun other inside => present other (by simp [inside]) with
        ⟨executor', rest, reflects'', advances, storedRest⟩
      refine ⟨executor', ?_, reflects'', step.trans advances, fun other inside => ?_⟩
      · rw [Executor.flushPages, Fallible.forEach, Fallible.bind_ok (Fallible.mapError_ok run)]
        exact rest
      · rcases List.mem_cons.mp inside with rfl | later
        · exact advances.stored (stored (present other (by simp)))
        · exact storedRest other later

end Pool

section Log

variable {executor : Executor} {logical : Logical} {inUse : Option FrameId}

omit [Crc32] in
/-- The page that an insert of the log manager works on. -/
theorem represents_entry {pages : WalPages} {shadow : Heap}
    (shadows : ∀ pageId, Shadows (pages.lookup pageId) (shadow pageId)) (pageId : UInt32) :
    Represents (WalManager.entry pages pageId).data ((shadow pageId).getD .empty) := by
  rw [WalManager.entry]
  rcases (shadows pageId).cases with ⟨found, copy⟩ | ⟨page, abstract, found, copy, represents⟩
  · rw [found, copy]
    exact Represents.new pageId
  · rw [found, copy]
    exact represents

theorem Reflects.entry (reflects : Reflects executor logical inUse) (pageId : UInt32) :
    Represents (WalManager.entry executor.wal.pages pageId).data
      ((logical.shadow pageId).getD .empty) := represents_entry reflects.shadow pageId

omit [Crc32] in
/-- Changing one page of the log manager. -/
theorem shadows_insert {pages : WalPages} {shadow : Heap} {pageId : UInt32} {page : Page}
    {abstract : SlottedPage} (shadows : ∀ pageId, Shadows (pages.lookup pageId) (shadow pageId))
    (represents : Represents page.data abstract) (other : UInt32) :
    Shadows ((pages.insert pageId page).lookup other)
      (Function.update shadow pageId (some abstract) other) := by
  by_cases same : other = pageId
  · subst same
    simpa [Shadows] using represents
  · simpa [AList.lookup_insert_ne same, same] using shadows other

omit [Crc32] in
/-- The core after an append, on both sides. -/
theorem core_append {wal : WalManager} {logical' : Logical} (record : LogRecord)
    (core : ({ executor with wal := wal } : Executor).core = logical'.toCore) :
    ({ executor with wal := wal.append record } : Executor).core =
      (logical'.append record).toCore := by
  rw [show (logical'.append record).toCore = { logical'.toCore with
    log := logical'.toCore.log ++ [record.withLsn logical'.toCore.currentLsn]
    currentLsn := logical'.toCore.currentLsn + 1 } from rfl, ← core]
  rfl

theorem Reflects.beginTxn (reflects : Reflects executor logical inUse)
    (room : logical.nextTxnId.toNat + 1 < 2 ^ 32) :
    ∃ executor', onWal WalManager.beginTxn executor = (.ok logical.nextTxnId, executor') ∧
      Reflects executor' logical.beginTxn inUse ∧ executor'.bufferPool = executor.bufferPool := by
  have nextTxnId : executor.wal.nextTxnId = logical.nextTxnId := reflects.nextTxnId_eq
  let wal := { executor.wal with
    nextTxnId := logical.nextTxnId + 1
    activeTxns := insert logical.nextTxnId executor.wal.activeTxns }
  refine ⟨record { executor with wal := wal.append (.begin 0 logical.nextTxnId) }, ?_, ?_, rfl⟩
  · rw [onWal, WalManager.beginTxn]
    simp only [nextTxnId, if_pos room, wal]
  · rw [reflects_record]
    refine reflects.of_core (core_append _ ?_) rfl rfl rfl rfl
    simp [← reflects.core, Executor.core, wal]

theorem Reflects.beginTxn_panic (reflects : Reflects executor logical inUse)
    (last : ¬logical.nextTxnId.toNat + 1 < 2 ^ 32) :
    onWal WalManager.beginTxn executor = (.error (.panic .overflow), record executor) := by
  have nextTxnId : executor.wal.nextTxnId = logical.nextTxnId := reflects.nextTxnId_eq
  rw [onWal, WalManager.beginTxn]
  simp only [nextTxnId, if_neg last]

/-- Appending a record that does not touch the log manager's pages. -/
theorem Reflects.append (reflects : Reflects executor logical inUse) (entry : LogRecord) :
    Reflects (record { executor with wal := executor.wal.append entry }) (logical.append entry)
      inUse := by
  rw [reflects_record]
  exact reflects.of_core (core_append _ reflects.core) rfl rfl rfl rfl

theorem Reflects.logUpdate (reflects : Reflects executor logical inUse) (txnId pageId : UInt32)
    (slotId : UInt16) (oldData newData : Bytes) :
    ∃ executor', onWal (WalManager.logUpdate txnId pageId slotId oldData newData) executor =
        (.ok (), executor') ∧
      Reflects executor' (logical.logUpdate txnId ⟨pageId, slotId⟩ oldData newData) inUse ∧
      executor'.bufferPool = executor.bufferPool :=
  ⟨_, rfl, reflects.append _, rfl⟩

/-- Closing a transaction also takes it off the active ones, which nothing reads. -/
theorem Reflects.close {wal : WalManager} {entry : LogRecord}
    (reflects : Reflects executor logical inUse)
    (log : wal.log = (executor.wal.append entry).log)
    (lsn : wal.currentLsn = (executor.wal.append entry).currentLsn)
    (txn : wal.nextTxnId = executor.wal.nextTxnId) (pages : wal.pages = executor.wal.pages) :
    Reflects (record { executor with wal := wal }) (logical.append entry) inUse := by
  have appended := reflects_record.mp (reflects.append entry)
  rw [reflects_record]
  refine appended.of_core ?_ rfl pages rfl rfl
  rw [← appended.core]
  simp [Executor.core, log, lsn, txn, WalManager.append]

theorem Reflects.commit (reflects : Reflects executor logical inUse) (txnId : UInt32) :
    ∃ executor', onWal (WalManager.commit txnId) executor = (.ok (), executor') ∧
      Reflects executor' (logical.commit txnId) inUse ∧
      executor'.bufferPool = executor.bufferPool :=
  ⟨_, rfl, reflects.close rfl rfl rfl rfl, rfl⟩

theorem Reflects.abort (reflects : Reflects executor logical inUse) (txnId : UInt32) :
    ∃ executor', onWal (WalManager.abort txnId) executor = (.ok (), executor') ∧
      Reflects executor' (logical.abort txnId) inUse ∧
      executor'.bufferPool = executor.bufferPool :=
  ⟨_, rfl, reflects.close rfl rfl rfl rfl, rfl⟩

theorem Reflects.logInsert (reflects : Reflects executor logical inUse) (txnId pageId : UInt32)
    {data : Bytes} (room : ((logical.shadow pageId).getD .empty).HasRoom data.length)
    (short : data.length < 2 ^ 16) :
    ∃ slotId executor', onWal (WalManager.logInsert txnId pageId data) executor =
        (.ok slotId, executor') ∧
      Reflects executor' (logical.logInsert txnId pageId data) inUse ∧
      executor'.bufferPool = executor.bufferPool := by
  have outcome := (reflects.entry pageId).insertTuple_eq data
  rw [SlottedPage.insertTuple, Nat.mod_eq_of_lt short, if_pos room, if_pos short] at outcome
  rcases outcome with ⟨page, -, represents, run⟩
  let slotId := UInt16.ofNat ((logical.shadow pageId).getD .empty).cells.length
  let wal := { executor.wal with pages := executor.wal.pages.insert pageId page }
  refine ⟨slotId, record { executor with wal := wal.append (.insert 0 txnId pageId slotId data) },
    ?_, ?_, rfl⟩
  · simp [onWal, WalManager.logInsert, Fallible.bind_apply, run, wal, slotId]
  · rw [reflects_record]
    exact ⟨core_append _ reflects.core, reflects.coherent, reflects.heap,
      shadows_insert reflects.shadow represents⟩

/-- A row that fits no page leaves an empty page behind in the log manager. -/
theorem Reflects.logInsert_full (reflects : Reflects executor logical inUse) (txnId pageId : UInt32)
    {data : Bytes}
    (full : ¬((logical.shadow pageId).getD .empty).HasRoom (data.length % 2 ^ 16)) :
    ∃ executor', onWal (WalManager.logInsert txnId pageId data) executor =
        (.error (.io .pageFull), executor') ∧
      Reflects executor' { logical with
        shadow := Function.update logical.shadow pageId
          (some ((logical.shadow pageId).getD .empty)) } inUse ∧
      executor'.bufferPool = executor.bufferPool := by
  have outcome := (reflects.entry pageId).insertTuple_eq data
  rw [SlottedPage.insertTuple, if_neg full] at outcome
  have run : (WalManager.entry executor.wal.pages pageId).insertTuple data =
      .ok (none, WalManager.entry executor.wal.pages pageId) := outcome
  let wal := { executor.wal with
    pages := executor.wal.pages.insert pageId (WalManager.entry executor.wal.pages pageId) }
  refine ⟨record { executor with wal := wal }, ?_, ?_, rfl⟩
  · simp [onWal, WalManager.logInsert, Fallible.bind_apply, run, wal]
  · rw [reflects_record]
    exact ⟨reflects.core, reflects.coherent, reflects.heap,
      shadows_insert reflects.shadow (reflects.entry pageId)⟩

theorem Reflects.logInsert_panic (reflects : Reflects executor logical inUse)
    (txnId pageId : UInt32)
    {data : Bytes}
    (room : ((logical.shadow pageId).getD .empty).HasRoom (data.length % 2 ^ 16))
    (long : ¬data.length < 2 ^ 16) :
    ∃ executor', onWal (WalManager.logInsert txnId pageId data) executor =
        (.error (.panic .outOfBounds), executor') := by
  have outcome := (reflects.entry pageId).insertTuple_eq data
  rw [SlottedPage.insertTuple, if_pos room, if_neg long] at outcome
  have run : (WalManager.entry executor.wal.pages pageId).insertTuple data =
      .error (.panic .outOfBounds) := outcome
  refine ⟨record executor, ?_⟩
  simp [onWal, WalManager.logInsert, Fallible.bind_apply, run]

theorem Reflects.logDelete (reflects : Reflects executor logical inUse) (txnId pageId : UInt32)
    (slotId : UInt16) :
    ∃ deleted executor', onWal (WalManager.logDelete txnId pageId slotId) executor =
        (.ok deleted, executor') ∧
      Reflects executor' (logical.logDelete txnId ⟨pageId, slotId⟩) inUse ∧
      executor'.bufferPool = executor.bufferPool := by
  rcases (reflects.shadow pageId).cases with
    ⟨found, missing⟩ | ⟨page, abstract, found, shadow, represents⟩
  · refine ⟨false,
      record { executor with wal := executor.wal.append (.delete 0 txnId pageId slotId []) },
      by simp [onWal, WalManager.logDelete, found], ?_, rfl⟩
    have unchanged : logical.logDelete txnId ⟨pageId, slotId⟩ =
        logical.append (.delete 0 txnId pageId slotId []) := by
      have same : Function.update logical.shadow pageId none = logical.shadow := by
        rw [← missing, Function.update_eq_self]
      simp [Logical.logDelete, Heap.get, Heap.update, missing, same]
    rw [unchanged]
    exact reflects.append _
  · rcases represents.deleteTuple_eq slotId with ⟨page', -, represents', run, -⟩
    let oldData := (abstract.get slotId.toNat).getD []
    let wal := { executor.wal with pages := executor.wal.pages.insert pageId page' }
    refine ⟨(abstract.deleteTuple slotId.toNat).1,
      record { executor with wal := wal.append (.delete 0 txnId pageId slotId oldData) }, ?_, ?_,
        rfl⟩
    · simp [onWal, WalManager.logDelete, Fallible.bind_apply, found, represents.getTuple_eq, run,
        wal, oldData]
    · have changed : logical.logDelete txnId ⟨pageId, slotId⟩ =
          Logical.append (.delete 0 txnId pageId slotId oldData) { logical with
            shadow := Function.update logical.shadow pageId
              (some (abstract.deleteTuple slotId.toNat).2) } := by
        simp [Logical.logDelete, Heap.get, Heap.update, shadow, oldData]
      rw [changed, reflects_record]
      exact ⟨core_append _ reflects.core, reflects.coherent, reflects.heap,
        shadows_insert reflects.shadow represents'⟩

end Log

end Executor

end VenomDb
