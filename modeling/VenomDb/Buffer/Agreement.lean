import VenomDb.Buffer.DiskErrors

/-!
# Page table and frames

The table maps a page id to a frame exactly when the frame holds the page, through any calls
and any refused reads and writes. Ids are fresh because the counter is past every page that is
in a frame or could be read, which the pool owes to the length of the file it was opened on:
`DiskManager::new` keeps the low 32 bits of the number of pages only.
-/

namespace VenomDb

namespace BufferPool

open Fallible

variable {poolSize : ℕ} {pool pool' : BufferPool poolSize} {frameId : Fin poolSize}
  {pageId : UInt32}

/-- The table maps a page id to a frame exactly when the frame holds the page. -/
def Agrees (pool : BufferPool poolSize) : Prop :=
  ∀ pageId frameId, pool.pageTable.lookup pageId = some frameId ↔
    ∃ page, (pool.frames frameId).page = some page ∧ page.id = pageId

/-- Table and frames agree, and the counter is past every page in a frame or in the file. -/
structure Accounted (pool : BufferPool poolSize) : Prop where
  agrees : pool.Agrees
  allocated : ∀ frameId page, (pool.frames frameId).page = some page →
    page.id.toNat < pool.disk.numPages.toNat
  fileLength : pool.disk.file.length ≤ pool.disk.numPages.toNat

section Steps

theorem accounted_new {disk : DiskManager} (fileLength : disk.file.length ≤ disk.numPages.toNat) :
    Accounted (new disk : BufferPool poolSize) := by
  refine ⟨?_, ?_, fileLength⟩
  · intro pageId frameId
    simp [new, Frame.new]
  · intro frameId page held
    simp [new, Frame.new] at held

/-- Only which pages the frames hold matters. -/
theorem Accounted.congr (accounted : pool.Accounted)
    (pageIds : ∀ frameId,
      (pool'.frames frameId).page.map Page.id = (pool.frames frameId).page.map Page.id)
    (pageTable : pool'.pageTable = pool.pageTable)
    (numPages : pool'.disk.numPages = pool.disk.numPages)
    (fileLength : pool'.disk.file.length ≤ pool.disk.numPages.toNat) : pool'.Accounted := by
  refine ⟨?_, ?_, by rwa [numPages]⟩
  · intro pageId frameId
    rw [pageTable, accounted.agrees, ← Option.map_eq_some_iff, ← Option.map_eq_some_iff, pageIds]
  · intro frameId page held
    have ids := pageIds frameId
    rw [held] at ids
    rcases Option.map_eq_some_iff.mp ids.symm with ⟨old, held', sameId⟩
    rw [numPages, ← sameId]
    exact accounted.allocated frameId old held'

theorem SameHolding.accounted (same : SameHolding pool pool') (accounted : pool.Accounted) :
    pool'.Accounted :=
  accounted.congr same.pageIds same.pageTable same.numPages
    (same.file _ accounted.fileLength accounted.allocated)

/-- The page of a frame is given up, from the frame and from the table. -/
theorem Accounted.cleared (accounted : pool.Accounted) {page : Page}
    (held : (pool.frames frameId).page = some page) (order : List (Fin poolSize)) :
    (pool.cleared frameId page.id order).Accounted := by
  have here : ((pool.cleared frameId page.id order).frames frameId).page = none := by
    simp [BufferPool.cleared, Frame.new]
  have elsewhere {other : Fin poolSize} (apart : other ≠ frameId) :
      (pool.cleared frameId page.id order).frames other = pool.frames other :=
    setFrame_frames_of_ne apart _
  refine ⟨?_, ?_, accounted.fileLength⟩
  · intro pageId other
    have resident := (accounted.agrees page.id frameId).mpr ⟨page, held, rfl⟩
    by_cases given : pageId = page.id
    · have gone : (pool.cleared frameId page.id order).pageTable.lookup pageId = none := by
        rw [given]
        exact AList.lookup_erase _ _
      rw [gone]
      simp only [reduceCtorEq, false_iff, not_exists, not_and]
      intro found held' sameId
      by_cases same : other = frameId
      · rw [same, here] at held'
        simp at held'
      · rw [elsewhere same] at held'
        have twice := (accounted.agrees page.id other).mpr ⟨found, held', sameId.trans given⟩
        exact same (Option.some.inj (twice.symm.trans resident))
    · have kept : (pool.cleared frameId page.id order).pageTable.lookup pageId =
          pool.pageTable.lookup pageId := AList.lookup_erase_ne given
      rw [kept, accounted.agrees]
      by_cases same : other = frameId
      · rw [same, here, held]
        simp [Ne.symm given]
      · rw [elsewhere same]
  · intro other found held'
    by_cases same : other = frameId
    · rw [same, here] at held'
      simp at held'
    · rw [elsewhere same] at held'
      exact accounted.allocated other found held'

/-- A page that was nowhere is put into an empty frame. -/
theorem Accounted.install (accounted : pool.Accounted) {page : Page} {isDirty : Bool}
    (empty : (pool.frames frameId).page = none)
    (missing : pool.pageTable.lookup page.id = none)
    (allocated : page.id.toNat < pool.disk.numPages.toNat) :
    (pool.install frameId page isDirty).Accounted := by
  have here : ((pool.install frameId page isDirty).frames frameId).page = some page := by
    simp [BufferPool.install]
  have elsewhere {other : Fin poolSize} (apart : other ≠ frameId) :
      (pool.install frameId page isDirty).frames other = pool.frames other :=
    Function.update_of_ne apart _ _
  refine ⟨?_, ?_, accounted.fileLength⟩
  · intro pageId other
    by_cases isNew : pageId = page.id
    · have resident : (pool.install frameId page isDirty).pageTable.lookup pageId =
          some frameId := by
        rw [isNew]
        exact AList.lookup_insert _
      rw [resident]
      by_cases same : other = frameId
      · simp [same, here, isNew]
      · rw [elsewhere same]
        simp only [Option.some.injEq, Ne.symm same, false_iff]
        intro found
        rw [isNew, ← accounted.agrees, missing] at found
        simp at found
    · have kept : (pool.install frameId page isDirty).pageTable.lookup pageId =
          pool.pageTable.lookup pageId := AList.lookup_insert_ne isNew
      rw [kept, accounted.agrees]
      by_cases same : other = frameId
      · simp [same, here, empty, Ne.symm isNew]
      · rw [elsewhere same]
  · intro other found held
    by_cases same : other = frameId
    · rw [same, here] at held
      cases held
      exact allocated
    · rw [elsewhere same] at held
      exact accounted.allocated other found held

theorem Accounted.unpin (accounted : pool.Accounted) (frameId : Fin poolSize) (isDirty : Bool) :
    (pool.unpin frameId isDirty).Accounted := by
  have changed : (pool.setFrame frameId { pool.frames frameId with
      pinCount := (pool.frames frameId).pinCount - 1
      isDirty := (pool.frames frameId).isDirty || isDirty }).Accounted := by
    refine accounted.congr ?_ rfl rfl accounted.fileLength
    intro other
    by_cases same : other = frameId
    · subst same
      rw [setFrame_frames_self]
    · rw [setFrame_frames_of_ne same]
  rw [BufferPool.unpin]
  dsimp only
  split_ifs
  · exact accounted
  · exact ⟨changed.agrees, changed.allocated, changed.fileLength⟩
  · exact changed

theorem lookup_counter (accounted : pool.Accounted) :
    pool.pageTable.lookup pool.disk.numPages = none := by
  rcases resident : pool.pageTable.lookup pool.disk.numPages with _ | frameId
  · rfl
  · rcases (accounted.agrees _ _).mp resident with ⟨page, held, sameId⟩
    have bound := accounted.allocated frameId page held
    rw [sameId] at bound
    exact absurd bound (lt_irrefl _)

variable [Crc32]

/-- However the search ends, table and frames agree; the frame it finds is empty and no page
has become resident. -/
theorem Accounted.findFreeFrame (accounted : pool.Accounted) :
    (∃ frameId freed, BufferPool.findFreeFrame pool = (.ok frameId, freed) ∧ freed.Accounted ∧
      (freed.frames frameId).page = none ∧ freed.disk.numPages = pool.disk.numPages ∧
      ∀ pageId, pool.pageTable.lookup pageId = none → freed.pageTable.lookup pageId = none) ∨
    ∃ failure freed, BufferPool.findFreeFrame pool = (.error failure, freed) ∧
      freed.Accounted := by
  rcases findFreeFrame_ends pool with ⟨frameId, empty, run⟩ | ⟨-, ⟨-, run⟩ |
    ⟨victimId, order, other, -, same, ⟨-, -, run⟩ | ⟨-, page, held, run⟩⟩⟩
  · exact .inl ⟨frameId, pool, run, accounted, empty, rfl, fun _ missing => missing⟩
  · exact .inr ⟨_, pool, run, accounted⟩
  · have kept := same.accounted accounted
    exact .inr ⟨_, _, run, ⟨kept.agrees, kept.allocated, kept.fileLength⟩⟩
  · rcases same.held' held with ⟨new, held', sameId⟩
    have kept := (same.accounted accounted).cleared held' order
    rw [sameId] at kept
    refine .inl ⟨victimId, _, run, kept, by simp [BufferPool.cleared, Frame.new], same.numPages, ?_⟩
    intro pageId missing
    change (other.pageTable.erase page.id).lookup pageId = none
    by_cases given : pageId = page.id
    · rw [given, AList.lookup_erase]
    · rw [AList.lookup_erase_ne given, same.pageTable, missing]

theorem Accounted.newPage (accounted : pool.Accounted) : (BufferPool.newPage pool).2.Accounted := by
  rcases accounted.findFreeFrame with
    ⟨frameId, freed, run, kept, empty, -, -⟩ | ⟨failure, freed, run, kept⟩
  · rcases newPage_ends pool with ⟨_, _, run', -⟩ | ⟨_, _, run', ran | ⟨room, ran⟩⟩
    · simp [run] at run'
    · cases run.symm.trans run'
      rw [ran]
      exact kept
    · cases run.symm.trans run'
      rw [ran]
      have counter := Counter.toNat_succ room
      have counted : Accounted
          { freed with disk := { freed.disk with numPages := freed.disk.numPages + 1 } } := by
        refine ⟨kept.agrees, ?_, ?_⟩
        · intro other page held
          have bound := kept.allocated other page held
          dsimp only
          omega
        · have bound := kept.fileLength
          dsimp only
          omega
      refine counted.install empty ?_ (by simp [Page.new, counter])
      exact lookup_counter kept
  · rcases newPage_ends pool with ⟨_, _, run', ran⟩ | ⟨_, _, run', -⟩
    · cases run.symm.trans run'
      rw [ran]
      exact kept
    · simp [run] at run'

theorem Accounted.fetchPage (accounted : pool.Accounted) (pageId : UInt32) :
    (BufferPool.fetchPage pageId pool).2.Accounted := by
  cases resident : pool.pageTable.lookup pageId with
  | some frameId =>
      rcases fetchPage_resident_cases resident with ⟨-, run⟩ | ⟨-, run⟩
      swap
      · rwa [run]
      rw [run]
      refine accounted.congr ?_ rfl rfl accounted.fileLength
      intro other
      by_cases same : other = frameId
      · subst same
        simp [hit]
      · simp [hit, setFrame_frames_of_ne same]
  | none =>
      have missed : Accounted { pool with misses := pool.misses + 1 } :=
        ⟨accounted.agrees, accounted.allocated, accounted.fileLength⟩
      rcases missed.findFreeFrame with
        ⟨frameId, freed, run, kept, empty, -, stillMissing⟩ | ⟨failure, freed, run, kept⟩
      · rcases fetchPage_ends resident with
          ⟨_, _, run', -⟩ | ⟨_, _, run', ⟨_, -, ran⟩ | ⟨data, inside, ran⟩⟩
        · simp [run] at run'
        · cases run.symm.trans run'
          rw [ran]
          exact ⟨kept.agrees, kept.allocated, kept.fileLength⟩
        · cases run.symm.trans run'
          rw [ran]
          have read : Accounted
              { freed with disk := { freed.disk with faults := freed.disk.faults.tail } } :=
            ⟨kept.agrees, kept.allocated, kept.fileLength⟩
          refine read.install empty (stillMissing pageId resident) ?_
          exact lt_of_lt_of_le inside kept.fileLength
      · rcases fetchPage_ends resident with ⟨_, _, run', ran⟩ | ⟨_, _, run', -⟩
        · cases run.symm.trans run'
          rw [ran]
          exact kept
        · simp [run] at run'

/-- The id of a new page was in no frame. -/
theorem Accounted.newPage_fresh (accounted : pool.Accounted) {frameId : Fin poolSize}
    (run : (BufferPool.newPage pool).1 = .ok (pageId, frameId)) :
    pool.pageTable.lookup pageId = none := by
  rcases accounted.findFreeFrame with
    ⟨found, freed, search, -, -, numPages, -⟩ | ⟨failure, freed, search, -⟩
  · rcases newPage_ends pool with ⟨_, _, search', -⟩ | ⟨_, _, search', ran | ⟨-, ran⟩⟩
    · simp [search] at search'
    · simp [ran] at run
    · cases search.symm.trans search'
      rw [ran] at run
      obtain ⟨rfl, -⟩ : freed.disk.numPages = pageId ∧ found = frameId := by simpa using run
      rw [numPages]
      exact lookup_counter accounted
  · rcases newPage_ends pool with ⟨_, _, -, ran⟩ | ⟨_, _, search', -⟩
    · simp [ran] at run
    · simp [search] at search'

end Steps

section Runs

variable [Crc32]

/-- A caller does not change the id of the page it is given. -/
def Call.KeepsId (pool : BufferPool poolSize) : Call poolSize → Prop
  | .getPageMut frameId page => ∀ old, pool.getPage frameId = some old → page.id = old.id
  | _ => True

theorem Accounted.apply (accounted : pool.Accounted) {call : Call poolSize}
    (keepsId : call.KeepsId pool) : (call.apply pool).Accounted := by
  cases call with
  | newPage => exact accounted.newPage
  | fetchPage pageId => exact accounted.fetchPage pageId
  | getPageMut frameId page =>
      rw [Call.apply]
      rcases held : pool.getPage frameId with _ | old
      · exact accounted
      · refine accounted.congr ?_ rfl rfl accounted.fileLength
        intro other
        by_cases same : other = frameId
        · subst same
          rw [getPage] at held
          simp [setPage, held, keepsId old held]
        · simp [setPage, setFrame_frames_of_ne same]
  | unpin frameId isDirty => exact accounted.unpin frameId isDirty
  | flushPage pageId => exact (sameHolding_flushPage pageId pool).accounted accounted
  | flushAll order => exact (sameHolding_flushAll order pool).accounted accounted

/-- No caller changes the id of a page. -/
def IdsKept (disk : DiskManager) (calls : List (Call poolSize)) : Prop :=
  ∀ before call, before ++ [call] <+: calls → call.KeepsId (after disk before)

/-- Table and frames agree, no page is in two frames, and a new page has an id that was in none. -/
structure TableExact (pool : BufferPool poolSize) : Prop where
  agrees : pool.Agrees
  once : ∀ left right page page', (pool.frames left).page = some page →
    (pool.frames right).page = some page' → page.id = page'.id → left = right
  fresh : ∀ pageId frameId, (newPage pool).1 = .ok (pageId, frameId) →
    pool.pageTable.lookup pageId = none

theorem Accounted.tableExact (accounted : pool.Accounted) : pool.TableExact := by
  refine ⟨accounted.agrees, ?_, ?_⟩
  · intro left right page page' held held' same
    have first := (accounted.agrees page.id left).mpr ⟨page, held, rfl⟩
    have second := (accounted.agrees page.id right).mpr ⟨page', held', same.symm⟩
    exact Option.some.inj (first.symm.trans second)
  · intro pageId frameId run
    exact accounted.newPage_fresh run

/-- On a data file of fewer than `2 ^ 32` pages, table and frames agree after any calls, whatever
reads and writes are refused. -/
theorem tableExact_after {file : List PageData} (short : file.length < 2 ^ 32) (faults : List Bool)
    (calls : List (Call poolSize)) (idsKept : IdsKept (DiskManager.new file faults) calls)
    {before : List (Call poolSize)} (made : before <+: calls) :
    (after (DiskManager.new file faults) before).TableExact := by
  have start : (DiskManager.new file faults).numPages.toNat = file.length :=
    UInt32.toNat_ofNat_of_lt' short
  have accounted : (after (DiskManager.new file faults) before).Accounted := by
    induction before using List.reverseRecOn with
    | nil => exact accounted_new (by rw [start]; exact le_refl _)
    | append_singleton before call ih =>
        rw [after_concat]
        exact (ih ((List.prefix_append before [call]).trans made)).apply
          (idsKept before call made)
  exact accounted.tableExact

end Runs

section Reissued

attribute [local instance] Crc32.ieee

/-- A page with a valid checksum. -/
def blank : PageData := PageData.finalizeChecksum Memory.zeroed

variable {file : List PageData}

/-- A fetch of a blank page that is in no frame. -/
theorem fetchPage_blank {pool freed : BufferPool poolSize}
    (missing : pool.pageTable.lookup pageId = none)
    (search : findFreeFrame { pool with misses := pool.misses + 1 } = (.ok frameId, freed))
    (faultless : freed.disk.faults = []) (present : freed.disk.file[pageId.toNat]? = some blank) :
    fetchPage pageId pool =
      (.ok frameId, install frameId (Page.fromBytes pageId blank) false freed) := by
  have valid : blank.verifyChecksum = true := by simp [blank]
  have stored : DiskManager.readPage pageId freed.disk =
      (.ok (Page.fromBytes pageId blank), freed.disk) := by
    simp [DiskManager.readPage, DiskManager.systemCall, bind_apply, faultless, present,
      Page.fromBytes, valid]
  have read : onDisk (DiskManager.readPage pageId) freed =
      (.ok (Page.fromBytes pageId blank), freed) := by
    rw [onDisk, stored]
  rw [fetchPage, get_bind, missing]
  dsimp only
  rw [modify_bind, bind_ok search, bind_ok read]
  rfl

/-- The first page of a file is read into the first frame, whatever the counter says. -/
theorem fetchPage_first (present : file[0]? = some blank) (numPages : UInt32) :
    (after ⟨file, numPages, []⟩ [.fetchPage 0] : BufferPool 2) =
      BufferPool.install 0 (Page.fromBytes 0 blank) false
        { (new ⟨file, numPages, []⟩ : BufferPool 2) with misses := 1 } := by
  change (fetchPage 0 (new ⟨file, numPages, []⟩ : BufferPool 2)).2 = _
  have run : fetchPage 0 (new ⟨file, numPages, []⟩ : BufferPool 2) = (.ok 0, _) :=
    fetchPage_blank rfl rfl rfl present
  rw [run]
  rfl

/-- With the counter at zero the id of the resident page is given out again. -/
theorem newPage_again (present : file[0]? = some blank) :
    (after ⟨file, 0, []⟩ [.fetchPage 0] : BufferPool 2).pageTable.lookup 0 = some 0 ∧
      (newPage (after ⟨file, 0, []⟩ [.fetchPage 0] : BufferPool 2)).1 = .ok (0, 1) := by
  rw [fetchPage_first present]
  exact ⟨rfl, rfl⟩

/-- A data file of 16 TiB: its number of pages is zero in 32 bits. -/
def huge : List PageData := List.replicate (2 ^ 32) blank

theorem new_of_count {numPages : UInt32} (count : UInt32.ofNat file.length = numPages) :
    DiskManager.new file [] = ⟨file, numPages, []⟩ := by
  rw [DiskManager.new, count]

theorem new_huge : DiskManager.new huge [] = ⟨huge, 0, []⟩ := by
  apply new_of_count
  rw [huge, List.length_replicate]
  rfl

theorem getElem?_huge (pageId : UInt32) : huge[pageId.toNat]? = some blank := by
  rw [huge, List.getElem?_replicate, if_pos pageId.toNat_lt]

/-- Two frames on the huge file: page 0 is fetched and then allocated. -/
theorem newPage_reissues :
    (after (DiskManager.new huge []) [.fetchPage 0] : BufferPool 2).pageTable.lookup 0 = some 0 ∧
      (newPage (after (DiskManager.new huge []) [.fetchPage 0] : BufferPool 2)).1 = .ok (0, 1) ∧
      ¬ (after (DiskManager.new huge []) [.fetchPage 0] : BufferPool 2).TableExact := by
  have again := newPage_again (getElem?_huge 0)
  rw [← new_huge] at again
  refine ⟨again.1, again.2, ?_⟩
  intro exact
  have fresh := exact.fresh 0 1 again.2
  rw [again.1] at fresh
  simp at fresh

/-- Two pages are allocated, the first one is unpinned, and its write-back is refused. -/
theorem tableExact_after_refused :
    (after (DiskManager.new [] [true]) [.newPage, .unpin 0 true, .newPage] :
      BufferPool 1).TableExact := by
  apply tableExact_after (by decide) [true] [.newPage, .unpin 0 true, .newPage]
  · intro before call made
    rcases made with ⟨rest, same⟩
    have member : call ∈ [Call.newPage, .unpin (0 : Fin 1) true, .newPage] := by
      rw [← same]
      simp
    simp only [List.mem_cons, List.not_mem_nil, or_false] at member
    rcases member with rfl | rfl | rfl
    · trivial
    · trivial
    · trivial
  · exact List.prefix_refl _

end Reissued

end BufferPool

end VenomDb
