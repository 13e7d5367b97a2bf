import VenomDb.Engine.Placement

/-!
# The log manager's copies keep step

In a session on an empty directory a page and the log manager's copy of it have tuples of the same
lengths, though updates go to the page alone. So an insert is taken by both or by neither, and it
goes to the same slot. This holds of every version of a page that a fetch can show.
-/

namespace VenomDb

/-- A copy of a page and the page have tuples of the same lengths. -/
def PageData.Matches (copy data : PageData) : Prop :=
  ∃ abstract abstract', Represents copy abstract ∧ Represents data abstract' ∧
    abstract'.lengths = abstract.lengths

namespace PageData.Matches

variable {copy copy' page page' : Page}

theorem new (pageId : UInt32) : Matches (Page.new pageId).data (Page.new pageId).data :=
  ⟨.empty, .empty, Represents.new pageId, Represents.new pageId, rfl⟩

/-- `DELETE` and `UPDATE` change no lengths. -/
theorem represents_amended {abstract : SlottedPage} (represents : Represents page.data abstract)
    (amended : page.Amended page') :
    ∃ other, Represents page'.data other ∧ other.lengths = abstract.lengths := by
  rcases amended with ⟨slotId, done, deleted | ⟨newData, updated⟩⟩
  · rcases represents.deleteTuple_eq slotId with ⟨other, -, represents', run, -⟩
    obtain rfl : page' = other := congrArg Prod.snd (Except.ok.inj (deleted.symm.trans run))
    exact ⟨_, represents', SlottedPage.lengths_deleteTuple ..⟩
  · rcases represents.updateTuple_eq slotId newData with ⟨other, -, represents', run, -⟩
    obtain rfl : page' = other := congrArg Prod.snd (Except.ok.inj (updated.symm.trans run))
    exact ⟨_, represents', SlottedPage.lengths_updateTuple ..⟩

theorem amended (matches_ : copy.data.Matches page.data) (amended : page.Amended page') :
    copy.data.Matches page'.data := by
  rcases matches_ with ⟨abstract, abstract', represents, represents', lengths⟩
  rcases represents_amended represents' amended with ⟨other, represents'', same⟩
  exact ⟨abstract, other, represents, represents'', same.trans lengths⟩

theorem amended_copy {data : PageData} (matches_ : copy.data.Matches data)
    (amended : copy.Amended copy') : copy'.data.Matches data := by
  rcases matches_ with ⟨abstract, abstract', represents, represents', lengths⟩
  rcases represents_amended represents amended with ⟨other, represents'', same⟩
  exact ⟨other, abstract', represents'', represents', lengths.trans same.symm⟩

theorem congr_cleared {copy data data' : PageData} (matches_ : copy.Matches data)
    (same : data'.cleared = data.cleared) : copy.Matches data' := by
  rcases matches_ with ⟨abstract, abstract', represents, represents', lengths⟩
  exact ⟨abstract, abstract', represents, represents'.congr_cleared same, lengths⟩

/-- Page and copy answer an insert alike, with the same slot if they take it. -/
theorem insertTuple (matches_ : copy.data.Matches page.data) (tuple : Bytes) :
    (∃ panic, copy.insertTuple tuple = .error (.panic panic) ∧
      page.insertTuple tuple = .error (.panic panic)) ∨
    (copy.insertTuple tuple = .ok (none, copy) ∧ page.insertTuple tuple = .ok (none, page)) ∨
    ∃ slotId copy' page', copy.insertTuple tuple = .ok (some slotId, copy') ∧
      page.insertTuple tuple = .ok (some slotId, page') ∧ page'.id = page.id ∧
      copy'.data.Matches page'.data := by
  rcases matches_ with ⟨abstract, abstract', represents, represents', lengths⟩
  have count := SlottedPage.length_of_lengths lengths
  have room (length : ℕ) : abstract'.HasRoom length ↔ abstract.HasRoom length :=
    ⟨abstract'.hasRoom_of_lengths lengths.symm, abstract.hasRoom_of_lengths lengths⟩
  have logged := represents.insertTuple_eq tuple
  have placed := represents'.insertTuple_eq tuple
  rw [SlottedPage.insertTuple] at logged placed
  simp only [room] at placed
  split_ifs at logged placed
  · rcases logged with ⟨copy', -, pushed, run⟩
    rcases placed with ⟨page', sameId, pushed', run'⟩
    refine .inr (.inr ⟨_, copy', page', run, count ▸ run', sameId, _, _, pushed, pushed', ?_⟩)
    simpa [SlottedPage.lengths, SlottedPage.push] using lengths
  · exact .inl ⟨_, logged, placed⟩
  · exact .inr (.inl ⟨logged, placed⟩)

end PageData.Matches

namespace BufferPool

open Fallible

variable {poolSize : ℕ} [Crc32]

theorem numPages_writePage (count : UInt32) (page : Page) :
    Keeps (fun disk : DiskManager => disk.numPages = count) (DiskManager.writePage page) := by
  intro disk same
  rw [DiskManager.writePage, bind_apply, DiskManager.systemCall]
  rcases disk.faults with _ | ⟨_ | _, faults⟩ <;> exact same

theorem numPages_readPage (count pageId : UInt32) :
    Keeps (fun disk : DiskManager => disk.numPages = count) (DiskManager.readPage pageId) := by
  intro disk same
  have called : (DiskManager.systemCall disk).2.numPages = count := by
    rw [DiskManager.systemCall]
    rcases disk.faults with _ | ⟨_ | _, faults⟩ <;> exact same
  rw [DiskManager.readPage, bind_apply]
  generalize DiskManager.systemCall disk = outcome at called ⊢
  rcases outcome with ⟨failure | _, disk'⟩
  · exact called
  · dsimp only
    rw [get_bind]
    cases disk'.file[pageId.toNat]? with
    | none => exact called
    | some data =>
        dsimp only
        split_ifs
        · exact called
        · exact called

/-- Only `new_page` gives out ids. -/
theorem numPages_fetchPage (pageId : UInt32) (pool : BufferPool poolSize) :
    (fetchPage pageId pool).2.disk.numPages = pool.disk.numPages :=
  onDisk_fetchPage (numPages_writePage _) (numPages_readPage _) pageId pool rfl

theorem numPages_flushPage (pageId : UInt32) (pool : BufferPool poolSize) :
    (flushPage pageId pool).2.disk.numPages = pool.disk.numPages :=
  onDisk_flushPage (numPages_writePage _) pageId pool rfl

/-- A call of `new_page` that fails gives out none. -/
theorem numPages_newPage_of_error {pool pool' : BufferPool poolSize} {failure : Failure}
    (run : newPage pool = (.error failure, pool')) : pool'.disk.numPages = pool.disk.numPages := by
  have ends : Ends (fun other : BufferPool poolSize => other.disk.numPages = pool.disk.numPages)
      newPage (fun _ _ => True) fun _ other => other.disk.numPages = pool.disk.numPages := by
    have frees : Keeps (OnDisk fun disk => disk.numPages = pool.disk.numPages)
        (findFreeFrame : Fallible Failure (BufferPool poolSize) _) :=
      onDisk_findFreeFrame (numPages_writePage _)
    refine frees.ends.bind fun frameId => ?_
    have allocates : Ends (OnDisk fun disk => disk.numPages = pool.disk.numPages)
        (onDisk DiskManager.allocatePage : Fallible Failure (BufferPool poolSize) _)
        (fun _ _ => True) fun _ other => other.disk.numPages = pool.disk.numPages := by
      intro other same
      rw [onDisk, DiskManager.allocatePage]
      split_ifs
      · trivial
      · exact same
    exact allocates.bind fun _ _ _ => trivial
  exact ends.error rfl run

end BufferPool

namespace Executor

open Fallible BufferPool

variable [Crc32] {executor executor' : Executor} {pageId txnId : UInt32} {frameId : FrameId}
  {page page' : Page} {α : Type}

/-- What the log manager's copies say of the pages. -/
def Copied (executor : Executor) (pageId : UInt32) : PageData → Prop :=
  (WalManager.entry executor.wal.pages pageId).data.Matches

/-- An id that was given out. -/
def GivenOut (executor : Executor) (pageId : UInt32) : Prop :=
  pageId.toNat < executor.bufferPool.disk.numPages.toNat

/-- Every page that was given out is there and matches its copy. -/
structure Aligned (executor : Executor) : Prop where
  tabled : executor.bufferPool.Tabled
  visible : ∀ {pageId}, executor.GivenOut pageId → executor.bufferPool.Visible pageId
  versions : Shows True executor.GivenOut executor.Copied executor.bufferPool
  copies : ∀ {pageId page}, executor.wal.pages.lookup pageId = some page →
    executor.GivenOut pageId

omit [Crc32] in
theorem unhashed_copied (executor : Executor) : Unhashed executor.Copied :=
  fun _ _ _ same matches_ => matches_.congr_cleared same

namespace Aligned

/-- The page of a frame matches its copy. -/
theorem frame (aligned : Aligned executor)
    (held : executor.bufferPool.getPage frameId = some page) :
    executor.Copied page.id page.data :=
  aligned.versions.frame held (aligned.tabled.allocated held)

/-- An id that was not given out has no copy. -/
theorem uncopied (aligned : Aligned executor) (fresh : ¬executor.GivenOut pageId) :
    WalManager.entry executor.wal.pages pageId = Page.new pageId := by
  have missing : executor.wal.pages.lookup pageId = none := by
    by_contra found
    rcases Option.ne_none_iff_exists'.mp found with ⟨page, found⟩
    exact fresh (aligned.copies found)
  rw [WalManager.entry, missing, Option.getD_none]

/-- The pool changes, and no id is given out. -/
theorem pool {pool : BufferPool frameCount} (aligned : Aligned executor)
    (upholds : Upholds True executor.GivenOut executor.Copied executor.bufferPool pool)
    (numPages : pool.disk.numPages = executor.bufferPool.disk.numPages) :
    Aligned (Executor.record { executor with bufferPool := pool }) := by
  have same (pageId : UInt32) :
      (Executor.record { executor with bufferPool := pool }).GivenOut pageId ↔
        executor.GivenOut pageId := by
    change pageId.toNat < pool.disk.numPages.toNat ↔ _
    rw [numPages]
    rfl
  refine ⟨upholds.retains.tabled, ?_, ?_, ?_⟩
  · exact fun given => upholds.retains.visible (aligned.visible ((same _).mp given))
  · exact upholds.versions.imp (fun pageId given => (same pageId).mp given)
      fun _ _ _ copied => copied
  · exact fun found => (same _).mpr (aligned.copies found)

theorem upholds (aligned : Aligned executor) :
    Upholds True executor.GivenOut executor.Copied executor.bufferPool executor.bufferPool :=
  ⟨aligned.tabled.retains, aligned.versions⟩

theorem kept (aligned : Aligned executor) (pageId : UInt32) (given : executor.GivenOut pageId) :
    executor.bufferPool.Kept True pageId :=
  .inr ⟨trivial, aligned.visible given⟩

/-- A call of the pool that keeps what holds of all versions, and gives out no id. -/
theorem onPool {call : Fallible Failure (BufferPool frameCount) α} (aligned : Aligned executor)
    (ends : Ends (Upholds True executor.GivenOut executor.Copied executor.bufferPool) call
      (fun _ => Upholds True executor.GivenOut executor.Copied executor.bufferPool)
      (fun _ => Upholds True executor.GivenOut executor.Copied executor.bufferPool))
    (numPages : (call executor.bufferPool).2.disk.numPages =
      executor.bufferPool.disk.numPages) : Aligned (Executor.onPool call executor).2 :=
  aligned.pool (ends.keeps executor.bufferPool aligned.upholds) numPages

theorem setPage (aligned : Aligned executor)
    (held : executor.bufferPool.getPage frameId = some page) (amended : page.Amended page') :
    Aligned (Executor.record
      { executor with bufferPool := executor.bufferPool.setPage frameId page' }) := by
  refine aligned.pool ⟨aligned.tabled.retains.setPage held amended.id, ?_⟩ rfl
  exact aligned.versions.setPage held amended.id fun _ => (aligned.frame held).amended amended

/-- The next id is given out, to an empty page that the file does not have. -/
theorem grow {pool : BufferPool frameCount} (aligned : Aligned executor)
    (upholds : Upholds True executor.GivenOut executor.Copied executor.bufferPool pool)
    (resident : pool.pageTable.lookup executor.bufferPool.disk.numPages = some frameId)
    (content : (pool.frames frameId).page = some (Page.new executor.bufferPool.disk.numPages))
    (dirty : (pool.frames frameId).isDirty = true)
    (next : pool.disk.numPages.toNat = executor.bufferPool.disk.numPages.toNat + 1) :
    Aligned (Executor.record { executor with bufferPool := pool }) := by
  have old {pageId : UInt32} (given : pageId.toNat < pool.disk.numPages.toNat) :
      executor.GivenOut pageId ∨ pageId = executor.bufferPool.disk.numPages := by
    rw [next] at given
    exact (Nat.lt_succ_iff_lt_or_eq.mp given).imp_right UInt32.toNat.inj
  refine ⟨upholds.retains.tabled, ?_, ⟨?_, ?_⟩, ?_⟩
  · intro pageId given
    rcases old given with given | rfl
    · exact upholds.retains.visible (aligned.visible given)
    · exact .inl (Option.isSome_iff_exists.mpr ⟨frameId, resident⟩)
  · intro other page held given
    rcases old given with given | isNew
    · exact upholds.versions.frame held given
    · have found := upholds.retains.tabled.frame held
      rw [isNew, resident, Option.some.injEq] at found
      subst found
      obtain rfl := Option.some.inj (held.symm.trans content)
      have blank := aligned.uncopied (lt_irrefl executor.bufferPool.disk.numPages.toNat)
      change (WalManager.entry executor.wal.pages executor.bufferPool.disk.numPages).data.Matches _
      rw [blank]
      exact .new _
  · intro pageId data given bare present
    rcases old given with given | rfl
    · exact upholds.versions.file given bare present
    · have clean : (pool.frames frameId).isDirty = false := bare trivial frameId _ content rfl
      simp [dirty] at clean
  · intro pageId page found
    have given : executor.GivenOut pageId := aligned.copies found
    exact Nat.lt_of_lt_of_le given upholds.retains.numPages

/-- The log manager changes, and the copies still match. -/
theorem wal {wal : WalManager} (aligned : Aligned executor)
    (matching : ∀ {pageId data}, executor.GivenOut pageId → executor.Copied pageId data →
      (WalManager.entry wal.pages pageId).data.Matches data)
    (copies : ∀ {pageId page}, wal.pages.lookup pageId = some page → executor.GivenOut pageId) :
    Aligned (Executor.record { executor with wal := wal }) :=
  ⟨aligned.tabled, aligned.visible,
    aligned.versions.imp (fun _ given => given) fun _ _ given copied => matching given copied,
    copies⟩

/-- The log changes, and no copy. -/
theorem log {wal : WalManager} (aligned : Aligned executor)
    (same : wal.pages = executor.wal.pages) :
    Aligned (Executor.record { executor with wal := wal }) := by
  refine aligned.wal ?_ ?_
  · intro pageId data _ copied
    rw [same]
    exact copied
  · intro pageId page found
    rw [same] at found
    exact aligned.copies found

/-- A copy is exchanged. -/
theorem copy {wal : WalManager} (aligned : Aligned executor) (given : executor.GivenOut pageId)
    (pages : wal.pages = executor.wal.pages.insert pageId page)
    (matching : ∀ {data}, executor.Copied pageId data → page.data.Matches data) :
    Aligned (Executor.record { executor with wal := wal }) := by
  refine aligned.wal ?_ ?_
  · intro other data _ copied
    rw [pages, WalManager.entry]
    by_cases same : other = pageId
    · subst same
      rw [AList.lookup_insert, Option.getD_some]
      exact matching copied
    · rw [AList.lookup_insert_ne same]
      exact copied
  · intro other found isFound
    rw [pages] at isFound
    by_cases same : other = pageId
    · subst same
      exact given
    · rw [AList.lookup_insert_ne same] at isFound
      exact aligned.copies isFound

/-- A page is exchanged and unpinned as dirty, and its copy is exchanged with it. -/
theorem rewrite {copy : Page} (aligned : Aligned executor)
    (held : executor.bufferPool.Held frameId page) (sameId : page'.id = page.id)
    (pool : executor'.bufferPool = (executor.bufferPool.setPage frameId page').unpin frameId true)
    (pages : executor'.wal.pages = executor.wal.pages.insert page.id copy)
    (matching : copy.data.Matches page'.data) : Aligned executor' := by
  have retains : Retains executor.bufferPool executor'.bufferPool := by
    rw [pool]
    exact (aligned.tabled.retains.setPage held.page sameId).unpin frameId true
  have given (pageId : UInt32) : executor'.GivenOut pageId ↔ executor.GivenOut pageId := by
    rw [GivenOut, GivenOut, pool, BufferPool.disk_unpin]
    rfl
  refine ⟨retains.tabled, fun isGiven => ?_, ?_, ?_⟩
  · exact retains.visible (aligned.visible ((given _).mp isGiven))
  · rw [pool]
    apply aligned.versions.rewritten aligned.tabled held sameId
    · rw [Copied, WalManager.entry, pages, AList.lookup_insert, Option.getD_some]
      exact matching
    · intro other apart isGiven
      refine ⟨(given other).mp isGiven, fun data copied => ?_⟩
      rw [Copied, WalManager.entry, pages, AList.lookup_insert_ne apart]
      exact copied
  · intro other found isFound
    rw [given]
    by_cases same : other = page.id
    · subst same
      exact aligned.tabled.allocated held.page
    · rw [pages, AList.lookup_insert_ne same] at isFound
      exact aligned.copies isFound

/-- A page that a fetch would show answers an insert as its copy does. -/
theorem sameSlot (aligned : Aligned executor) {data : PageData}
    (seen : executor.bufferPool.view pageId = some data) (tuple : Bytes) :
    ((WalManager.entry executor.wal.pages pageId).insertTuple tuple).map Prod.fst =
      ((Page.fromBytes pageId data).insertTuple tuple).map Prod.fst := by
  have visible := aligned.tabled.isSome_view.mp (Option.isSome_iff_exists.mpr ⟨data, seen⟩)
  have given : executor.GivenOut pageId := aligned.tabled.lt_of_visible visible
  have shown : (WalManager.entry executor.wal.pages pageId).data.Matches
      (Page.fromBytes pageId data).data :=
    aligned.versions.view (unhashed_copied executor) aligned.tabled given seen
  rcases shown.insertTuple tuple with
    ⟨panic, logged, placed⟩ | ⟨logged, placed⟩ | ⟨slotId, copy', page', logged, placed, -⟩
  · rw [logged, placed]
  · rw [logged, placed]
    rfl
  · rw [logged, placed]
    rfl

end Aligned

section Calls

theorem calm_aligned : Calm Aligned where
  fetch := fun pageId executor aligned => aligned.onPool
    ((shows_fetchPage (unhashed_copied executor) aligned.kept pageId).imp
      (fun _ upholds => upholds) (fun _ _ ended => ended.1) fun _ _ ended => ended.2)
    (numPages_fetchPage pageId _)
  flush := fun pageId executor aligned => aligned.onPool
    ((shows_flushPage (unhashed_copied executor) aligned.kept pageId).imp
      (fun _ upholds => upholds) (fun _ _ ended => ended.1) fun _ _ impossible => impossible.elim)
    (numPages_flushPage pageId _)
  unpin := fun frameId dirty _ aligned => aligned.pool
    ⟨aligned.tabled.retains.unpin frameId dirty, aligned.versions.unpin frameId dirty⟩
    (congrArg DiskManager.numPages (disk_unpin dirty))
  indexes := fun _ _ aligned =>
    ⟨aligned.tabled, aligned.visible, aligned.versions, aligned.copies⟩
  pageFile := fun _ _ aligned =>
    ⟨aligned.tabled, aligned.visible, aligned.versions, aligned.copies⟩
  catalogFile := fun _ _ aligned =>
    ⟨aligned.tabled, aligned.visible, aligned.versions, aligned.copies⟩

theorem marks_aligned : Marks Aligned where
  begins := fun executor aligned => aligned.log (pages_beginTxn executor.wal)
  updates := fun _ _ _ _ _ _ aligned => aligned.log rfl
  commits := fun _ _ aligned => aligned.log rfl
  aborts := fun _ _ aligned => aligned.log rfl

theorem aligned_logDelete (txnId pageId : UInt32) (slotId : UInt16) :
    Keeps Aligned (onWal (WalManager.logDelete txnId pageId slotId)) := by
  intro executor aligned
  rcases pages_logDelete txnId pageId slotId executor.wal with
    same | ⟨copy, copy', found, amended, pages⟩
  · exact aligned.log same
  · apply aligned.copy (aligned.copies found) pages
    intro data copied
    rw [Copied, WalManager.entry, found, Option.getD_some] at copied
    exact copied.amended_copy amended

/-- A page that was just given out is empty, and its copy will be. -/
theorem aligned_newPage :
    Ends Aligned (onPool newPage) (fun out executor => Aligned executor ∧
      executor.bufferPool.Held out.2 (Page.new out.1)) fun _ => Aligned := by
  intro executor aligned
  have shown := shows_newPage (unhashed_copied executor) aligned.kept executor.bufferPool
    aligned.upholds
  rw [onPool]
  rcases run : newPage executor.bufferPool with ⟨failure | ⟨pageId, frameId⟩, pool⟩
  · rw [run] at shown
    exact aligned.pool shown.2 (numPages_newPage_of_error run)
  · rw [run] at shown
    rcases shown with ⟨⟨retains, versions⟩, resident, page, dirty, next, -⟩
    have outcome : executor.bufferPool.disk.numPages = pageId ∧
        pool.Held frameId (Page.new executor.bufferPool.disk.numPages) := by
      rcases BufferPool.newPage_outcome aligned.tabled.faultless with
        ⟨frameId', pool', run', held, -⟩ | ⟨run', -⟩ | ⟨pool', run', -⟩
      · simp only [run, Prod.mk.injEq, Except.ok.injEq] at run'
        rcases run' with ⟨⟨rfl, rfl⟩, rfl⟩
        exact ⟨rfl, held⟩
      · simp [run] at run'
      · simp [run] at run'
    rcases outcome with ⟨rfl, held⟩
    exact ⟨aligned.grow ⟨retains, versions⟩ resident page dirty next, held⟩

end Calls

end Executor

end VenomDb
