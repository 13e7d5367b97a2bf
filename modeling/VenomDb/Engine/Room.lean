import VenomDb.Buffer.Frames
import VenomDb.Engine.Healthy

/-!
# Room on pages

All versions of a page have the same free space, and the log manager's copy of it has as much or
more. So a row that fits into a page fits into its copy too, and an `INSERT` that found a page
with room goes through.
-/

namespace VenomDb

namespace SlottedPage

variable (page : SlottedPage)

theorem freeSpace_of_lengths {other : SlottedPage} (lengths : other.lengths = page.lengths) :
    other.freeSpace = page.freeSpace := by
  rw [freeSpace, freeSpace, used, used, page.extent_of_lengths lengths, length_of_lengths lengths]

theorem freeSpace_push (tuple : Bytes) :
    (page.push tuple).freeSpace = page.freeSpace - (tuple.length + 5) := by
  have count : (page.push tuple).cells.length = page.cells.length + 1 := by simp [push]
  rw [freeSpace, freeSpace, used_push, count]
  simp only [Slot.size]
  omega

end SlottedPage

/-- The free space of a page that is well formed. -/
def Spacious (space : ℕ) (data : PageData) : Prop :=
  ∃ page, Represents data page ∧ page.freeSpace = space

namespace Spacious

variable {space : ℕ} {page page' : Page} {tuple : Bytes}

theorem new (pageId : UInt32) : Spacious SlottedPage.empty.freeSpace (Page.new pageId).data :=
  ⟨.empty, Represents.new pageId, rfl⟩

theorem freeSpace_eq (spacious : Spacious space page.data) : page.freeSpace = space := by
  rcases spacious with ⟨abstract, represents, rfl⟩
  exact represents.freeSpace_eq

/-- No page has more free space than an empty one. -/
theorem le_empty {data : PageData} (spacious : Spacious space data) :
    space ≤ SlottedPage.empty.freeSpace := by
  rcases spacious with ⟨abstract, -, rfl⟩
  simp only [SlottedPage.freeSpace, SlottedPage.used, SlottedPage.extent, SlottedPage.empty,
    List.length_nil, List.take_nil, List.map_nil, List.sum_nil]
  omega

theorem congr_cleared {data data' : PageData} (same : data'.cleared = data.cleared)
    (spacious : Spacious space data) : Spacious space data' := by
  rcases spacious with ⟨abstract, represents, free⟩
  exact ⟨abstract, represents.congr_cleared same, free⟩

/-- `DELETE` and `UPDATE` change no free space. -/
theorem amended (spacious : Spacious space page.data) (amended : page.Amended page') :
    Spacious space page'.data := by
  rcases spacious with ⟨abstract, represents, rfl⟩
  rcases amended with ⟨slotId, done, deleted | ⟨newData, updated⟩⟩
  · rcases represents.deleteTuple_eq slotId with ⟨other, -, represents', run, -⟩
    obtain rfl : page' = other := congrArg Prod.snd (Except.ok.inj (deleted.symm.trans run))
    exact ⟨_, represents', SlottedPage.freeSpace_of_lengths _ (SlottedPage.lengths_deleteTuple ..)⟩
  · rcases represents.updateTuple_eq slotId newData with ⟨other, -, represents', run, -⟩
    obtain rfl : page' = other := congrArg Prod.snd (Except.ok.inj (updated.symm.trans run))
    exact ⟨_, represents', SlottedPage.freeSpace_of_lengths _ (SlottedPage.lengths_updateTuple ..)⟩

/-- A tuple that fits is put on the page. -/
theorem insertTuple (spacious : Spacious space page.data) (fits : tuple.length + 5 ≤ space) :
    ∃ slotId page', page.insertTuple tuple = .ok (some slotId, page') ∧ page'.id = page.id ∧
      Spacious (space - (tuple.length + 5)) page'.data := by
  rcases spacious with ⟨abstract, represents, rfl⟩
  have hasRoom := abstract.hasRoom_of_freeSpace fits
  have short := abstract.lt_of_hasRoom hasRoom
  have inserted := represents.insertTuple_eq tuple
  rw [SlottedPage.insertTuple, Nat.mod_eq_of_lt short, if_pos hasRoom, if_pos short] at inserted
  rcases inserted with ⟨page', sameId, represents', run⟩
  exact ⟨_, page', run, sameId, _, represents', abstract.freeSpace_push tuple⟩

/-- A tuple too long for any page is refused if its length modulo `2 ^ 16` is, and else the bytes
do not fit where they should go. -/
theorem insertTuple_new (pageId : UInt32)
    (tooLong : ¬tuple.length + 5 ≤ SlottedPage.empty.freeSpace) :
    if SlottedPage.empty.HasRoom (tuple.length % 2 ^ 16) then
      ∃ panic, (Page.new pageId).insertTuple tuple = .error (.panic panic)
    else (Page.new pageId).insertTuple tuple = .ok (none, Page.new pageId) := by
  have inserted := (Represents.new pageId).insertTuple_eq tuple
  rw [SlottedPage.insertTuple] at inserted
  split_ifs with room
  · have long : ¬tuple.length < 2 ^ 16 := by
      intro short
      rw [Nat.mod_eq_of_lt short] at room
      exact tooLong ((SlottedPage.hasRoom_iff_freeSpace _).mp room)
    rw [if_pos room, if_neg long] at inserted
    exact ⟨_, inserted⟩
  · rw [if_neg room] at inserted
    exact inserted

end Spacious

namespace Executor

open Fallible BufferPool

variable [Crc32] {relevant relevant' : UInt32 → Prop} {room room' : UInt32 → ℕ}
  {executor executor' : Executor} {pageId txnId : UInt32} {frameId : FrameId} {page : Page}

/-- All versions of the relevant pages have the free space that `room` gives, and their copies have
that or more. -/
structure Crowded (relevant : UInt32 → Prop) (room : UInt32 → ℕ) (executor : Executor) : Prop where
  tabled : executor.bufferPool.Tabled
  visible : ∀ {pageId}, relevant pageId → executor.bufferPool.Visible pageId
  versions : Shows True relevant (fun pageId => Spacious (room pageId)) executor.bufferPool
  copies : ∀ {pageId}, relevant pageId → ∃ space, room pageId ≤ space ∧
    Spacious space (WalManager.entry executor.wal.pages pageId).data
  allocated : ∀ {pageId page}, executor.wal.pages.lookup pageId = some page →
    pageId.toNat < executor.bufferPool.disk.numPages.toNat

omit [Crc32] in
theorem unhashed_spacious (room : UInt32 → ℕ) : Unhashed fun pageId => Spacious (room pageId) :=
  fun _ _ _ same spacious => spacious.congr_cleared same

namespace Crowded

theorem record (crowded : Crowded relevant room executor) : Crowded relevant room executor.record :=
  ⟨crowded.tabled, crowded.visible, crowded.versions, crowded.copies, crowded.allocated⟩

/-- Only some of the pages matter. -/
theorem subset (crowded : Crowded relevant room executor)
    (fewer : ∀ pageId, relevant' pageId → relevant pageId) : Crowded relevant' room executor where
  tabled := crowded.tabled
  visible := fun isRelevant => crowded.visible (fewer _ isRelevant)
  versions := crowded.versions.imp fewer fun _ _ _ spacious => spacious
  copies := fun isRelevant => crowded.copies (fewer _ isRelevant)
  allocated := crowded.allocated

theorem lt_numPages (crowded : Crowded relevant room executor) (isRelevant : relevant pageId) :
    pageId.toNat < executor.bufferPool.disk.numPages.toNat :=
  crowded.tabled.lt_of_visible (crowded.visible isRelevant)

/-- A page with an id that was not given out has no copy. -/
theorem uncopied (crowded : Crowded relevant room executor)
    (fresh : executor.bufferPool.disk.numPages.toNat ≤ pageId.toNat) :
    executor.wal.pages.lookup pageId = none := by
  by_contra found
  rcases Option.ne_none_iff_exists'.mp found with ⟨page, found⟩
  have bound := crowded.allocated found
  omega

/-- What a client sees of a page has the free space of the page. -/
theorem view (crowded : Crowded relevant room executor) (isRelevant : relevant pageId) :
    ∃ data, executor.bufferPool.view pageId = some data ∧ Spacious (room pageId) data := by
  have visible := crowded.tabled.isSome_view.mpr (crowded.visible isRelevant)
  rcases Option.isSome_iff_exists.mp visible with ⟨data, seen⟩
  exact ⟨data, seen,
    crowded.versions.view (unhashed_spacious room) crowded.tabled isRelevant seen⟩

/-- The pool changes. -/
theorem pool {pool : BufferPool frameCount} (crowded : Crowded relevant room executor)
    (retains : Retains executor.bufferPool pool)
    (versions : Shows True relevant (fun pageId => Spacious (room pageId)) pool) :
    Crowded relevant room (Executor.record { executor with bufferPool := pool }) where
  tabled := retains.tabled
  visible := fun isRelevant => retains.visible (crowded.visible isRelevant)
  versions := versions
  copies := crowded.copies
  allocated := fun found => (crowded.allocated found).trans_le retains.numPages

theorem upholds (crowded : Crowded relevant room executor) :
    Upholds True relevant (fun pageId => Spacious (room pageId)) executor.bufferPool
      executor.bufferPool :=
  ⟨crowded.tabled.retains, crowded.versions⟩

theorem kept (crowded : Crowded relevant room executor) (pageId : UInt32)
    (isRelevant : relevant pageId) : executor.bufferPool.Kept True pageId :=
  .inr ⟨trivial, crowded.visible isRelevant⟩

/-- A call of the pool that keeps what holds of all versions. -/
theorem onPool {α : Type} {call : Fallible Failure (BufferPool frameCount) α}
    (crowded : Crowded relevant room executor)
    (upholds : Ends (Upholds True relevant (fun pageId => Spacious (room pageId))
      executor.bufferPool)
      call (fun _ => Upholds True relevant (fun pageId => Spacious (room pageId))
        executor.bufferPool)
      (fun _ => Upholds True relevant (fun pageId => Spacious (room pageId)) executor.bufferPool)) :
    Crowded relevant room (Executor.onPool call executor).2 := by
  have kept := upholds.keeps executor.bufferPool crowded.upholds
  exact crowded.pool kept.retains kept.versions

theorem fetched (crowded : Crowded relevant room executor) (pageId : UInt32) :
    Crowded relevant room (Executor.onPool (BufferPool.fetchPage pageId) executor).2 :=
  crowded.onPool ((shows_fetchPage (unhashed_spacious room) crowded.kept pageId).imp
    (fun _ holds => holds) (fun _ _ ended => ended.1) fun _ _ ended => ended.2)

theorem unpin (crowded : Crowded relevant room executor) (frameId : FrameId) (dirty : Bool) :
    Crowded relevant room
      (Executor.record { executor with bufferPool := executor.bufferPool.unpin frameId dirty }) :=
  crowded.pool (crowded.tabled.retains.unpin frameId dirty) (crowded.versions.unpin frameId dirty)

/-- The log changes, and no copy. -/
theorem wal {wal : WalManager} (crowded : Crowded relevant room executor)
    (same : wal.pages = executor.wal.pages) :
    Crowded relevant room (Executor.record { executor with wal := wal }) where
  tabled := crowded.tabled
  visible := crowded.visible
  versions := crowded.versions
  copies := by
    intro pageId isRelevant
    change ∃ space, _ ∧ Spacious space (WalManager.entry wal.pages pageId).data
    rw [same]
    exact crowded.copies isRelevant
  allocated := by
    intro pageId page found
    change wal.pages.lookup pageId = some page at found
    rw [same] at found
    exact crowded.allocated found

end Crowded

theorem steady_crowded : Steady (Crowded relevant room) where
  fetch := fun pageId _ crowded => crowded.fetched pageId
  flush := fun pageId _ crowded =>
    crowded.onPool ((shows_flushPage (unhashed_spacious room) crowded.kept pageId).imp
      (fun _ holds => holds) (fun _ _ ended => ended.1) fun _ _ impossible => impossible.elim)
  unpin := fun frameId dirty _ crowded => crowded.unpin frameId dirty
  amend := fun found amended crowded =>
    crowded.pool (crowded.tabled.retains.setPage found amended.id)
      (crowded.versions.setPage found amended.id fun isRelevant =>
        (crowded.versions.frame found isRelevant).amended amended)
  indexes := fun _ _ crowded =>
    ⟨crowded.tabled, crowded.visible, crowded.versions, crowded.copies, crowded.allocated⟩
  pageFile := fun _ _ crowded =>
    ⟨crowded.tabled, crowded.visible, crowded.versions, crowded.copies, crowded.allocated⟩
  catalogFile := fun _ _ crowded =>
    ⟨crowded.tabled, crowded.visible, crowded.versions, crowded.copies, crowded.allocated⟩

/-- A copy changes, and all copies have room enough. -/
theorem Crowded.copy {wal : WalManager} (crowded : Crowded relevant room executor)
    (pages : wal.pages = executor.wal.pages.insert pageId page)
    (bound : pageId.toNat < executor.bufferPool.disk.numPages.toNat)
    (enough : relevant pageId → ∃ space, room pageId ≤ space ∧ Spacious space page.data) :
    Crowded relevant room (Executor.record { executor with wal := wal }) where
  tabled := crowded.tabled
  visible := crowded.visible
  versions := crowded.versions
  copies := by
    intro other isRelevant
    change ∃ space, _ ∧ Spacious space (WalManager.entry wal.pages other).data
    rw [pages, WalManager.entry]
    by_cases same : other = pageId
    · subst same
      rw [AList.lookup_insert, Option.getD_some]
      exact enough isRelevant
    · rw [AList.lookup_insert_ne same]
      exact crowded.copies isRelevant
  allocated := by
    intro other found isFound
    change wal.pages.lookup other = some found at isFound
    rw [pages] at isFound
    by_cases same : other = pageId
    · subst same
      exact bound
    · rw [AList.lookup_insert_ne same] at isFound
      exact crowded.allocated isFound

omit [Crc32] in
theorem pages_beginTxn (wal : WalManager) : (WalManager.beginTxn wal).2.pages = wal.pages := by
  simp only [WalManager.beginTxn]
  split_ifs <;> rfl

omit [Crc32] in
/-- Logging a delete changes no copy, or amends the copy of the page. -/
theorem pages_logDelete (txnId pageId : UInt32) (slotId : UInt16) (wal : WalManager) :
    (WalManager.logDelete txnId pageId slotId wal).2.pages = wal.pages ∨
    ∃ page page', wal.pages.lookup pageId = some page ∧ page.Amended page' ∧
      (WalManager.logDelete txnId pageId slotId wal).2.pages = wal.pages.insert pageId page' := by
  rw [WalManager.logDelete, get_bind]
  rcases found : wal.pages.lookup pageId with _ | page
  · exact .inl rfl
  · dsimp only
    rcases page.getTuple slotId with failure | oldData
    · exact .inl rfl
    · rw [ofExcept_ok_bind]
      rcases deleted : page.deleteTuple slotId with failure | ⟨done, page'⟩
      · exact .inl rfl
      · exact .inr ⟨page, page', rfl, ⟨slotId, done, .inl deleted⟩, rfl⟩

theorem marks_crowded : Marks (Crowded relevant room) where
  begins := fun executor crowded => crowded.wal (pages_beginTxn executor.wal)
  updates := fun _ _ _ _ _ _ crowded => crowded.wal rfl
  commits := fun _ _ crowded => crowded.wal rfl
  aborts := fun _ _ crowded => crowded.wal rfl

/-- A tombstone in a copy takes no room away. -/
theorem crowded_logDelete (txnId pageId : UInt32) (slotId : UInt16) :
    Keeps (Crowded relevant room) (onWal (WalManager.logDelete txnId pageId slotId)) := by
  intro executor crowded
  rcases pages_logDelete txnId pageId slotId executor.wal with
    same | ⟨page, page', found, amended, pages⟩
  · exact crowded.wal same
  · apply crowded.copy pages (crowded.allocated found)
    intro isRelevant
    rcases crowded.copies isRelevant with ⟨space, enough, spacious⟩
    rw [WalManager.entry, found, Option.getD_some] at spacious
    exact ⟨space, enough, spacious.amended amended⟩

end Executor

end VenomDb
