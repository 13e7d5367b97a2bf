import VenomDb.Buffer.Saturation
import VenomDb.Engine.Room
import VenomDb.Engine.RowFormat

/-!
# How an INSERT ends

An `INSERT` puts its row on the first page of the table with room for it, and else on a new page.
It fails with a message if no frame can be had for the first page that it needs, and then it has
changed nothing; with a row too long for any page it leaves a page behind, or panics.
-/

namespace VenomDb

namespace Executor

open Fallible BufferPool

variable [Crc32] {relevant relevant' : UInt32 → Prop} {room room' : UInt32 → ℕ}
  {executor executor' executor'' : Executor} {pageId : UInt32} {frameId : FrameId} {page : Page}
  {rowBytes : Bytes} {space : ℕ} {pageIds : List UInt32}

section Place

/-- A page is exchanged and unpinned as dirty, and its copy is changed with it. -/
theorem Crowded.rewrite {page page' : Page} (crowded : Crowded relevant room executor)
    (held : executor.bufferPool.Held frameId page) (sameId : page'.id = page.id)
    (pool : executor'.bufferPool = (executor.bufferPool.setPage frameId page').unpin frameId true)
    (free : Spacious (room' page.id) page'.data)
    (enough : ∃ space, room' page.id ≤ space ∧
      Spacious space (WalManager.entry executor'.wal.pages page.id).data)
    (others : ∀ other, other ≠ page.id → room' other = room other ∧
      executor'.wal.pages.lookup other = executor.wal.pages.lookup other) :
    Crowded (fun other => other = page.id ∨ relevant other) room' executor' := by
  have retains : Retains executor.bufferPool executor'.bufferPool := by
    rw [pool]
    exact (crowded.tabled.retains.setPage held.page sameId).unpin frameId true
  have resident : executor.bufferPool.Visible page.id :=
    .inl (by rw [crowded.tabled.frame held.page]; rfl)
  refine ⟨retains.tabled, ?_, ?_, ?_, ?_⟩
  · rintro other (rfl | isRelevant)
    · exact retains.visible resident
    · exact retains.visible (crowded.visible isRelevant)
  · rw [pool]
    apply crowded.versions.rewritten crowded.tabled held sameId free
    rintro other apart (same | isRelevant)
    · exact absurd same apart
    · rw [(others other apart).1]
      exact ⟨isRelevant, fun _ spacious => spacious⟩
  · intro other isRelevant
    by_cases same : other = page.id
    · subst same
      exact enough
    · rw [WalManager.entry, (others other same).2, (others other same).1]
      exact crowded.copies (isRelevant.resolve_left same)
  · intro other found isFound
    apply lt_of_lt_of_le _ retains.numPages
    by_cases same : other = page.id
    · subst same
      exact crowded.tabled.allocated held.page
    · rw [(others other same).2] at isFound
      exact crowded.allocated isFound

/-- The lists of pages are as they were. -/
structure SameLists (executor executor' : Executor) : Prop where
  tablePages : executor'.tablePages = executor.tablePages
  pageFiles : executor'.pageFiles = executor.pageFiles

omit [Crc32] in
theorem SameLists.trans (first : SameLists executor executor')
    (second : SameLists executor' executor'') : SameLists executor executor'' :=
  ⟨second.tablePages.trans first.tablePages, second.pageFiles.trans first.pageFiles⟩

/-- A row goes to a page with room for it. -/
theorem insertInto_ok {page : Page} (crowded : Crowded relevant room executor)
    (held : executor.bufferPool.Held frameId page) (free : Spacious space page.data)
    (copy : ∃ more, space ≤ more ∧ Spacious more (WalManager.entry executor.wal.pages page.id).data)
    (fits : rowBytes.length + 5 ≤ space) (txnId : UInt32) (wrap : IoError → SqlError) :
    ∃ slotId executor', insertInto txnId page.id frameId wrap rowBytes executor =
        (.ok slotId, executor') ∧ SameLists executor executor' ∧
      Crowded (fun other => other = page.id ∨ relevant other)
        (Function.update room page.id (space - (rowBytes.length + 5))) executor' := by
  rcases copy with ⟨more, enough, spare⟩
  rcases spare.insertTuple (fits.trans enough) with ⟨logged, copy', run, -, spare'⟩
  rcases free.insertTuple fits with ⟨slotId, page', run', sameId, free'⟩
  let wal : WalManager := WalManager.append (.insert 0 txnId page.id logged rowBytes)
    { executor.wal with pages := executor.wal.pages.insert page.id copy' }
  let written := Executor.record { executor with wal := wal }
  let edited := Executor.record
    { written with bufferPool := written.bufferPool.setPage frameId page' }
  let released := Executor.record
    { edited with bufferPool := edited.bufferPool.unpin frameId true }
  have logs : onWal (WalManager.logInsert txnId page.id rowBytes) executor =
      (.ok logged, written) := by
    rw [onWal, logInsert_eq, run]
  have edits : onPage frameId none (fun page => page.insertTuple rowBytes) written =
      (.ok (some slotId), edited) := by
    have found : written.bufferPool.getPage frameId = some page := held.page
    rw [onPage, get_bind, found]
    dsimp only
    rw [run', ofExcept_ok_bind]
    rfl
  have here : Function.update room page.id (space - (rowBytes.length + 5)) page.id =
      space - (rowBytes.length + 5) := Function.update_self _ _ _
  refine ⟨slotId, released, ?_, ⟨rfl, rfl⟩, crowded.rewrite held sameId rfl ?_ ?_ ?_⟩
  · rw [insertInto, bind_ok (mapError_ok logs), bind_ok edits]
    rfl
  · rw [here]
    exact free'
  · have copied : WalManager.entry released.wal.pages page.id = copy' := by
      rw [WalManager.entry, show released.wal.pages.lookup page.id = some copy' from
        AList.lookup_insert _, Option.getD_some]
    rw [here, copied]
    exact ⟨_, by omega, spare'⟩
  · exact fun other apart => ⟨Function.update_of_ne apart _ _, AList.lookup_insert_ne apart⟩

/-- A fetch that failed for want of a frame leaves a miss behind. -/
def missed (executor : Executor) : Executor :=
  Executor.record { executor with
    bufferPool := { executor.bufferPool with misses := executor.bufferPool.misses + 1 } }

/-- No frame can be had for the first of some pages, or there is none. -/
structure Stuck (executor : Executor) (pageIds : List UInt32) : Prop where
  full : executor.bufferPool.Full
  absent : ∀ pageId, pageIds.head? = some pageId →
    executor.bufferPool.pageTable.lookup pageId = none

/-- A relevant page is fetched, or there is no frame for it, or its frame has all the pins it can
have. -/
theorem Crowded.fetchPage_outcome (crowded : Crowded relevant room executor)
    (isRelevant : relevant pageId) :
    (∃ frameId page executor', fetchPage pageId executor = (.ok frameId, executor') ∧
      Crowded relevant room executor' ∧ executor'.bufferPool.Held frameId page ∧
      page.id = pageId ∧ SameLists executor executor' ∧
      executor'.bufferPool.disk.numPages = executor.bufferPool.disk.numPages ∧
      ¬(executor.bufferPool.Full ∧ executor.bufferPool.pageTable.lookup pageId = none) ∧
      ∀ other, (executor'.bufferPool.unpin frameId false).Saturated other →
        executor.bufferPool.Saturated other) ∨
    (fetchPage pageId executor =
        (.error (.sql (.fetchPage pageId .poolFull)), executor.missed) ∧
      executor.bufferPool.Full ∧ executor.bufferPool.pageTable.lookup pageId = none) ∨
    (fetchPage pageId executor = (.error (.panic .overflow), executor.record) ∧
      executor.bufferPool.Saturated pageId) := by
  have fetched := crowded.fetched pageId
  rw [Executor.fetchPage, mapError, Executor.onPool] at *
  rcases BufferPool.fetchPage_outcome crowded.tabled (crowded.visible isRelevant) with
    ⟨frameId, pool', page, run, held, sameId, numPages, free⟩ | ⟨run, full, absent⟩ |
    ⟨run, saturated⟩
  · rw [run] at fetched ⊢
    exact .inl ⟨frameId, page, _, rfl, fetched, held, sameId, ⟨rfl, rfl⟩, numPages, free,
      fun other saturated => saturated.of_unpin run⟩
  · rw [run]
    exact .inr (.inl ⟨rfl, full, absent⟩)
  · rw [run]
    exact .inr (.inr ⟨rfl, saturated⟩)

/-- A page that is tried, after pages without room, is in a frame with all the pins it can have. -/
def Saturates (executor : Executor) (pageIds : List UInt32) (fits : UInt32 → Prop) : Prop :=
  ∃ before pageId after, pageIds = before ++ pageId :: after ∧ (∀ other ∈ before, ¬fits other) ∧
    executor.bufferPool.Saturated pageId

omit [Crc32] in
theorem Saturates.of_head {pageIds : List UInt32} {fits : UInt32 → Prop}
    (saturated : executor.bufferPool.Saturated pageId) :
    executor.Saturates (pageId :: pageIds) fits :=
  ⟨[], pageId, pageIds, rfl, by simp, saturated⟩

omit [Crc32] in
/-- Trying a page without room saturates no other. -/
theorem Saturates.of_tail {pageIds : List UInt32} {fits : UInt32 → Prop}
    (saturates : executor'.Saturates pageIds fits) (full : ¬fits pageId)
    (before : ∀ other, executor'.bufferPool.Saturated other →
      executor.bufferPool.Saturated other) : executor.Saturates (pageId :: pageIds) fits := by
  rcases saturates with ⟨tried, other, rest, rfl, fulls, saturated⟩
  refine ⟨pageId :: tried, other, rest, rfl, ?_, before other saturated⟩
  intro earlier inside
  rcases List.mem_cons.mp inside with rfl | inside
  · exact full
  · exact fulls earlier inside

/-- The pages of a table are tried one after another. -/
theorem insertExisting_outcome (crowded : Crowded relevant room executor)
    (listed : ∀ pageId ∈ pageIds, relevant pageId) (txnId : UInt32) :
    (∃ pageId ∈ pageIds, ∃ slotId executor',
      insertExisting txnId rowBytes pageIds executor = (.ok (some ⟨pageId, slotId⟩), executor') ∧
      rowBytes.length + 5 ≤ room pageId ∧ SameLists executor executor' ∧
      Crowded relevant (Function.update room pageId (room pageId - (rowBytes.length + 5)))
        executor') ∨
    (∃ executor', insertExisting txnId rowBytes pageIds executor = (.ok none, executor') ∧
      (∀ pageId ∈ pageIds, ¬rowBytes.length + 5 ≤ room pageId) ∧ SameLists executor executor' ∧
      executor'.bufferPool.disk.numPages = executor.bufferPool.disk.numPages ∧
      Crowded relevant room executor' ∧
      (pageIds = [] ∧ executor' = executor ∨
        ¬Stuck executor pageIds ∧ ¬executor'.bufferPool.Full)) ∨
    (∃ pageId, insertExisting txnId rowBytes pageIds executor =
        (.error (.sql (.fetchPage pageId .poolFull)), executor.missed) ∧
      pageIds ≠ [] ∧ Stuck executor pageIds) ∨
    (∃ executor', insertExisting txnId rowBytes pageIds executor =
        (.error (.panic .overflow), executor') ∧ ¬Stuck executor pageIds ∧
      executor.Saturates pageIds fun pageId => rowBytes.length + 5 ≤ room pageId) := by
  induction pageIds generalizing executor with
  | nil => exact .inr (.inl ⟨executor, rfl, by simp, ⟨rfl, rfl⟩, rfl, crowded, .inl ⟨rfl, rfl⟩⟩)
  | cons pageId pageIds ih =>
      rw [insertExisting]
      rcases crowded.fetchPage_outcome (listed pageId List.mem_cons_self) with
        ⟨frameId, page, fetched, run, crowded', held, rfl, lists, numPages, free, fewer⟩ |
        ⟨run, full, absent⟩ | ⟨run, saturated⟩
      · have found : fetched.bufferPool.getPage frameId = some page := held.page
        have spacious := crowded'.versions.frame held.page (listed page.id List.mem_cons_self)
        rw [bind_ok run, get_bind, found]
        simp only [Option.any_some, spacious.freeSpace_eq, decide_eq_true_eq]
        by_cases fits : rowBytes.length + 5 ≤ room page.id
        · rw [if_pos fits]
          have copy := crowded'.copies (listed page.id List.mem_cons_self)
          rcases insertInto_ok crowded' held spacious copy fits txnId .walInsert with
            ⟨slotId, executor', inserted, lists', crowded''⟩
          refine .inl ⟨page.id, List.mem_cons_self, slotId, executor', ?_, fits,
            lists.trans lists',
            crowded''.subset fun _ isRelevant => .inr isRelevant⟩
          rw [bind_ok inserted]
          rfl
        · rw [if_neg fits]
          let released := Executor.record
            { fetched with bufferPool := fetched.bufferPool.unpin frameId false }
          have unpins : modifyPool (BufferPool.unpin frameId false) fetched = (.ok (), released) :=
            rfl
          have lists' : SameLists executor released := ⟨lists.tablePages, lists.pageFiles⟩
          have numPages' : released.bufferPool.disk.numPages =
              executor.bufferPool.disk.numPages := by
            rw [← numPages]
            exact congrArg DiskManager.numPages (disk_unpin false)
          have loose : ¬released.bufferPool.Full := held.not_full false
          have unstuck : ¬Stuck executor (page.id :: pageIds) := fun stuck =>
            free ⟨stuck.full, stuck.absent page.id rfl⟩
          have others (other : UInt32) (inside : other ∈ pageIds) : relevant other :=
            listed other (List.mem_cons_of_mem _ inside)
          rw [bind_ok unpins]
          rcases ih (crowded'.unpin frameId false) others with
            ⟨other, inside, slotId, executor', inserted, fits', same, crowded''⟩ |
            ⟨executor', none, full, same, ids, crowded'', rest⟩ | ⟨other, -, -, stuck⟩ |
            ⟨executor', failed, -, saturates⟩
          · exact .inl ⟨other, List.mem_cons_of_mem _ inside, slotId, executor', inserted, fits',
              lists'.trans same, crowded''⟩
          · refine .inr (.inl ⟨executor', none, ?_, lists'.trans same,
              ids.trans numPages', crowded'', .inr ⟨unstuck, ?_⟩⟩)
            · intro other inside
              rcases List.mem_cons.mp inside with rfl | inside
              · exact fits
              · exact full other inside
            · rcases rest with ⟨-, rfl⟩ | ⟨-, free'⟩
              · exact loose
              · exact free'
          · exact absurd stuck.full loose
          · exact .inr (.inr (.inr ⟨executor', failed, unstuck, saturates.of_tail fits fewer⟩))
      · refine .inr (.inr (.inl ⟨pageId, by rw [bind_error run], by simp, full, ?_⟩))
        rintro other isHead
        obtain rfl := Option.some.inj isHead
        exact absent
      · refine .inr (.inr (.inr ⟨executor.record, by rw [bind_error run], fun stuck => ?_,
          .of_head saturated⟩))
        rcases saturated with ⟨frameId, resident, -⟩
        simp [stuck.absent pageId rfl] at resident

/-- The state with a page added to the list of a table, in memory and in its file. -/
structure Listed (table : String) (pageId : UInt32) (executor executor' : Executor) : Prop where
  tablePages : executor'.tablePages = executor.tablePages.insert table
    ((executor.tablePages.lookup table).getD [] ++ [pageId])
  pageFiles : executor'.pageFiles = executor.pageFiles.insert table
    ((executor.tablePages.lookup table).getD [] ++ [pageId])

/-- A new page is in a frame and has no copy yet, or there is no frame for it, or no id. -/
theorem Crowded.newPage_outcome (crowded : Crowded relevant room executor) :
    (∃ frameId made, mapError (Failure.wrapIo .newPage) (Executor.onPool newPage) executor =
        (.ok (executor.bufferPool.disk.numPages, frameId), made) ∧
      executor.bufferPool.disk.numPages.toNat + 1 < 2 ^ 32 ∧ Crowded relevant room made ∧
      made.bufferPool.Held frameId (Page.new executor.bufferPool.disk.numPages) ∧
      WalManager.entry made.wal.pages executor.bufferPool.disk.numPages =
        Page.new executor.bufferPool.disk.numPages ∧ SameLists executor made ∧
      ¬executor.bufferPool.Full) ∨
    (mapError (Failure.wrapIo .newPage) (Executor.onPool newPage) executor =
        (.error (.sql (.newPage .poolFull)), executor.record) ∧ executor.bufferPool.Full) ∨
    (∃ executor', mapError (Failure.wrapIo .newPage) (Executor.onPool newPage) executor =
        (.error (.panic .overflow), executor') ∧
      ¬executor.bufferPool.disk.numPages.toNat + 1 < 2 ^ 32 ∧ ¬executor.bufferPool.Full) := by
  have kept := crowded.onPool ((shows_newPage (unhashed_spacious room) crowded.kept).imp
    (fun _ holds => holds) (fun _ _ ended => ended.1) fun _ _ ended => ended.2)
  have blank : WalManager.entry executor.wal.pages executor.bufferPool.disk.numPages =
      Page.new executor.bufferPool.disk.numPages := by
    rw [WalManager.entry, crowded.uncopied (le_refl _), Option.getD_none]
  rw [mapError]
  rw [Executor.onPool] at kept ⊢
  rcases BufferPool.newPage_outcome crowded.tabled.faultless with
    ⟨frameId, pool, run, held, ids, free⟩ | ⟨run, full⟩ | ⟨pool, run, exhausted⟩
  · rw [run] at kept ⊢
    exact .inl ⟨frameId, _, rfl, ids, kept, held, blank, ⟨rfl, rfl⟩, free⟩
  · rw [run]
    exact .inr (.inl ⟨rfl, full⟩)
  · rw [run]
    exact .inr (.inr ⟨_, rfl, exhausted⟩)

/-- The page of a row that was put on it is entered in the list of its table. -/
theorem listed_enter (table : String) (pageId : UInt32) {start : Executor}
    (same : SameLists start executor) :
    ∃ executor', (do
        Fallible.modify fun executor =>
          { executor with
            tablePages := executor.tablePages.insert table
              ((executor.tablePages.lookup table).getD [] ++ [pageId]) }
        saveTableMeta table : Action Unit) executor = (.ok (), executor') ∧
      Listed table pageId start executor' ∧
      ∀ {relevant : UInt32 → Prop} {room : UInt32 → ℕ}, Crowded relevant room executor →
        Crowded relevant room executor' := by
  refine ⟨_, rfl, ⟨?_, ?_⟩, fun crowded => ⟨crowded.tabled, crowded.visible, crowded.versions,
    crowded.copies, crowded.allocated⟩⟩
  · change executor.tablePages.insert table _ = _
    rw [same.tablePages]
  · change executor.pageFiles.insert table (((executor.tablePages.insert table _).lookup
      table).getD []) = _
    rw [AList.lookup_insert, Option.getD_some, same.tablePages, same.pageFiles]

/-- A row too long for any page leaves the fresh page behind if its length modulo `2 ^ 16` is too
long as well, and else a copy of bytes fails. -/
theorem insertInto_tooLong (crowded : Crowded relevant room executor)
    (held : executor.bufferPool.Held frameId (Page.new pageId)) (irrelevant : ¬relevant pageId)
    (blank : WalManager.entry executor.wal.pages pageId = Page.new pageId)
    (tooLong : ¬rowBytes.length + 5 ≤ SlottedPage.empty.freeSpace) (txnId : UInt32)
    (wrap : IoError → SqlError) :
    if SlottedPage.empty.HasRoom (rowBytes.length % 2 ^ 16) then
      ∃ panic executor', insertInto txnId pageId frameId wrap rowBytes executor =
        (.error (.panic panic), executor')
    else
      ∃ executor', insertInto txnId pageId frameId wrap rowBytes executor =
          (.error (.sql (wrap .pageFull)), executor') ∧
        SameLists executor executor' ∧ Crowded relevant room executor' := by
  have refused := Spacious.insertTuple_new pageId tooLong
  split_ifs at refused ⊢ with small
  · rcases refused with ⟨panic, failed⟩
    have logs : onWal (WalManager.logInsert txnId pageId rowBytes) executor =
        (.error (.panic panic), executor.record) := by
      rw [onWal, logInsert_eq, blank, failed]
    exact ⟨panic, _, bind_error (mapError_error logs)⟩
  · let wal : WalManager :=
      { executor.wal with pages := executor.wal.pages.insert pageId (Page.new pageId) }
    have logs : onWal (WalManager.logInsert txnId pageId rowBytes) executor =
        (.error (.io .pageFull), Executor.record { executor with wal := wal }) := by
      rw [onWal, logInsert_eq, blank, refused]
    refine ⟨_, bind_error (mapError_error logs), ⟨rfl, rfl⟩, ?_⟩
    exact crowded.copy rfl (crowded.tabled.allocated held.page) fun isRelevant =>
      absurd isRelevant irrelevant

/-- A fresh page takes any row that is not too long. -/
theorem insertFresh_outcome (crowded : Crowded relevant room executor) (txnId : UInt32)
    (table : String) :
    (∃ slotId executor', insertFresh txnId table rowBytes executor =
        (.ok ⟨executor.bufferPool.disk.numPages, slotId⟩, executor') ∧
      executor.bufferPool.disk.numPages.toNat + 1 < 2 ^ 32 ∧
      rowBytes.length + 5 ≤ SlottedPage.empty.freeSpace ∧
      Listed table executor.bufferPool.disk.numPages executor executor' ∧
      ∃ room', Crowded (fun other => other = executor.bufferPool.disk.numPages ∨ relevant other)
        room' executor') ∨
    (insertFresh txnId table rowBytes executor =
        (.error (.sql (.newPage .poolFull)), executor.record) ∧ executor.bufferPool.Full) ∨
    (∃ executor', insertFresh txnId table rowBytes executor =
        (.error (.panic .overflow), executor') ∧
      ¬executor.bufferPool.disk.numPages.toNat + 1 < 2 ^ 32 ∧ ¬executor.bufferPool.Full) ∨
    (executor.bufferPool.disk.numPages.toNat + 1 < 2 ^ 32 ∧ ¬executor.bufferPool.Full ∧
      ¬rowBytes.length + 5 ≤ SlottedPage.empty.freeSpace ∧
      if SlottedPage.empty.HasRoom (rowBytes.length % 2 ^ 16) then
        ∃ panic executor', insertFresh txnId table rowBytes executor =
          (.error (.panic panic), executor')
      else
        ∃ executor', insertFresh txnId table rowBytes executor =
            (.error (.sql (.walInsertNewPage .pageFull)), executor') ∧
          SameLists executor executor' ∧ Crowded relevant room executor') := by
  let pageId := executor.bufferPool.disk.numPages
  have irrelevant : ¬relevant pageId := fun isRelevant =>
    lt_irrefl _ (crowded.lt_numPages isRelevant)
  rcases crowded.newPage_outcome with
    ⟨frameId, made, run, ids, crowded', held, blank, same, free⟩ | ⟨run, full⟩ |
    ⟨executor', run, exhausted⟩
  · rw [insertFresh, bind_ok run]
    dsimp only
    by_cases fits : rowBytes.length + 5 ≤ SlottedPage.empty.freeSpace
    · have copy : ∃ more, SlottedPage.empty.freeSpace ≤ more ∧
          Spacious more (WalManager.entry made.wal.pages (Page.new pageId).id).data := by
        refine ⟨_, le_refl _, ?_⟩
        have empty := Spacious.new pageId
        rwa [← blank] at empty
      rcases insertInto_ok crowded' held (.new pageId) copy fits txnId .walInsertNewPage with
        ⟨slotId, executor', inserted, same', crowded''⟩
      have inserted' : insertInto txnId pageId frameId .walInsertNewPage rowBytes made =
          (.ok slotId, executor') := inserted
      rcases listed_enter table pageId
        (same.trans same') with
        ⟨executor'', entered, listed, keeps⟩
      refine .inl ⟨slotId, executor'', ?_, ids, fits, listed, _, keeps crowded''⟩
      rw [bind_ok inserted']
      rw [bind_apply] at entered ⊢
      exact congrArg (fun ended : Except Failure Unit × Executor =>
        (ended.1.map fun _ => (⟨pageId, slotId⟩ : Rid), ended.2)) entered
    · refine .inr (.inr (.inr ⟨ids, free, fits, ?_⟩))
      have refused := insertInto_tooLong crowded' held irrelevant blank fits txnId
        .walInsertNewPage
      split_ifs at refused ⊢
      · rcases refused with ⟨panic, executor', failed⟩
        exact ⟨panic, executor', bind_error failed⟩
      · rcases refused with ⟨executor', failed, same', crowded''⟩
        exact ⟨executor', bind_error failed, same.trans same',
          crowded''⟩
  · rw [insertFresh, bind_error run]
    exact .inr (.inl ⟨rfl, full⟩)
  · rw [insertFresh, bind_error run]
    exact .inr (.inr (.inl ⟨_, rfl, exhausted⟩))

/-- How the search for a page ends, by what there is: `length` bytes are to be placed, `pageIds` are
tried first, and `next` is the id of a new page. -/
inductive PlaceEnds (relevant : UInt32 → Prop) (room : UInt32 → ℕ) (table : String) (length : ℕ)
    (pageIds : List UInt32) (executor : Executor) {α : Type} : Except Failure α × Executor → Prop
  | kept {value : α} {executor' : Executor} {room' : UInt32 → ℕ}
      (fits : ∃ pageId ∈ pageIds, length + 5 ≤ room pageId) (same : SameLists executor executor')
      (crowded : Crowded relevant room' executor') : PlaceEnds _ _ _ _ _ _ (.ok value, executor')
  | grown {value : α} {executor' : Executor} {room' : UInt32 → ℕ} {next : UInt32}
      (ids : executor.bufferPool.disk.numPages.toNat + 1 < 2 ^ 32)
      (fits : length + 5 ≤ SlottedPage.empty.freeSpace) (fresh : ¬relevant next)
      (listed : Listed table next executor executor')
      (crowded : Crowded (fun other => other = next ∨ relevant other) room' executor') :
      PlaceEnds _ _ _ _ _ _ (.ok value, executor')
  | stuck {error : SqlError} {executor' : Executor} (stuck : Stuck executor pageIds)
      (same : executor' = executor.missed ∨ executor' = executor.record) :
      PlaceEnds _ _ _ _ _ _ (.error (.sql error), executor')
  | saturated {executor' : Executor} (free : ¬Stuck executor pageIds)
      (saturates : executor.Saturates pageIds fun pageId => length + 5 ≤ room pageId) :
      PlaceEnds _ _ _ _ _ _ (.error (.panic .overflow), executor')
  | exhausted {executor' : Executor} (free : ¬Stuck executor pageIds)
      (full : ∀ pageId ∈ pageIds, ¬length + 5 ≤ room pageId)
      (ids : ¬executor.bufferPool.disk.numPages.toNat + 1 < 2 ^ 32) :
      PlaceEnds _ _ _ _ _ _ (.error (.panic .overflow), executor')
  | overlong {executor' : Executor} (free : ¬Stuck executor pageIds)
      (full : ∀ pageId ∈ pageIds, ¬length + 5 ≤ room pageId)
      (ids : executor.bufferPool.disk.numPages.toNat + 1 < 2 ^ 32)
      (tooLong : ¬length + 5 ≤ SlottedPage.empty.freeSpace)
      (refused : ¬SlottedPage.empty.HasRoom (length % 2 ^ 16))
      (same : SameLists executor executor') (crowded : Crowded relevant room executor') :
      PlaceEnds _ _ _ _ _ _ (.error (.sql (.walInsertNewPage .pageFull)), executor')
  | overrun {panic : Panic} {executor' : Executor} (free : ¬Stuck executor pageIds)
      (full : ∀ pageId ∈ pageIds, ¬length + 5 ≤ room pageId)
      (ids : executor.bufferPool.disk.numPages.toNat + 1 < 2 ^ 32)
      (tooLong : ¬length + 5 ≤ SlottedPage.empty.freeSpace)
      (accepted : SlottedPage.empty.HasRoom (length % 2 ^ 16)) :
      PlaceEnds _ _ _ _ _ _ (.error (.panic panic), executor')

theorem placeRow_outcome (crowded : Crowded relevant room executor)
    (listed : ∀ pageId ∈ pageIds, relevant pageId) (txnId : UInt32) (table : String) :
    PlaceEnds relevant room table rowBytes.length pageIds executor
      (placeRow txnId table rowBytes pageIds executor) := by
  rw [placeRow]
  rcases insertExisting_outcome crowded listed txnId with
    ⟨pageId, inside, slotId, executor', run, fits, same, crowded'⟩ |
    ⟨between, run, full, same, numPages, crowded', free⟩ | ⟨pageId, run, -, stuck⟩ |
    ⟨executor', run, free, saturates⟩
  · rw [bind_ok run]
    exact .kept ⟨pageId, inside, fits⟩ same crowded'
  · have loose (loose : ¬between.bufferPool.Full) : ¬Stuck executor pageIds := by
      rcases free with ⟨-, rfl⟩ | ⟨notStuck, -⟩
      · exact fun stuck => loose stuck.full
      · exact notStuck
    rw [bind_ok run]
    dsimp only
    rcases insertFresh_outcome crowded' txnId table with
      ⟨slotId, executor', run', ids, fits, listed', room', crowded''⟩ | ⟨run', noFrame⟩ |
      ⟨executor', run', ids, free'⟩ | ⟨ids, free', tooLong, ended⟩
    · rw [run']
      refine .grown (numPages ▸ ids) fits ?_ ⟨?_, ?_⟩ crowded''
      · exact fun isRelevant => lt_irrefl _ (crowded'.lt_numPages isRelevant)
      · rw [listed'.tablePages, same.tablePages]
      · rw [listed'.pageFiles, same.tablePages, same.pageFiles]
    · rw [run']
      rcases free with ⟨rfl, rfl⟩ | ⟨-, free⟩
      · exact .stuck ⟨noFrame, by simp⟩ (.inr rfl)
      · exact absurd noFrame free
    · rw [run']
      exact .exhausted (loose free') full (numPages ▸ ids)
    · split_ifs at ended with accepted
      · rcases ended with ⟨panic, executor', run'⟩
        rw [run']
        exact .overrun (loose free') full (numPages ▸ ids) tooLong accepted
      · rcases ended with ⟨executor', run', same', crowded''⟩
        rw [run']
        exact .overlong (loose free') full (numPages ▸ ids) tooLong accepted (same.trans same')
          crowded''
  · rw [bind_error run]
    exact .stuck stuck (.inl rfl)
  · rw [bind_error run]
    exact .saturated free saturates

/-- A flush does not fail. -/
theorem Crowded.flushPages_ok (crowded : Crowded relevant room executor) (pageId : UInt32) :
    ∃ executor', flushPages [pageId] executor = (.ok (), executor') ∧
      SameLists executor executor' ∧ Crowded relevant room executor' := by
  have flushed := shows_flushPage (unhashed_spacious room) crowded.kept pageId
    executor.bufferPool crowded.upholds
  have kept := steady_crowded.flush pageId executor crowded
  rw [flushPages, forEach]
  rw [Executor.onPool] at kept
  rcases run : BufferPool.flushPage pageId executor.bufferPool with ⟨failure | _, pool⟩
  · rw [run] at flushed
    exact flushed.elim
  · rw [run] at kept
    have done : Executor.onPool (BufferPool.flushPage pageId) executor =
        (.ok (), Executor.record { executor with bufferPool := pool }) := by
      rw [Executor.onPool, run]
    rw [bind_ok (mapError_ok done)]
    exact ⟨_, rfl, ⟨rfl, rfl⟩, kept⟩

/-- What follows when the row was placed does not fail. -/
theorem PlaceEnds.bind {table : String} {length : ℕ} {action : Action Rid}
    {next : Rid → Action (List Row)} {start : Executor}
    (ends : PlaceEnds relevant room table length pageIds executor (action start))
    (finishes : ∀ {relevant : UInt32 → Prop} {room : UInt32 → ℕ} {executor : Executor} (rid : Rid),
      Crowded relevant room executor → ∃ rows executor', next rid executor = (.ok rows, executor') ∧
        SameLists executor executor' ∧ Crowded relevant room executor') :
    PlaceEnds relevant room table length pageIds executor ((action >>= next) start) ∧
      ∀ {failure executor'}, (action >>= next) start = (.error failure, executor') →
        action start = (.error failure, executor') := by
  rw [bind_apply]
  generalize action start = ended at ends ⊢
  cases ends with
  | @kept rid _ _ fits same crowded =>
      rcases finishes rid crowded with ⟨rows, executor', run, same', crowded'⟩
      dsimp only
      rw [run]
      exact ⟨.kept fits (same.trans same') crowded', by simp⟩
  | @grown rid _ _ _ ids fits fresh listed crowded =>
      rcases finishes rid crowded with ⟨rows, executor', run, same', crowded'⟩
      dsimp only
      rw [run]
      exact ⟨.grown ids fits fresh ⟨same'.tablePages.trans listed.tablePages,
        same'.pageFiles.trans listed.pageFiles⟩ crowded', by simp⟩
  | stuck stuck same => exact ⟨.stuck stuck same, by simp⟩
  | saturated free saturates => exact ⟨.saturated free saturates, by simp⟩
  | exhausted free full ids => exact ⟨.exhausted free full ids, by simp⟩
  | overlong free full ids tooLong refused same crowded =>
      exact ⟨.overlong free full ids tooLong refused same crowded, by simp⟩
  | overrun free full ids tooLong accepted =>
      exact ⟨.overrun free full ids tooLong accepted, by simp⟩

end Place

section Statement

variable {table : String} {values : List Value} {schema : Schema}

omit [Crc32] in
/-- The key check looks at the value in the key column, and panics if there is none. -/
theorem checkInsertKey_cases (schema : Schema) (manager : IndexManager) (table : String)
    (values : List Value) :
    (∃ index, schema.pkColIndex = some index ∧ values.length ≤ index ∧
      checkInsertKey schema manager table values = .error (.panic .outOfBounds)) ∨
    ((∀ index, schema.pkColIndex = some index → index < values.length) ∧
      (checkInsertKey schema manager table values = .ok () ∨
        ∃ error, checkInsertKey schema manager table values = .error (.sql error))) := by
  rw [checkInsertKey]
  rcases keyed : schema.pkColIndex with _ | index
  · refine .inr ⟨by simp, .inl ?_⟩
    cases schema.primaryKey <;> rfl
  · have named : schema.primaryKey.isSome := by
      rw [Schema.pkColIndex] at keyed
      rcases Option.bind_eq_some_iff.mp keyed with ⟨column, here, -⟩
      exact Option.isSome_iff_exists.mpr ⟨column, here⟩
    rcases Option.isSome_iff_exists.mp named with ⟨column, here⟩
    rw [here]
    dsimp only
    by_cases short : values.length ≤ index
    · refine .inl ⟨index, rfl, short, ?_⟩
      rw [Row.cell, List.getElem?_eq_none short]
      rfl
    · have inside : index < values.length := by omega
      refine .inr ⟨fun other same => Option.some.inj same ▸ inside, ?_⟩
      rw [Row.cell, List.getElem?_eq_getElem inside]
      dsimp only [bind, Except.bind]
      cases values[index] with
      | null => exact .inr ⟨_, rfl⟩
      | int key =>
          dsimp only
          split_ifs
          · exact .inr ⟨_, rfl⟩
          · exact .inl rfl
      | float bits => exact .inl rfl
      | text s => exact .inl rfl

/-- The transaction has begun. -/
def begun (executor : Executor) : Executor := (onWal WalManager.beginTxn executor).2

omit [Crc32] in
theorem onWal_beginTxn (txns : executor.wal.nextTxnId.toNat + 1 < 2 ^ 32) :
    onWal WalManager.beginTxn executor = (.ok executor.wal.nextTxnId, executor.begun) := by
  rw [begun, onWal, WalManager.beginTxn]
  dsimp only
  rw [if_pos txns]

omit [Crc32] in
theorem onWal_beginTxn_last (last : ¬executor.wal.nextTxnId.toNat + 1 < 2 ^ 32) :
    onWal WalManager.beginTxn executor = (.error (.panic .overflow), executor.begun) := by
  rw [begun, onWal, WalManager.beginTxn]
  dsimp only
  rw [if_neg last]

/-- The row is entered in the indexes, and then it is committed and its page flushed. -/
theorem Crowded.commitRow (crowded : Crowded relevant room executor)
    (change : IndexManager → IndexManager) (txnId : UInt32) (rid : Rid) :
    ∃ rows executor', (do
        modifyIndexes change
        onWal (WalManager.commit txnId)
        flushPages [rid.pageId]
        return ([] : List Row)) executor = (.ok rows, executor') ∧
      SameLists executor executor' ∧ Crowded relevant room executor' := by
  have indexed := steady_crowded.indexes change _ crowded
  have committed := marks_crowded.commits txnId _ indexed
  rcases committed.flushPages_ok rid.pageId with ⟨executor', run, same, crowded'⟩
  refine ⟨[], executor', ?_, ⟨same.tablePages, same.pageFiles⟩, crowded'⟩
  exact bind_ok run

/-- How an `INSERT` ends: before it looks for a page, or as the search for a page ends. -/
inductive InsertEnds (relevant : UInt32 → Prop) (room : UInt32 → ℕ) (table : String)
    (values : List Value) (executor : Executor) : Except Failure (List Row) × Executor → Prop
  | refused {error : SqlError}
      (keyed : ∀ schema index, executor.catalog.get table = some schema →
        schema.pkColIndex = some index → index < values.length)
      (early : ∀ schema rowBytes, executor.catalog.get table = some schema →
        checkInsertKey schema executor.indexManager table values = .ok () →
          schema.serializeRow values ≠ .ok rowBytes) :
      InsertEnds _ _ _ _ _ (.error (.sql error), executor)
  | unlisted {schema : Schema} {error : SqlError}
      (known : executor.catalog.get table = some schema)
      (keyed : ∀ index, schema.pkColIndex = some index → index < values.length)
      (txns : executor.wal.nextTxnId.toNat + 1 < 2 ^ 32)
      (unlisted : executor.tablePages.lookup table = none) :
      InsertEnds _ _ _ _ _ (.error (.sql error), executor.begun)
  | short {schema : Schema} {index : ℕ} {panic : Panic}
      (known : executor.catalog.get table = some schema)
      (keyed : schema.pkColIndex = some index) (few : values.length ≤ index) :
      InsertEnds _ _ _ _ _ (.error (.panic panic), executor)
  | last {schema : Schema} {rowBytes : Bytes}
      (known : executor.catalog.get table = some schema)
      (checked : checkInsertKey schema executor.indexManager table values = .ok ())
      (encoded : schema.serializeRow values = .ok rowBytes)
      (last : ¬executor.wal.nextTxnId.toNat + 1 < 2 ^ 32) :
      InsertEnds _ _ _ _ _ (.error (.panic .overflow), executor.begun)
  | placed {schema : Schema} {rowBytes : Bytes} {pageIds : List UInt32}
      {ended : Except Failure (List Row) × Executor}
      (known : executor.catalog.get table = some schema)
      (keyed : ∀ index, schema.pkColIndex = some index → index < values.length)
      (checked : checkInsertKey schema executor.indexManager table values = .ok ())
      (encoded : schema.serializeRow values = .ok rowBytes)
      (txns : executor.wal.nextTxnId.toNat + 1 < 2 ^ 32)
      (listed : executor.tablePages.lookup table = some pageIds)
      (ends : PlaceEnds relevant room table rowBytes.length pageIds executor.begun ended)
      (failed : ∀ {failure executor'}, ended = (.error failure, executor') →
        placeRow executor.wal.nextTxnId table rowBytes pageIds executor.begun =
          (.error failure, executor')) :
      InsertEnds _ _ _ _ _ ended

theorem insertEnds_execInsert (crowded : Crowded relevant room executor) (table : String)
    (owned : ∀ pageIds, executor.tablePages.lookup table = some pageIds →
      ∀ pageId ∈ pageIds, relevant pageId) (values : List Value) :
    InsertEnds relevant room table values executor (execInsert table values executor) := by
  rw [execInsert]
  rcases known : executor.catalog.get table with _ | schema
  · rw [bind_error (schemaOf_of_unknown known)]
    exact .refused (by simp [known]) (by simp [known])
  · have onlySchema (other : Schema) (same : executor.catalog.get table = some other) :
        schema = other := Option.some.inj (known.symm.trans same)
    rw [bind_ok (schemaOf_of_known known), get_bind]
    rcases checkInsertKey_cases schema executor.indexManager table values with
      ⟨index, keyed, few, panics⟩ | ⟨keyed, checks⟩
    · rw [panics, ofExcept_error_bind]
      exact .short known keyed few
    have keyed' (other : Schema) (index : ℕ) (same : executor.catalog.get table = some other)
        (isKey : other.pkColIndex = some index) : index < values.length := by
      rw [← onlySchema other same] at isKey
      exact keyed index isKey
    rcases checks with checked | ⟨error, refused⟩
    · rw [checked, ofExcept_ok_bind]
      rcases Schema.serializeRow_cases schema values with
        ⟨-, rowBytes, encoded⟩ | ⟨-, error, misfit⟩
      · rw [encoded, ofExcept_ok_bind]
        by_cases txns : executor.wal.nextTxnId.toNat + 1 < 2 ^ 32
        · rw [bind_ok (onWal_beginTxn txns)]
          rcases listed : executor.tablePages.lookup table with _ | pageIds
          · have unlisted : executor.begun.tablePages.lookup table = none := listed
            rw [bind_error (pagesOf_of_unlisted unlisted)]
            exact .unlisted known keyed txns listed
          · have paged : executor.begun.tablePages.lookup table = some pageIds := listed
            rw [bind_ok (pagesOf_of_listed paged)]
            have begins : Crowded relevant room executor.begun := marks_crowded.begins _ crowded
            have places : PlaceEnds relevant room table rowBytes.length pageIds executor.begun
                (placeRow executor.wal.nextTxnId table rowBytes pageIds executor.begun) :=
              placeRow_outcome begins (owned pageIds listed) _ table
            have finishes {relevant : UInt32 → Prop} {room : UInt32 → ℕ} {placed : Executor}
                (rid : Rid) (crowded : Crowded relevant room placed) :=
              crowded.commitRow
                (IndexManager.maintain table rid (indexCells schema none (some values)))
                executor.wal.nextTxnId rid
            rcases places.bind finishes with ⟨ends, failed⟩
            exact .placed known keyed checked encoded txns listed ends failed
        · rw [bind_error (onWal_beginTxn_last txns)]
          exact .last known checked encoded txns
      · rw [misfit, ofExcept_error_bind]
        refine .refused keyed' fun other rowBytes same _ => ?_
        rw [← onlySchema other same, misfit]
        simp
    · rw [refused, ofExcept_error_bind]
      refine .refused keyed' fun other rowBytes same checked => ?_
      rw [← onlySchema other same, refused] at checked
      simp at checked

end Statement

end Executor

end VenomDb
