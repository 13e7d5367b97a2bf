import VenomDb.Engine.Placement

/-!
# Room in every reachable state

Every statement keeps the accounts of free space, whether it returns `Ok` or `Err`, and opening
the directory again sets them up from the log: the copies of the log manager are pushed into the
pool, and a page without a copy has no more room than an empty one.
-/

namespace VenomDb

namespace Executor

open Fallible BufferPool

variable [Crc32] {relevant : UInt32 → Prop} {room : UInt32 → ℕ} {executor executor' : Executor}
  {table : String}

/-- Every listed page is accounted for. -/
structure Stocked (relevant : UInt32 → Prop) (room : UInt32 → ℕ) (executor : Executor) :
    Prop where
  crowded : Crowded relevant room executor
  listed : ∀ {table pageIds pageId}, executor.Lists table pageIds → pageId ∈ pageIds →
    relevant pageId
  nodup : ∀ {table pageIds}, executor.Lists table pageIds → pageIds.Nodup

/-- The pages of the tables are accounted for in some way. -/
def Ample (executor : Executor) : Prop := ∃ relevant room, Stocked relevant room executor

/-- A list is empty or was there before. -/
theorem Stocked.change {room' : UInt32 → ℕ} (stocked : Stocked relevant room executor)
    (crowded : Crowded relevant room' executor')
    (lists : ∀ {table pageIds}, executor'.Lists table pageIds →
      pageIds = [] ∨ executor.Lists table pageIds) : Stocked relevant room' executor' where
  crowded := crowded
  listed := by
    intro table pageIds pageId listed inside
    rcases lists listed with rfl | listed
    · simp at inside
    · exact stocked.listed listed inside
  nodup := by
    intro table pageIds listed
    rcases lists listed with rfl | listed
    · exact List.nodup_nil
    · exact stocked.nodup listed

omit [Crc32] in
theorem SameLists.lists (same : SameLists executor executor') {pageIds : List UInt32}
    (listed : executor'.Lists table pageIds) : pageIds = [] ∨ executor.Lists table pageIds := by
  rw [Lists, same.tablePages, same.pageFiles] at listed
  exact .inr listed

omit [Crc32] in
/-- The file of a list holds what is in memory, or nothing. -/
theorem lists_filed (table : String) {other : String} {pageIds : List UInt32}
    {executor' : Executor} (pages : executor'.tablePages = executor.tablePages)
    (files : executor'.pageFiles = executor.pageFiles.insert table
      ((executor.tablePages.lookup table).getD [])) (listed : executor'.Lists other pageIds) :
    pageIds = [] ∨ executor.Lists other pageIds := by
  rw [Lists, pages, files] at listed
  rcases listed with listed | listed
  · exact .inr (.inl listed)
  · by_cases same : other = table
    · subst same
      rw [AList.lookup_insert, Option.some.injEq] at listed
      rcases here : executor.tablePages.lookup other with _ | found
      · rw [here, Option.getD_none] at listed
        exact .inl listed.symm
      · rw [here, Option.getD_some] at listed
        exact .inr (.inl (listed ▸ here))
    · rw [AList.lookup_insert_ne same] at listed
      exact .inr (.inr listed)

theorem steady_stocked : Steady (Stocked relevant room) where
  fetch := fun pageId executor stocked =>
    stocked.change (steady_crowded.fetch pageId executor stocked.crowded) .inr
  flush := fun pageId executor stocked =>
    stocked.change (steady_crowded.flush pageId executor stocked.crowded) .inr
  unpin := fun frameId dirty executor stocked =>
    stocked.change (steady_crowded.unpin frameId dirty executor stocked.crowded) .inr
  amend := fun found amended stocked =>
    stocked.change (steady_crowded.amend found amended stocked.crowded) .inr
  indexes := fun change executor stocked =>
    stocked.change (steady_crowded.indexes change executor stocked.crowded) .inr
  pageFile := fun table executor stocked =>
    stocked.change (steady_crowded.pageFile table executor stocked.crowded)
      (lists_filed table rfl rfl)
  catalogFile := fun order executor stocked =>
    stocked.change (steady_crowded.catalogFile order executor stocked.crowded) .inr

theorem marks_stocked : Marks (Stocked relevant room) where
  begins := fun executor stocked =>
    stocked.change (marks_crowded.begins executor stocked.crowded) .inr
  updates := fun txnId pageId slotId oldData newData executor stocked =>
    stocked.change (marks_crowded.updates txnId pageId slotId oldData newData executor
      stocked.crowded) .inr
  commits := fun txnId executor stocked =>
    stocked.change (marks_crowded.commits txnId executor stocked.crowded) .inr
  aborts := fun txnId executor stocked =>
    stocked.change (marks_crowded.aborts txnId executor stocked.crowded) .inr

section Statements

/-- A fresh page is listed. -/
theorem Stocked.grow {room' : UInt32 → ℕ} {next : UInt32} {pageIds : List UInt32}
    (stocked : Stocked relevant room executor)
    (here : executor.tablePages.lookup table = some pageIds) (fresh : ¬relevant next)
    (listed : Listed table next executor executor')
    (crowded : Crowded (fun other => other = next ∨ relevant other) room' executor') :
    Stocked (fun other => other = next ∨ relevant other) room' executor' := by
  have old : executor.Lists table pageIds := .inl here
  have cases {other : String} {found : List UInt32} (isListed : executor'.Lists other found) :
      found = pageIds ++ [next] ∨ executor.Lists other found := by
    rw [Lists, listed.tablePages, listed.pageFiles, here, Option.getD_some] at isListed
    by_cases same : other = table
    · subst same
      rw [AList.lookup_insert, AList.lookup_insert, or_self, Option.some.injEq] at isListed
      exact .inl isListed.symm
    · rw [AList.lookup_insert_ne same, AList.lookup_insert_ne same] at isListed
      exact .inr isListed
  refine ⟨crowded, ?_, ?_⟩
  · intro other found pageId isListed inside
    rcases cases isListed with rfl | isListed
    · rcases List.mem_append.mp inside with inside | inside
      · exact .inr (stocked.listed old inside)
      · exact .inl (List.mem_singleton.mp inside)
    · exact .inr (stocked.listed isListed inside)
  · intro other found isListed
    rcases cases isListed with rfl | isListed
    · apply List.nodup_append.mpr
      refine ⟨stocked.nodup old, List.nodup_singleton _, ?_⟩
      rintro pageId inside other isNext rfl
      rw [List.mem_singleton] at isNext
      exact fresh (isNext ▸ stocked.listed old inside)
    · exact stocked.nodup isListed

theorem Stocked.owned (stocked : Stocked relevant room executor) (pageIds : List UInt32)
    (here : executor.tablePages.lookup table = some pageIds) :
    ∀ pageId ∈ pageIds, relevant pageId :=
  fun _ inside => stocked.listed (.inl here) inside

theorem ample_execInsert (table : String) (values : List Value) :
    Ends Ample (execInsert table values) (fun _ => Ample)
      (fun failure executor => IsPanic failure ∨ executor.Ample) := by
  rintro executor ⟨relevant, room, stocked⟩
  have ends := insertEnds_execInsert stocked.crowded table stocked.owned values
  generalize execInsert table values executor = ended at ends ⊢
  have begins : Stocked relevant room executor.begun := marks_stocked.begins executor stocked
  cases ends with
  | refused keyed early => exact .inr ⟨relevant, room, stocked⟩
  | unlisted known keyed txns unlisted => exact .inr ⟨relevant, room, begins⟩
  | short known keyed few => exact .inl ⟨_, rfl⟩
  | last known checked encoded last => exact .inl ⟨_, rfl⟩
  | placed known keyed checked encoded txns listed ends failed =>
      cases ends with
      | kept fits same crowded => exact ⟨_, _, begins.change crowded same.lists⟩
      | grown ids fits fresh entered crowded =>
          exact ⟨_, _, begins.grow listed fresh entered crowded⟩
      | stuck stuck same =>
          refine .inr ⟨relevant, room, ?_⟩
          rcases same with rfl | rfl
          · exact begins.change (begins.crowded.pool
              (begins.crowded.tabled.retains.of_eq rfl rfl rfl)
              (begins.crowded.versions.of_eq rfl rfl)) .inr
          · exact begins.change begins.crowded.record .inr
      | saturated free saturates => exact .inl ⟨_, rfl⟩
      | exhausted free full ids => exact .inl ⟨_, rfl⟩
      | overlong free full ids tooLong refused same crowded =>
          exact .inr ⟨_, _, begins.change crowded same.lists⟩
      | overrun free full ids tooLong accepted => exact .inl ⟨_, rfl⟩

variable [Build]

/-- A statement that returns leaves every page accounted for. -/
theorem ample_execute (order : HashOrder) (stmt : Statement) :
    Ends Ample (execute order stmt) (fun _ => Ample)
      (fun failure executor => IsPanic failure ∨ executor.Ample) := by
  have keeps {action : Action (List Row)}
      (kept : ∀ {relevant room}, Keeps (Stocked relevant room) action) :
      Ends Ample action (fun _ => Ample) fun failure executor =>
        IsPanic failure ∨ executor.Ample := by
    have ample : Keeps Ample action := fun executor ⟨relevant, room, stocked⟩ =>
      ⟨relevant, room, kept executor stocked⟩
    exact ample.ends.failing fun _ _ holds => .inr holds
  cases stmt with
  | createTable table columns =>
      refine keeps (steady_stocked.calm.execCreateTable ?_ order columns)
      intro executor catalog stocked
      refine stocked.change ⟨stocked.crowded.tabled, stocked.crowded.visible,
        stocked.crowded.versions, stocked.crowded.copies, stocked.crowded.allocated⟩ ?_
      rintro other pageIds (listed | listed)
      · by_cases same : other = table
        · subst same
          rw [AList.lookup_insert, Option.some.injEq] at listed
          exact .inl listed.symm
        · rw [AList.lookup_insert_ne same] at listed
          exact .inr (.inl listed)
      · exact .inr (.inr listed)
  | insert table values => exact ample_execInsert table values
  | select table columns filter orderBy limit =>
      exact keeps (steady_stocked.calm.execSelect table columns filter orderBy limit)
  | delete table filter =>
      refine keeps (steady_stocked.execDelete marks_stocked ?_ table filter)
      exact fun txnId pageId slotId executor stocked =>
        stocked.change (crowded_logDelete txnId pageId slotId executor stocked.crowded) .inr
  | update table assignments filter =>
      exact keeps (steady_stocked.execUpdate marks_stocked table assignments filter)

end Statements

section Restart

variable {catalog : Catalog} {owner : UInt32 → Option Schema} {base : Executor}
  {done : List UInt32} {pageId : UInt32}

/-- The page that the file has for an id, and its free space. -/
def fileRoom (executor : Executor) (pageId : UInt32) : ℕ :=
  ((DiskManager.stored executor.bufferPool.disk.file pageId).map fun data =>
    (Page.fromBytes pageId data).freeSpace).getD 0

/-- Some of the copies have been pushed into the pool since the log was replayed. -/
structure Pushing (catalog : Catalog) (owner : UInt32 → Option Schema) (base : Executor)
    (done : List UInt32) (executor : Executor) : Prop where
  intact : Intact catalog owner none executor
  idle : executor.Idle
  same : SameLists base executor
  wal : executor.wal = base.wal
  room : ∃ room, Crowded (fun pageId => (owner pageId).isSome ∧
    (base.wal.pages.lookup pageId = none ∨ pageId ∈ done)) room executor

/-- A page without a copy has no more room than an empty one. -/
theorem Intact.pushing (intact : Intact catalog owner none base) (idle : base.Idle)
    (empty : ∀ frameId, (base.bufferPool.frames frameId).page = none) :
    Pushing catalog owner base [] base := by
  refine ⟨intact, idle, ⟨rfl, rfl⟩, rfl, fileRoom base, ?_⟩
  have spacious {pageId : UInt32} {data : PageData} (isOwned : (owner pageId).isSome)
      (present : DiskManager.stored base.bufferPool.disk.file pageId = some data) :
      Spacious (fileRoom base pageId) data := by
    rcases Option.isSome_iff_exists.mp isOwned with ⟨schema, isOwner⟩
    have spelled := intact.versions.file ⟨isOwned, by simp⟩ (fun hidden => hidden.elim) present
    rcases spelled schema isOwner with ⟨abstract, represents, -⟩
    refine ⟨abstract, represents, ?_⟩
    have concrete : Represents (Page.fromBytes pageId data).data abstract := represents
    rw [fileRoom, present, Option.map_some, Option.getD_some, concrete.freeSpace_eq]
  refine ⟨intact.tabled, fun isRelevant => intact.visible isRelevant.1, ⟨?_, ?_⟩, ?_, ?_⟩
  · intro frameId page held
    rw [empty] at held
    simp at held
  · exact fun isRelevant _ present => spacious isRelevant.1 present
  · rintro pageId ⟨isOwned, uncopied⟩
    have onFile := intact.onFile isOwned (by simp)
    rcases Option.isSome_iff_exists.mp onFile with ⟨data, present⟩
    refine ⟨_, (spacious isOwned present).le_empty, ?_⟩
    rw [WalManager.entry, uncopied.resolve_right (by simp), Option.getD_none]
    exact .new pageId
  · exact fun found => (intact.copies found).1

/-- Pushing a copy makes the page what its copy is. -/
theorem Pushing.pushPage (pushing : Pushing catalog owner base done executor)
    (owned : WalManager.Owned owner base.wal.pages) (pageId : UInt32) :
    ∃ executor', pushPage pageId executor = (.ok (), executor') ∧
      Pushing catalog owner base (pageId :: done) executor' := by
  rcases pushing.room with ⟨room, crowded⟩
  have intact' : Ends (Intact catalog owner none) (Executor.pushPage pageId)
      (fun _ => Intact catalog owner none) (fun _ _ => True) := intact_pushPage pageId
  have idle' := ends_pushPage pageId
  rcases found : executor.wal.pages.lookup pageId with _ | walPage
  · have run : Executor.pushPage pageId executor = (.ok (), executor) := by
      rw [Executor.pushPage, get_bind, found]
      rfl
    refine ⟨executor, run, pushing.intact, pushing.idle, pushing.same, pushing.wal, room,
      crowded.subset ?_⟩
    rintro other ⟨isOwned, uncopied | inside⟩
    · exact ⟨isOwned, .inl uncopied⟩
    · rcases List.mem_cons.mp inside with rfl | inside
      · exact ⟨isOwned, .inl (pushing.wal ▸ found)⟩
      · exact ⟨isOwned, .inr inside⟩
  · rcases owned pageId walPage (pushing.wal ▸ found) with ⟨schema, isOwner, spells⟩
    rcases spells with ⟨abstract, represents, -⟩
    have visible := pushing.intact.visible (by rw [isOwner]; rfl)
    rcases fetchPage_outcome pushing.intact.tabled visible with
      ⟨frameId, pool, page, fetched, held, sameId, -⟩ | ⟨-, full, -⟩ |
      ⟨-, frameId, -, saturated⟩
    · have crowded' := crowded.fetched pageId
      rw [Executor.onPool, fetched] at crowded'
      let resident := Executor.record { executor with bufferPool := pool }
      let page' : Page := { page with data := walPage.data, dirty := true }
      let edited := Executor.record
        { resident with bufferPool := resident.bufferPool.setPage frameId page' }
      let released := Executor.record
        { edited with bufferPool := edited.bufferPool.unpin frameId true }
      have fetches : tryFetchPage pageId executor = (.ok (some frameId), resident) := by
        rw [tryFetchPage, Executor.onPool, fetched]
      have run : Executor.pushPage pageId executor = (.ok (), released) := by
        rw [Executor.pushPage, get_bind, found]
        dsimp only
        rw [bind_ok fetches]
        dsimp only
        rw [onPage, bind_apply, get_bind,
          show resident.bufferPool.getPage frameId = some page from held.page]
        rfl
      refine ⟨released, run, intact'.ok pushing.intact run, idle'.ok pushing.idle run, ?_,
        pushing.wal, Function.update room pageId walPage.freeSpace, ?_⟩
      · exact ⟨pushing.same.tablePages, pushing.same.pageFiles⟩
      · have spacious : Spacious walPage.freeSpace walPage.data :=
          ⟨abstract, represents, represents.freeSpace_eq.symm⟩
        have here : Function.update room pageId walPage.freeSpace page.id = walPage.freeSpace := by
          rw [sameId]
          exact Function.update_self _ _ _
        have copied : WalManager.entry released.wal.pages page.id = walPage := by
          rw [sameId, WalManager.entry,
            show released.wal.pages.lookup pageId = some walPage from found, Option.getD_some]
        have samePage : page'.id = page.id := rfl
        have free : Spacious (Function.update room pageId walPage.freeSpace page.id)
            page'.data := by
          rw [here]
          exact spacious
        have rewritten := crowded'.rewrite held samePage (show released.bufferPool = _ from rfl)
          free ⟨walPage.freeSpace, by rw [here], by rw [copied]; exact spacious⟩
          fun other apart => ⟨Function.update_of_ne (sameId ▸ apart) _ _, rfl⟩
        refine rewritten.subset ?_
        rintro other ⟨isOwned, uncopied | inside⟩
        · exact .inr ⟨isOwned, .inl uncopied⟩
        · rcases List.mem_cons.mp inside with rfl | inside
          · exact .inl sameId.symm
          · exact .inr ⟨isOwned, .inr inside⟩
    · exact absurd (pushing.idle.free ⟨0, by decide⟩ (by simp)).2 (full _)
    · exact absurd (pushing.idle.ready.pinnable frameId) saturated

/-- Opening the directory again accounts for every listed page. -/
theorem Ample.start (ample : executor.Ample) (intact : Intact catalog owner none executor)
    {order : HashOrder} {info : RecoveryInfo}
    (run : start order executor.files = (.ok info, executor')) :
    executor'.Ample := by
  rcases ample with ⟨relevant, room, stocked⟩
  let opened := («open» executor.files).loadTables
  have reopened : Intact (CatalogFile.load executor.catalogFile) owner none opened := intact.reopen
  rw [Executor.start, recover, modify_bind] at run
  rcases bind_eq_ok run with ⟨report, replayed, replays, run⟩
  have intact' : Intact (CatalogFile.load executor.catalogFile) owner none replayed :=
    intact_recoverWal.ok ⟨reopened, rfl⟩ replays
  rw [onWal] at replays
  rcases replay : WalManager.recover opened.wal with ⟨result, wal⟩
  rw [replay] at replays
  rcases Prod.mk.inj replays with ⟨rfl, rfl⟩
  have owned := (WalManager.owned_recover reopened.attributed WalManager.owned_empty replay).1
  have pushing := intact'.pushing (pins_new rfl) fun _ => rfl
  -- every copy is pushed, one after another
  rw [get_bind] at run
  rcases forEach_simulates (fun done executor => Pushing _ owner _ done executor)
    (fun done pageId => pageId :: done)
    (fun pageId _ done _ pushing => pushing.pushPage owned pageId) [] pushing with
    ⟨pushed, pushes, pushing'⟩
  rw [bind_ok pushes] at run
  rcases pushing'.room with ⟨room', crowded⟩
  have stocked' : Stocked (fun pageId => (owner pageId).isSome) room' pushed := by
    refine ⟨crowded.subset fun pageId isOwned => ⟨isOwned, ?_⟩, ?_, ?_⟩
    · by_cases copied : wal.pages.lookup pageId = none
      · exact .inl copied
      · refine .inr ?_
        rw [List.foldl_flip_cons_eq_append, List.append_nil, List.mem_reverse,
          List.map_id', (order.pages_perm _).mem_iff]
        exact AList.mem_keys.mp (AList.lookup_isSome.mp (Option.isSome_iff_ne_none.mpr copied))
    · intro table pageIds pageId listed inside
      rcases pushing'.intact.listed listed inside with ⟨schema, -, isOwner⟩
      rw [isOwner]
      rfl
    · intro table pageIds listed
      rcases pushing'.same.lists listed with rfl | loaded
      · exact List.nodup_nil
      · rcases lists_loadTables (show opened.Lists table pageIds from loaded) with rfl | filed
        · exact List.nodup_nil
        · exact stocked.nodup (.inr filed)
  have recovered := steady_stocked.calm.recover_of_pushed order report pushed stocked'
  exact ⟨_, room', (congrArg Prod.snd run).symm ▸ recovered⟩

/-- In a new directory there is nothing to account for. -/
theorem ample_empty : («open» Files.empty).Ample := by
  refine ⟨fun _ => False, fun _ => 0, ⟨?_, fun isRelevant => isRelevant.elim, ?_,
    fun isRelevant => isRelevant.elim, ?_⟩, ?_, ?_⟩
  · exact tabled_new (by simp [DiskManager.new, Files.empty]) rfl
  · exact shows_new fun isRelevant => isRelevant.elim
  · simp [«open», WalManager.new]
  · simp [Lists, «open», Files.empty]
  · simp [Lists, «open», Files.empty]

variable [Build]

/-- In all states of all runs every listed page is accounted for. -/
theorem Reachable.ample (reachable : Reachable Returns executor) : executor.Ample := by
  induction reachable with
  | start run => exact ample_empty.start intact_empty run
  | @execute order stmt result executor executor' before run returned ih =>
      have ended := ample_execute order stmt executor ih
      rw [run] at ended
      rcases result with failure | rows
      · refine ended.resolve_left ?_
        rintro ⟨panic, rfl⟩
        exact returned panic rfl
      · exact ended
  | restart before run ih =>
      rcases before.healthy with ⟨owner, intact⟩
      exact ih.start intact run

end Restart

end Executor

end VenomDb
