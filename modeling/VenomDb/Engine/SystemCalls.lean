import VenomDb.Engine.DataDirectory

/-!
# The system calls of a database

Between two moments the executor writes at most one thing: a record, a page or a file that it
replaces. So the history of a run gives its system calls, and a crash after any of them leaves a
directory that is read as the files of a moment.
-/

namespace VenomDb

open Fallible DataFolder

namespace BufferPool

section WrittenOnce

variable {poolSize : ℕ} {base : List PageData}

/-- A page was written, or none. -/
def WrittenOnce (base : List PageData) (disk : DiskManager) : Prop :=
  disk.file = base ∨ ∃ index data, disk.file = DiskManager.store base index data

theorem unwritten_systemCall {file : List PageData} :
    Keeps (fun disk : DiskManager => disk.file = file) DiskManager.systemCall := by
  intro disk same
  rw [DiskManager.systemCall]
  rcases disk.faults with _ | ⟨_ | _, faults⟩
  · exact same
  · exact same
  · exact same

variable [Crc32]

theorem writtenOnce_writePage (page : Page) :
    Ends (fun disk => disk.file = base) (DiskManager.writePage page)
      (fun _ => WrittenOnce base) (fun _ => WrittenOnce base) := by
  refine (unwritten_systemCall.ends.failing fun _ _ => .inl).bind fun _ => ?_
  apply ends_modify
  rintro disk rfl
  exact .inr ⟨_, _, rfl⟩

theorem unwritten_readPage {file : List PageData} (pageId : UInt32) :
    Keeps (fun disk : DiskManager => disk.file = file) (DiskManager.readPage pageId) := by
  intro disk same
  have kept := unwritten_systemCall disk same
  rw [DiskManager.readPage, bind_apply]
  generalize DiskManager.systemCall disk = answer at kept ⊢
  rcases answer with ⟨_ | _, disk'⟩
  · exact kept
  · dsimp only
    rw [get_bind]
    cases disk'.file[pageId.toNat]? with
    | none => exact kept
    | some data =>
        dsimp only
        split_ifs
        · exact kept
        · exact kept

theorem writtenOnce_readPage (pageId : UInt32) :
    Keeps (WrittenOnce base) (DiskManager.readPage pageId) := by
  intro disk once
  have same := unwritten_readPage pageId disk rfl
  rwa [WrittenOnce, same]

/-- A page of a frame is written at most once. -/
theorem writtenOnce_writeFrame (frameId : Fin poolSize) :
    Ends (OnDisk fun disk => disk.file = base) (writeFrame frameId)
      (fun _ => OnDisk (WrittenOnce base)) (fun _ => OnDisk (WrittenOnce base)) := by
  apply ends_get_then
  intro pool
  cases (pool.frames frameId).page with
  | none => exact ends_pure fun _ same => .inl same
  | some page =>
      apply ends_modify_bind (OnDisk fun disk => disk.file = base)
      · exact fun _ same => same
      · intro pool same
        have ended := writtenOnce_writePage page pool.disk same
        rw [onDisk]
        generalize DiskManager.writePage page pool.disk = answer at ended ⊢
        rcases answer with ⟨_ | _, disk⟩
        · exact ended
        · exact ended

/-- Only a victim is written back. -/
theorem writtenOnce_findFreeFrame :
    Ends (OnDisk fun disk => disk.file = base)
      (findFreeFrame : Fallible Failure (BufferPool poolSize) _)
      (fun _ => OnDisk (WrittenOnce base)) (fun _ => OnDisk (WrittenOnce base)) := by
  apply ends_get_then
  intro pool
  cases (List.finRange poolSize).find? fun frameId => (pool.frames frameId).isEmpty with
  | some frameId => exact ends_pure fun _ same => .inl same
  | none =>
      cases pool.replacer.evict with
      | none => exact ends_throw fun _ same => .inl same
      | some victim =>
          rcases victim with ⟨victimId, replacer⟩
          have freed : Keeps (OnDisk (WrittenOnce base)) (clearFrame victimId) := by
            refine Keeps.bind (keeps_modify fun pool here => ?_) fun _ => ?_
            · cases (pool.frames victimId).page with
              | none => exact here
              | some page => exact here
            · refine Keeps.bind (keeps_modify ?_) fun _ => keeps_pure _
              exact fun _ here => here
          dsimp only
          apply ends_modify_bind (OnDisk fun disk => disk.file = base)
          · exact fun _ same => same
          · split_ifs
            · exact (writtenOnce_writeFrame victimId).bind fun _ => freed.ends
            · exact freed.ends.imp (fun _ same => .inl same) (fun _ _ => id) fun _ _ => id

theorem writtenOnce_newPage :
    Ends (OnDisk fun disk => disk.file = base) (newPage : Fallible Failure (BufferPool poolSize) _)
      (fun _ => OnDisk (WrittenOnce base)) (fun _ => OnDisk (WrittenOnce base)) := by
  refine writtenOnce_findFreeFrame.bind fun frameId => Keeps.ends ?_
  have allocates : Keeps (WrittenOnce base) DiskManager.allocatePage := by
    intro disk once
    rw [DiskManager.allocatePage]
    split_ifs
    · exact once
    · exact once
  exact (onDisk_call allocates).bind fun pageId => onDisk_install _ _ _ _

theorem writtenOnce_fetchPage (pageId : UInt32) :
    Ends (OnDisk fun disk => disk.file = base)
      (fetchPage pageId : Fallible Failure (BufferPool poolSize) _)
      (fun _ => OnDisk (WrittenOnce base)) (fun _ => OnDisk (WrittenOnce base)) := by
  apply ends_get_then
  intro pool
  cases pool.pageTable.lookup pageId with
  | some frameId =>
      dsimp only
      split_ifs
      · apply ends_modify_bind (OnDisk fun disk => disk.file = base)
        · exact fun _ same => same
        · exact ends_pure fun _ same => .inl same
      · exact ends_throw fun _ same => .inl same
  | none =>
      apply ends_modify_bind (OnDisk fun disk => disk.file = base)
      · exact fun _ same => same
      · refine writtenOnce_findFreeFrame.bind fun frameId => Keeps.ends ?_
        exact (onDisk_call (writtenOnce_readPage pageId)).bind fun page => onDisk_install _ _ _ _

theorem writtenOnce_flushPage (pageId : UInt32) :
    Ends (OnDisk fun disk => disk.file = base)
      (flushPage pageId : Fallible Failure (BufferPool poolSize) _)
      (fun _ => OnDisk (WrittenOnce base)) (fun _ => OnDisk (WrittenOnce base)) := by
  apply ends_get_then
  intro pool
  cases pool.pageTable.lookup pageId with
  | none => exact ends_pure fun _ same => .inl same
  | some frameId =>
      dsimp only
      split_ifs
      · refine (writtenOnce_writeFrame frameId).bind fun _ => ends_modify ?_
        exact fun _ once => once
      · exact ends_pure fun _ same => .inl same

end WrittenOnce

end BufferPool

namespace Executor

section Chained

variable {α : Type} {base : Files} {executor executor' : Executor}

/-- What has happened since the directory was opened was done by system calls. -/
structure Chained (base : Files) (executor : Executor) : Prop where
  latest : latest base executor.history = executor.files
  performs : ∃ calls, Performs base executor.history calls

theorem Chained.start (base : Files) : Chained base («open» base) :=
  ⟨rfl, [], .start⟩

theorem Chained.record (chained : Chained base executor)
    (history : executor'.history = executor.history)
    (next : ∃ calls, Writes executor.files executor'.files calls) :
    Chained base executor'.record := by
  rcases chained.performs with ⟨before, performs⟩
  rcases next with ⟨calls, writes⟩
  refine ⟨rfl, before ++ calls, ?_⟩
  change Performs base (executor'.moment :: executor'.history) _
  rw [history]
  apply performs.step
  rw [chained.latest]
  exact writes

theorem chained_onPool [Crc32] {call : Fallible Failure (BufferPool frameCount) α}
    (once : ∀ file, Ends (BufferPool.OnDisk fun disk => disk.file = file) call
      (fun _ => BufferPool.OnDisk (BufferPool.WrittenOnce file))
      (fun _ => BufferPool.OnDisk (BufferPool.WrittenOnce file))) :
    Keeps (Chained base) (onPool call) := by
  intro executor chained
  have ended := once _ executor.bufferPool rfl
  have written : BufferPool.WrittenOnce executor.bufferPool.disk.file
      (call executor.bufferPool).2.disk := by
    generalize call executor.bufferPool = answer at ended ⊢
    rcases answer with ⟨_ | _, pool⟩
    · exact ended
    · exact ended
  have kept : Chained base
      (Executor.record { executor with bufferPool := (call executor.bufferPool).2 }) := by
    apply Chained.record chained
    · rfl
    change ∃ calls, Writes executor.files
      { executor.files with db := (call executor.bufferPool).2.disk.file } calls
    rcases written with same | ⟨index, data, same⟩
    · rw [same]
      exact ⟨_, .nothing⟩
    · rw [same]
      exact ⟨_, .db index data⟩
  exact kept

theorem chained_onWal {call : Fallible Failure WalManager α}
    (appends : ∀ wal, (call wal).2.log = wal.log ∨
      ∃ record, (call wal).2.log = wal.log ++ [record]) :
    Keeps (Chained base) (onWal call) := by
  intro executor chained
  have kept : Chained base
      (Executor.record { executor with wal := (call executor.wal).2 }) := by
    apply Chained.record chained
    · rfl
    change ∃ calls, Writes executor.files
      { executor.files with log := (call executor.wal).2.log } calls
    rcases appends executor.wal with same | ⟨record, same⟩
    · rw [same]
      exact ⟨_, .nothing⟩
    · rw [same]
      exact ⟨_, .log record⟩
  exact kept

theorem indifferent_chained [Crc32] : Indifferent (Chained base) where
  fetch := fun pageId => chained_onPool fun _ => BufferPool.writtenOnce_fetchPage pageId
  allocate := chained_onPool fun _ => BufferPool.writtenOnce_newPage
  flush := fun pageId => chained_onPool fun _ => BufferPool.writtenOnce_flushPage pageId
  unpin := by
    intro frameId dirty executor chained
    have kept : Chained base (Executor.record { executor with
        bufferPool := executor.bufferPool.unpin frameId dirty }) := by
      apply Chained.record chained
      · rfl
      change ∃ calls, Writes executor.files
        { executor.files with db := (executor.bufferPool.unpin frameId dirty).disk.file } calls
      rw [BufferPool.disk_unpin]
      exact ⟨_, .nothing⟩
    exact kept
  edit := fun _ _ chained => chained.record rfl ⟨_, .nothing⟩
  indexes := fun _ _ chained => ⟨chained.latest, chained.performs⟩
  pageFile := fun table _ chained => chained.record rfl ⟨_, .pages table _⟩
  catalogFile := fun _ _ chained => chained.record rfl ⟨_, .catalog _⟩

theorem chained_of_appends {kind : LogRecord → Prop} {call : Fallible Failure WalManager α}
    (appends : ∀ wal, WalManager.Appends kind wal (call wal).2) :
    Keeps (Chained base) (onWal call) := by
  apply chained_onWal
  intro wal
  rcases (appends wal).log with same | ⟨record, -, same⟩
  · exact .inl same
  · exact .inr ⟨record, same⟩

theorem transacts_chained : Transacts (Chained base) where
  begins := by
    apply chained_onWal
    intro wal
    rw [WalManager.beginTxn]
    split_ifs
    · exact .inr ⟨_, rfl⟩
    · exact .inl rfl
  inserts := fun txnId pageId rowBytes =>
    chained_of_appends (WalManager.appends_logInsert · txnId pageId rowBytes)
  updates := fun txnId pageId slotId oldData newData =>
    chained_of_appends (WalManager.appends_logUpdate · txnId pageId slotId oldData newData)
  commits := fun txnId => chained_of_appends (WalManager.appends_commit · txnId)
  aborts := fun txnId => chained_of_appends (WalManager.appends_abort · txnId)
  tables := fun _ _ chained => ⟨chained.latest, chained.performs⟩

variable [Crc32]

theorem chained_execute [Build] (order : HashOrder) (stmt : Statement) :
    Keeps (Chained base) (execute order stmt) := by
  apply indifferent_chained.execute transacts_chained
  intro table filter _
  apply indifferent_chained.steady.execDelete transacts_chained.marks
  exact fun txnId pageId slotId =>
    chained_of_appends (WalManager.appends_logDelete · txnId pageId slotId)

theorem chained_start (order : HashOrder) (files : Files) :
    Chained files (start order files).2 := by
  apply indifferent_chained.recover (fun chained => ⟨chained.latest, chained.performs⟩)
  · apply chained_onWal
    intro wal
    rcases (WalManager.recover_state : ∃ pages, (WalManager.recover wal).2 =
      { wal with pages := pages }) with ⟨pages, same⟩
    rw [same]
    exact .inl rfl
  · exact Chained.start files

end Chained

section Ran

variable [Crc32] [Build] {files : Files} {executor : Executor}

/-- A program ran on some files: it recovered, maybe with an error, and executed statements. -/
inductive Ran (files : Files) : Executor → Prop
  | recovery {order : HashOrder} {result : Except Failure RecoveryInfo} {executor : Executor}
      (run : start order files = (result, executor)) : Ran files executor
  | session {entries : List Entry} {executor : Executor} (diary : Diary files entries executor) :
      Ran files executor

theorem Diary.chained {entries : List Entry} (diary : Diary files entries executor) :
    Chained files executor := by
  induction diary with
  | @start order info executor run =>
      have chained := chained_start order files
      rwa [run] at chained
  | @execute order entries stmt result executor executor' before run ih =>
      have kept := chained_execute order stmt executor ih
      rwa [run] at kept

theorem Ran.chained (ran : Ran files executor) : Chained files executor := by
  cases ran with
  | @recovery order result executor run =>
      have chained := chained_start order files
      rwa [run] at chained
  | session diary => exact diary.chained

/-- A crash at a moment of a session leaves a directory of the decoded kind. -/
theorem Diary.directory {courses entries} {moment : Moment} (directory : Directory courses files)
    (diary : Diary files entries executor) (inside : moment ∈ executor.history) :
    ∃ courses', Directory courses' moment.toFiles := by
  induction diary with
  | @start order info executor run => exact ⟨_, .recovering directory run inside⟩
  | @execute order entries stmt result executor executor' before run ih =>
      have starts : Ledger files.log executor executor :=
        ⟨⟨List.prefix_refl _, before.ledger.continues.stamps⟩, .nothing⟩
      have ledger := ledger_execute order stmt executor starts
      rw [run] at ledger
      rcases ledger.recorded with ⟨moments, history, -⟩
      rw [history] at inside
      rcases List.mem_append.mp inside with new | old
      · exact ⟨_, .crashed directory before run ⟨moments, history, new⟩⟩
      · exact ih old

theorem Ran.directory {courses} {seen : Files} (directory : Directory courses files)
    (ran : Ran files executor) (isSeen : Seen files executor.history seen) :
    ∃ courses', Directory courses' seen := by
  rcases isSeen with rfl | ⟨moment, inside, rfl⟩
  · exact ⟨courses, directory⟩
  · cases ran with
    | recovery run => exact ⟨_, .recovering directory run inside⟩
    | session diary => exact diary.directory directory inside

end Ran

end Executor

open Executor

section Surviving

variable [Crc32] [Build]

/-- A data directory after some sessions, each cut off after any of its system calls. After a cut
in the middle of a log record no further session is run. -/
inductive Surviving : DataFolder → Prop
  | empty : Surviving ∅
  | session {folder : DataFolder} {files : Files} {executor : Executor}
      {calls part : List DataCall} (before : Surviving folder) (untorn : folder.Untorn)
      (opened : folder.decode = .ok files) (ran : Ran files executor)
      (small : ∀ moment ∈ executor.history, moment.toFiles.Small)
      (performs : Performs files executor.history calls) (cut : part <+: opening ++ calls) :
      Surviving (folder.run part)

variable {folder : DataFolder}

/-- The bytes are those of decoded files, but for a part of a record behind the log. -/
theorem Surviving.holds (surviving : Surviving folder) :
    ∃ courses files tail, Directory courses files ∧ files.Small ∧
      WalManager.readAllRecords tail = .ok [] ∧ Holds folder files tail := by
  induction surviving with
  | empty =>
      exact ⟨[], Files.empty, [], .empty, Files.small_empty, readAllRecords_nil, Holds.empty⟩
  | @session folder files executor calls part before untorn opened ran small performs cut ih =>
      rcases ih with ⟨courses, found, tail, directory, smallFound, torn, left⟩
      rw [left.decode smallFound torn] at opened
      obtain rfl : found = files := Except.ok.inj opened
      have whole := left.untorn smallFound torn untorn
      rcases Folder.prefix_append_cases cut with early | ⟨rest, later, rfl⟩
      · exact ⟨courses, found, [], directory, smallFound, readAllRecords_nil, whole.opening early⟩
      · have ready := whole.opening (List.prefix_refl opening)
        rcases performs.cut ready small later with ⟨done, tail, completed, torn, left⟩
        rcases ran.directory directory completed.seen with ⟨courses', directory'⟩
        refine ⟨courses', latest found done, tail, directory', ?_, torn, ?_⟩
        · exact completed.seen.small smallFound small
        · rw [Folder.run_append]
          exact left

/-- However the sessions before were cut off, the directory is read, and as files that the executor
reaches. On these every run has its system calls, and wherever it is cut off in its turn, the
directory is read as the files of the last moment whose calls were all made. -/
theorem Surviving.opens (surviving : Surviving folder) :
    ∃ courses files, folder.decode = .ok files ∧ Directory courses files ∧
      ∀ executor, Ran files executor → (∃ calls, Performs files executor.history calls) ∧
        (folder.Untorn → (∀ moment ∈ executor.history, moment.toFiles.Small) →
          KeepsMoments folder files executor.history) := by
  rcases surviving.holds with ⟨courses, files, tail, directory, small, torn, left⟩
  refine ⟨courses, files, left.decode small torn, directory, fun executor ran => ?_⟩
  refine ⟨ran.chained.performs, fun untorn smalls => ?_⟩
  exact (left.untorn small torn untorn).keepsMoments small smalls

end Surviving

namespace Sample

attribute [local instance] Crc32.ieee Build.debug

/-- The catalog file of the sample table. -/
def createdCatalog : CatalogFile := CatalogFile.save .ofInsertion createdDb.catalog

theorem small_createdCatalog : CatalogFile.SmallFile createdCatalog := by
  have tables : createdCatalog.tables = [("t", [⟨"id", .int, true⟩, ⟨"a", .int, false⟩])] := rfl
  have indexDefs : createdCatalog.indexDefs = [("t", "id")] := rfl
  refine ⟨by rw [tables]; decide, ?_, by rw [indexDefs]; decide, ?_, ?_⟩
  · intro table inside
    rw [tables] at inside
    rw [List.mem_singleton.mp inside]
    refine ⟨by decide, by decide, ?_⟩
    intro column inside
    rcases List.mem_pair.mp inside with rfl | rfl
    · decide
    · decide
  · intro indexDef inside
    rw [indexDefs] at inside
    rw [List.mem_singleton.mp inside]
    decide
  · intro indexDef inside
    rw [indexDefs] at inside
    rw [List.mem_singleton.mp inside]
    decide

/-- The calls that write the catalog. -/
def savesCatalog : List DataCall :=
  Folder.replace (.temporary .catalog) .catalog createdCatalog.toBytes

/-- The calls that write the page list. -/
def savesPages : List DataCall :=
  Folder.replace (.temporary (.pages "t")) (.pages "t") (PageList.toBytes [])

theorem performs_createdDb :
    Performs Files.empty createdDb.history ([] ++ [] ++ savesCatalog ++ savesPages) := by
  have replayed : Performs Files.empty openedDb.history ([] ++ []) := .step .start .nothing
  exact (replayed.step (.catalog createdCatalog)).step (.pages "t" [])

theorem small_createdDb (moment : Moment) (inside : moment ∈ createdDb.history) :
    moment.toFiles.Small := by
  have files : createdDb.history.map Moment.toFiles =
      [⟨[], [], (∅ : AList _).insert "t" [], some createdCatalog⟩,
        ⟨[], [], ∅, some createdCatalog⟩, Files.empty] := rfl
  have catalogs (file : CatalogFile) (saved : file ∈ some createdCatalog) :
      CatalogFile.SmallFile file := by
    rw [← Option.some.inj saved]
    exact small_createdCatalog
  have inside : moment.toFiles ∈ createdDb.history.map Moment.toFiles :=
    List.mem_map_of_mem inside
  rw [files] at inside
  generalize moment.toFiles = files at inside
  rcases List.mem_cons.mp inside with rfl | inside
  · refine ⟨by simp, ?_, catalogs⟩
    intro table pageIds listed
    by_cases same : table = "t"
    · subst same
      rw [AList.lookup_insert] at listed
      rw [← Option.some.inj listed]
      decide
    · rw [AList.lookup_insert_ne same] at listed
      exact absurd listed (by simp)
  · rcases List.mem_pair.mp inside with rfl | rfl
    · exact ⟨by simp, by simp, catalogs⟩
    · exact Files.small_empty

/-- The temporary catalog file has four of its bytes. -/
def halfSaved : DataFolder := Folder.run (opening ++ savesCatalog.take 5) ∅

theorem surviving_halfSaved : Surviving halfSaved := by
  have opened : Diary Files.empty [] openedDb := @Diary.start _ _ _ .ofInsertion _ _ rfl
  have created : Diary Files.empty [(create, .ok [])] createdDb :=
    opened.execute (show execute .ofInsertion create openedDb = (.ok [], createdDb) from rfl)
  have untorn : Untorn ∅ := ⟨[], readAllRecords_nil, rfl⟩
  have decoded : decode ∅ = .ok Files.empty :=
    Holds.empty.decode Files.small_empty readAllRecords_nil
  apply Surviving.session .empty untorn decoded (.session created) small_createdDb
  · exact performs_createdDb
  apply (List.prefix_append_right_inj opening).mpr
  exact (List.take_prefix 5 savesCatalog).trans (List.prefix_append _ _)

theorem opens_halfSaved :
    ∃ courses files, halfSaved.decode = .ok files ∧ Directory courses files ∧
      ∀ executor, Ran files executor → (∃ calls, Performs files executor.history calls) ∧
        (halfSaved.Untorn → (∀ moment ∈ executor.history, moment.toFiles.Small) →
          KeepsMoments halfSaved files executor.history) :=
  surviving_halfSaved.opens

end Sample

end VenomDb
