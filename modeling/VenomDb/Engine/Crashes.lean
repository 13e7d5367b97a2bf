import VenomDb.Engine.Ownership
import VenomDb.Engine.Pins

/-!
# Crashes and the pages of the tables

A database is opened, runs statements and crashes between two calls, any number of times. Page
lists reach the disk before the pages do, so a crash in between leaves a page listed that is not
there. If no crash falls there, every listed page can be fetched and belongs to one table.
-/

namespace VenomDb

/-- A data directory, or a database that was opened on it. -/
inductive System
  | off (files : Files)
  | on (executor : Executor)

namespace Executor

variable [Crc32]

/-- Every listed page can be fetched, and no page is listed twice. -/
structure PagesOwned (executor : Executor) : Prop where
  fetched : ∀ {table pageIds pageId}, executor.tablePages.lookup table = some pageIds →
    pageId ∈ pageIds → ∃ frameId executor', fetchPage pageId executor = (.ok frameId, executor')
  apart : ∀ {table other pageIds otherIds pageId}, executor.tablePages.lookup table = some pageIds →
    executor.tablePages.lookup other = some otherIds → pageId ∈ pageIds → pageId ∈ otherIds →
    table = other
  nodup : ∀ {table pageIds}, executor.tablePages.lookup table = some pageIds → pageIds.Nodup

/-- A page that the lists of a moment have, and those before the statement do not, is written. -/
def Written (executor : Executor) (moment : Moment) : Prop :=
  ∀ table pageIds pageId, moment.pages.lookup table = some pageIds → pageId ∈ pageIds →
    (∃ before, executor.pageFiles.lookup table = some before ∧ pageId ∈ before) ∨
      (DiskManager.stored moment.db pageId).isSome

end Executor

open Executor

section Runs

variable [Crc32] [Build]

/-- The runs of a system on an empty directory: statements that return `Ok`, and crashes at
moments of statements and of recovery. `crashes` says which moments of a statement. -/
inductive Operated (crashes : Executor → Moment → Prop) : System → Prop
  | empty : Operated crashes (.off Files.empty)
  | start {order : HashOrder} {files : Files} {info : RecoveryInfo} {executor : Executor}
      (before : Operated crashes (.off files))
      (run : Executor.start order files = (.ok info, executor)) : Operated crashes (.on executor)
  | execute {order : HashOrder} {stmt : Statement} {rows : List Row}
      {executor executor' : Executor} (before : Operated crashes (.on executor))
      (run : Executor.execute order stmt executor = (.ok rows, executor')) :
      Operated crashes (.on executor')
  | crash {order : HashOrder} {stmt : Statement} {result : Except Failure (List Row)}
      {executor executor' : Executor} {moment : Moment}
      (before : Operated crashes (.on executor))
      (run : Executor.execute order stmt executor = (result, executor'))
      (during : During executor executor' moment) (admitted : crashes executor moment) :
      Operated crashes (.off moment.toFiles)
  | crashAtRest {executor : Executor} (before : Operated crashes (.on executor)) :
      Operated crashes (.off executor.files)
  | crashInRecovery {order : HashOrder} {files : Files} {result : Except Failure RecoveryInfo}
      {executor : Executor} {moment : Moment} (before : Operated crashes (.off files))
      (run : Executor.start order files = (result, executor))
      (during : During («open» files) executor moment) : Operated crashes (.off moment.toFiles)

/-- No page is lost and none is shared, on disk or in memory. -/
def System.Sound : System → Prop
  | .off files => files.Sane ∧ files.Complete
  | .on executor => executor.Idle ∧ Assigned executor False .settled executor

namespace Executor

variable {base executor executor' : Executor} {growing growing' : Prop} {moment : Moment}

omit [Build] in
/-- What happened before does not matter to a statement. -/
theorem Assigned.start (assigned : Assigned base growing .settled executor) :
    Assigned executor growing' .settled executor :=
  ⟨assigned.nodup, assigned.apart, assigned.onFile, by simp, by simp, assigned.tabled, id, .nothing⟩

omit [Build] in
theorem Assigned.pagesOwned (assigned : Assigned base growing .settled executor)
    (idle : executor.Idle) : executor.PagesOwned where
  fetched := by
    intro table pageIds pageId listed inside
    have visible := assigned.visible ⟨pageIds, .inl listed, inside⟩
    rcases BufferPool.fetchPage_ok idle assigned.tabled visible ⟨0, by decide⟩ with
      ⟨frameId, pool, run⟩
    refine ⟨frameId, record { executor with bufferPool := pool }, ?_⟩
    exact Fallible.mapError_ok (by rw [onPool, run])
  apart := fun listed otherListed inside otherInside =>
    assigned.apart ⟨_, .inl listed, inside⟩ ⟨_, .inl otherListed, otherInside⟩
  nodup := fun listed => assigned.nodup (.inl listed)

/-- A crash at a moment at which the new page is written, if there is one, loses no page. -/
theorem Assigned.crash {order : HashOrder} {stmt : Statement} {result : Except Failure (List Row)}
    (assigned : Assigned executor False .settled executor)
    (run : execute order stmt executor = (result, executor'))
    (during : During executor executor' moment) (written : Written executor moment) :
    moment.toFiles.Sane ∧ moment.toFiles.Complete := by
  have stopped : ∃ growth, Assigned executor True growth executor' := by
    have ended := assigned_execute trivial order stmt executor assigned.start
    rw [run] at ended
    rcases result with failure | rows
    · exact ended
    · exact ⟨_, ended⟩
  rcases stopped with ⟨growth, stopped⟩
  rcases stopped.recorded.during during with ⟨sane, stored, -⟩
  refine ⟨sane, fun table pageIds pageId listed inside => ?_⟩
  rcases written table pageIds pageId listed inside with ⟨before, filed, old⟩ | onFile
  · exact stored pageId ((assigned.onFile ⟨before, .inr filed, old⟩).resolve_right (by simp))
  · exact onFile

end Executor

/-- Every step keeps the pages apart, and none is lost. -/
theorem Operated.sound {system : System} (operated : Operated Written system) : system.Sound := by
  induction operated with
  | empty =>
      refine ⟨⟨?_, ?_, by decide⟩, ?_⟩
      · simp [Files.empty]
      · simp [Files.empty]
      · simp [Files.Complete, Files.empty]
  | @start order files info executor _ run sound =>
      have kept := assigned_recover order _ (assigned_open sound.1 sound.2)
      have ended : (recover order («open» files)).2 = executor := congrArg Prod.snd run
      rw [ended] at kept
      exact ⟨idle_of_start run, kept.start⟩
  | execute _ run sound =>
      refine ⟨(ends_execute _ _).ok sound.1 run, ?_⟩
      exact ((assigned_execute trivial _ _).ok sound.2.start run).start
  | crash _ run during admitted sound => exact sound.2.crash run during admitted
  | crashAtRest _ sound =>
      exact ⟨sound.2.sane, sound.2.complete.resolve_left id⟩
  | @crashInRecovery order files result executor moment _ run during sound =>
      have kept := assigned_recover order _ (assigned_open sound.1 sound.2)
      have ended : (recover order («open» files)).2 = executor := congrArg Prod.snd run
      rw [ended] at kept
      rcases kept.recorded.during during with ⟨sane, -, complete⟩
      exact ⟨sane, complete.resolve_left id⟩

/-- In every run whose crashes fall where no page is listed that was not written, every page that a
table lists can be fetched, and no page is listed twice. -/
theorem operated_pagesOwned {executor : Executor} (operated : Operated Written (.on executor)) :
    executor.PagesOwned :=
  operated.sound.2.pagesOwned operated.sound.1

end Runs

namespace Sample

attribute [local instance] Crc32.ieee Build.debug

theorem operated_createdDb (crashes : Executor → Moment → Prop) :
    Operated crashes (.on createdDb) := by
  have opened : Operated crashes (.on openedDb) :=
    @Operated.start _ _ crashes .ofInsertion _ _ _ .empty rfl
  have run : execute .ofInsertion create openedDb = (.ok [], createdDb) := rfl
  exact .execute opened run

/-- The row is in a page that no table lists yet. -/
def unlisted : Moment := insertedDb.history.getD 3 insertedDb.moment

/-- The database after a crash there. -/
def rolledBackDb : Executor := (Executor.start .ofInsertion unlisted.toFiles).2

/-- The statement is run again. -/
def retriedDb : Executor := (execute .ofInsertion insertSeven rolledBackDb).2

theorem written_unlisted : Written createdDb unlisted := by
  intro table pageIds pageId listed inside
  have pages : unlisted.pages = createdDb.pageFiles := rfl
  rw [pages] at listed
  exact .inl ⟨pageIds, listed, inside⟩

theorem operated_pagesOwned_retriedDb :
    retriedDb.tablePages.lookup "t" = some [0] ∧ retriedDb.PagesOwned := by
  have run : execute .ofInsertion insertSeven createdDb = (.ok [], insertedDb) := rfl
  have crashed : Operated Written (.off unlisted.toFiles) :=
    .crash (operated_createdDb _) run (during_insertedDb (show 3 < 8 by decide) rfl)
      written_unlisted
  have started : Operated Written (.on rolledBackDb) :=
    @Operated.start _ _ Written .ofInsertion _ _ _ crashed rfl
  have retried : execute .ofInsertion insertSeven rolledBackDb = (.ok [], retriedDb) := rfl
  exact ⟨rfl, operated_pagesOwned (.execute started retried)⟩

/-- The database after a crash between the commit and the flush. -/
def lostDb : Executor := (Executor.start .ofInsertion unflushed.toFiles).2

def createOther : Statement := .createTable "u" [⟨"id", .int, true⟩, ⟨"a", .int, false⟩]

def insertOther : Statement := .insert "u" [.int 3, .int 8]

/-- A second table, and a row in it. -/
def sharedDb : Executor :=
  (execute .ofInsertion insertOther (execute .ofInsertion createOther lostDb).2).2

/-- A page that is lost in a crash cannot be fetched, and another table gets its id. -/
theorem pages_shared :
    (Operated (fun _ _ => True) (.on lostDb) ∧ ¬lostDb.PagesOwned) ∧
      Operated (fun _ _ => True) (.on sharedDb) ∧
        sharedDb.tablePages.lookup "t" = some [0] ∧ sharedDb.tablePages.lookup "u" = some [0] := by
  have run : execute .ofInsertion insertSeven createdDb = (.ok [], insertedDb) := rfl
  have crashed : Operated (fun _ _ => True) (.off unflushed.toFiles) :=
    .crash (operated_createdDb _) run (during_insertedDb (show 1 < 8 by decide) rfl) trivial
  have lost : Operated (fun _ _ => True) (.on lostDb) :=
    @Operated.start _ _ _ .ofInsertion _ _ _ crashed rfl
  refine ⟨⟨lost, fun owned => ?_⟩, ?_, rfl, rfl⟩
  · have listed : lostDb.tablePages.lookup "t" = some [0] := rfl
    rcases owned.fetched listed (List.mem_singleton.mpr rfl) with ⟨frameId, executor', fetched⟩
    have missing : (Executor.fetchPage 0 lostDb).1 = .error (.sql (.fetchPage 0 .unexpectedEof)) :=
      rfl
    rw [fetched] at missing
    simp at missing
  · have created : execute .ofInsertion createOther lostDb =
        (.ok [], (execute .ofInsertion createOther lostDb).2) := rfl
    have inserted : execute .ofInsertion insertOther (execute .ofInsertion createOther lostDb).2 =
        (.ok [], sharedDb) := rfl
    exact .execute (.execute lost created) inserted

end Sample

end VenomDb
