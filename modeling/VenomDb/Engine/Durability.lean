import VenomDb.Engine.Moments
import VenomDb.Engine.Relational

/-!
# Crashes after the commit

A statement whose commit record is in the log is replayed after a crash, and every
table answers as after the whole statement. That needs the pages of the tables to be
in the data file: a page that an `INSERT` allocates is listed and committed before it
is written, and recovery leaves it out if the crash comes in between.
-/

namespace VenomDb

/-- Every page that a table lists can be read from the data file. -/
def Files.Complete [Crc32] (files : Files) : Prop :=
  ∀ table pageIds pageId, files.pages.lookup table = some pageIds → pageId ∈ pageIds →
    (DiskManager.stored files.db pageId).isSome

namespace Executor

variable [Crc32] [Build] {executor executor' : Executor} {logical : Logical} {order : HashOrder}
  {stmt : Statement} {result : Except Failure (List Row)} {moment : Moment}

/-- A transaction was committed between a state and a moment. -/
def CommittedAt (executor : Executor) (moment : Moment) : Prop :=
  ∃ tail lsn txnId, moment.log = executor.wal.log ++ tail ∧ LogRecord.commit lsn txnId ∈ tail

omit [Crc32] [Build] in
theorem CommittedAt.not_uncommitted (committed : CommittedAt executor moment) :
    ¬Uncommitted executor.wal.log moment.log := by
  rintro ⟨tail, log, noCommit⟩
  rcases committed with ⟨tail', lsn, txnId, log', inside⟩
  obtain rfl := List.append_cancel_left (log'.symm.trans log)
  exact noCommit lsn txnId inside

/-- Once its commit record is written, a statement succeeds, and the files but for the data file
are those of its end. -/
theorem CommittedAt.closes (rests : Rests executor logical) (changes : stmt.ChangesRows)
    (run : execute order stmt executor = (result, executor'))
    (during : During executor executor' moment) (committed : CommittedAt executor moment) :
    (∃ rows, result = .ok rows) ∧ Precedes moment executor' := by
  have closes := closes_execute changes order (.start rests.reflects.coherent.faultless)
  rw [run] at closes
  cases closes with
  | failed quiet => exact absurd (quiet.recorded.during during) committed.not_uncommitted
  | done settled =>
      rcases settled.recorded.during during with uncommitted | precedes
      · exact absurd uncommitted committed.not_uncommitted
      · exact ⟨⟨_, rfl⟩, precedes⟩

omit [Build] in
/-- The files at such a moment hold the state after the statement, if no page is missing. -/
theorem Precedes.hold (precedes : Precedes moment executor') (rests : Rests executor' logical)
    (sound : Logical.Sound none logical) (complete : moment.toFiles.Complete) :
    moment.toFiles.Hold logical ∧
      ∀ {pageId}, (logical.heap pageId).isSome → pageId.toNat < moment.db.length := by
  have stored {pageId : UInt32} (present : (logical.heap pageId).isSome) :
      (DiskManager.stored moment.db pageId).isSome := by
    rcases (sound.owned pageId).mp present with ⟨table, pageIds, listed, inside⟩
    refine complete table pageIds pageId ?_ inside
    rw [precedes.pages, rests.reflects.pageFiles_eq, sound.filed.pageFiles, listed]
  refine ⟨⟨?_, ?_, ?_, ?_, fun present _ => stored present⟩, ?_⟩
  · exact precedes.log.trans rests.hold.log
  · exact precedes.pages.trans rests.hold.pages
  · exact precedes.catalog.trans rests.hold.catalog
  · exact precedes.length.trans_lt rests.hold.small
  · intro pageId present
    rcases Option.isSome_iff_exists.mp (stored present) with ⟨data, found⟩
    exact DiskManager.stored_lt found

/-- A crash after the commit record of a statement costs nothing, if every page that a table lists
was written before: recovery gives every table the rows that it has after the whole statement. -/
theorem crash_durable (reachable : Reachable Succeeds executor) (changes : stmt.ChangesRows)
    (run : execute order stmt executor = (result, executor'))
    (during : During executor executor' moment) (committed : CommittedAt executor moment)
    (complete : moment.toFiles.Complete) (order' : HashOrder) :
    ∃ info recovered, start order' moment.toFiles = (.ok info, recovered) ∧
      (∀ table, recovered.catalog.get table = executor'.catalog.get table) ∧
      ∀ table, (executor'.catalog.get table).isSome → ∃ rows : List Row,
        recovered.selectAll table = .ok rows ∧ executor'.selectAll table = .ok rows := by
  rcases reachable.follows_done with ⟨logical, rests, follows, idle⟩
  rcases committed.closes rests changes run during with ⟨⟨rows, rfl⟩, precedes⟩
  rcases rests.execute_ok (follows.sound .inl).usable run with ⟨ok, rests', advances⟩
  have sound := (follows.sound .inl).execute rests.bounded order stmt (.inl ⟨rows, ok⟩)
  generalize (logical.execute order stmt).state = logical' at rests' sound
  rcases precedes.hold rests' sound complete with ⟨hold, inside⟩
  rcases start_rests sound.replayable hold inside order' with
    ⟨info, recovered, started, rests'', idle'⟩
  have sound' := sound.restart order' inside
  have catalog : executor'.catalog = logical'.catalog := rests'.reflects.catalog_eq
  have catalog' : recovered.catalog = CatalogFile.load logical'.catalogFile :=
    rests''.reflects.catalog_eq
  refine ⟨info, recovered, started, fun table => ?_, fun table known => ?_⟩
  · rw [catalog, catalog']
    exact sound.filed.loaded table
  · have answer := rests'.reflects.selectAll_of_ready sound.usable (advances.ready idle.ready) table
    have answer' := rests''.reflects.selectAll_of_ready sound'.usable idle'.ready table
    rw [Logical.selectAll_restart sound.replayable inside] at answer'
    rw [catalog] at known
    rcases sound.tidy.selectAll_ok known with ⟨rows, selected⟩
    exact ⟨rows, answer'.trans selected, answer.trans selected⟩

end Executor

namespace Sample

attribute [local instance] Crc32.ieee Build.debug

open Executor

def openedDb : Executor := (Executor.start .ofInsertion Files.empty).2

def createdDb : Executor := (execute .ofInsertion create openedDb).2

def insertedDb : Executor := (execute .ofInsertion insertSeven createdDb).2

theorem session_createdDb : Session Succeeds [create] createdDb := by
  have started : Session Succeeds [] openedDb := @Session.start _ _ Succeeds .ofInsertion _ _ rfl
  exact @Session.execute _ _ _ .ofInsertion _ _ _ _ _ started rfl rfl

/-- The commit record is written, the page is not. -/
def unflushed : Moment := insertedDb.history.getD 1 insertedDb.moment

/-- The page is written, too. -/
def flushed : Moment := insertedDb.history.getD 0 insertedDb.moment

theorem during_insertedDb {moment : Moment} {index : ℕ} (early : index < 8)
    (here : insertedDb.history[index]? = some moment) : During createdDb insertedDb moment := by
  refine ⟨insertedDb.history.take 8, rfl, ?_⟩
  rw [List.mem_iff_getElem?]
  exact ⟨index, by rw [List.getElem?_take_of_lt early, here]⟩

theorem complete_flushed : flushed.toFiles.Complete := by
  intro table pageIds pageId listed inside
  have pages : flushed.pages = ((∅ : AList _).insert "t" []).insert "t" [0] := rfl
  have db : ∃ data : PageData, flushed.db =
      DiskManager.store [] (0 : UInt32).toNat data.finalizeChecksum := ⟨_, rfl⟩
  rcases db with ⟨data, db⟩
  rw [pages] at listed
  by_cases same : table = "t"
  · subst same
    rw [AList.lookup_insert, Option.some.injEq] at listed
    subst listed
    obtain rfl := List.mem_singleton.mp inside
    rw [show flushed.toFiles.db = flushed.db from rfl, db, DiskManager.stored_store_self]
    rfl
  · rw [AList.lookup_insert_ne same, AList.lookup_insert_ne same, AList.lookup_empty] at listed
    simp at listed

theorem crash_durable_flushed :
    ∃ info recovered, start .ofInsertion flushed.toFiles = (.ok info, recovered) ∧
      (∀ table, recovered.catalog.get table = insertedDb.catalog.get table) ∧
      ∀ table, (insertedDb.catalog.get table).isSome → ∃ rows : List Row,
        recovered.selectAll table = .ok rows ∧ insertedDb.selectAll table = .ok rows := by
  have run : execute .ofInsertion insertSeven createdDb = (.ok [], insertedDb) := rfl
  have changes : insertSeven.ChangesRows := trivial
  refine crash_durable session_createdDb.reachable changes run
    (during_insertedDb (show 0 < 8 by decide) rfl) ?_ complete_flushed .ofInsertion
  exact ⟨flushed.log, 2, 1, rfl, List.mem_of_getElem? (show flushed.log[2]? = _ from rfl)⟩

/-- A crash between the commit and the flush: the table cannot be read any more. -/
theorem insert_lost_unflushed :
    Session Succeeds [create] createdDb ∧
      execute .ofInsertion insertSeven createdDb = (.ok [], insertedDb) ∧
      During createdDb insertedDb unflushed ∧ CommittedAt createdDb unflushed ∧
      insertedDb.selectAll "t" = .ok [[.int 1, .int 7]] ∧
      ∃ info recovered, start .ofInsertion unflushed.toFiles = (.ok info, recovered) ∧
        recovered.selectAll "t" = .error (.sql (.fetchPage 0 .unexpectedEof)) := by
  refine ⟨session_createdDb, rfl, during_insertedDb (show 1 < 8 by decide) rfl, ?_, rfl,
    _, _, rfl, rfl⟩
  exact ⟨unflushed.log, 2, 1, rfl, List.mem_of_getElem? (show unflushed.log[2]? = _ from rfl)⟩

end Sample

end VenomDb
