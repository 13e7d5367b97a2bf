import VenomDb.Engine.Runs

/-!
# What survives a restart

After statements that succeed, or fail without having changed a row, every table
answers after a restart as it did before. A row that does not fit into its place
fails an `UPDATE` in the middle: the rows before it stay rewritten until the restart.
-/

namespace VenomDb

namespace Logical

variable [Build]

/-- `SELECT * FROM table`. -/
def selectAll (logical : Logical) (table : String) : Except Failure (List Row) :=
  logical.execSelect table .star none none none

theorem selectAll_eq (logical : Logical) (table : String) :
    logical.selectAll table =
      match logical.catalog.get table, logical.tablePages.lookup table with
      | none, _ => .error (.sql (.tableNotFound table))
      | some _, none => .error (.sql (.tableMetaNotFound table))
      | some schema, some pageIds => selectRows schema .star none (logical.tuples pageIds) := by
  rw [selectAll, execSelect]
  cases logical.catalog.get table with
  | none => rfl
  | some schema =>
      cases logical.tablePages.lookup table with
      | none => rfl
      | some pageIds =>
          simp only [findRows, Option.elim_none, Executor.sortAndLimit, bind, Except.bind, pure,
            Except.pure]
          cases selectRows schema .star none (logical.tuples pageIds) <;> rfl

/-- Where the tables and the heap are the same, so are the rows. -/
theorem selectAll_congr {logical other : Logical} {table : String}
    (catalog : other.catalog.get table = logical.catalog.get table)
    (tablePages : other.tablePages.lookup table = logical.tablePages.lookup table)
    (heap : other.heap = logical.heap) : other.selectAll table = logical.selectAll table := by
  rw [selectAll_eq, selectAll_eq, catalog, tablePages]
  simp only [tuples, heap]

theorem selectAll_restart {logical : Logical} (replayable : Replayable logical) {numPages : ℕ}
    (stored : ∀ {pageId}, (logical.heap pageId).isSome → pageId.toNat < numPages)
    (order : HashOrder) (table : String) :
    (logical.restart order numPages).selectAll table = logical.selectAll table :=
  selectAll_congr (replayable.filed.loaded table) (lookup_reopened replayable numPages table)
    (Heap.below_eq stored)

end Logical

namespace Executor

variable [Crc32] [Build] {executor executor' : Executor} {logical : Logical} {order : HashOrder}

/-- `SELECT * FROM table`. -/
def selectAll (executor : Executor) (table : String) : Except Failure (List Row) :=
  (execSelect table .star none none none executor).1

/-- A scan that finds its frames gives the rows of the heap. -/
theorem Reflects.selectAll (reflects : Reflects executor logical none) (usable : logical.Usable)
    (table : String) :
    executor.selectAll table = logical.selectAll table ∨
    ((∃ failure, executor.selectAll table = .error failure) ∧ ¬executor.Ready) := by
  rcases execSelect_ends table .star none none none reflects usable with
    ⟨same, -⟩ | noFrame | overpins
  · exact .inl same
  · rcases noFrame.failed with ⟨failure, failed⟩
    exact .inr ⟨⟨_, failed⟩, fun ready => ready.not_full noFrame.full⟩
  · exact .inr ⟨⟨_, overpins.failed⟩, fun ready => ready.not_overpinned overpins.overpinned⟩

theorem Reflects.selectAll_of_ready (reflects : Reflects executor logical none)
    (usable : logical.Usable) (ready : executor.Ready) (table : String) :
    executor.selectAll table = logical.selectAll table :=
  (reflects.selectAll usable table).resolve_right fun failed => failed.2 ready

/-- After statements that all succeeded, a restart changes no answer and no schema. -/
theorem restart_transparent (reachable : Reachable Succeeds executor) (order : HashOrder) :
    ∃ info executor', start order executor.files = (.ok info, executor') ∧
      (∀ table, executor'.selectAll table = executor.selectAll table) ∧
      (∀ table, executor'.catalog.get table = executor.catalog.get table) ∧
      executor'.catalog.indexDefs = executor.catalog.indexDefs := by
  rcases reachable.follows_done with ⟨logical, rests, follows, idle⟩
  have sound := follows.sound .inl
  rcases rests.restart sound order with ⟨info, executor', run, rests', idle'⟩
  have sound' := sound.restart order rests.inside
  have catalog : executor.catalog = logical.catalog := rests.reflects.catalog_eq
  have catalog' : executor'.catalog = CatalogFile.load logical.catalogFile :=
    rests'.reflects.catalog_eq
  refine ⟨info, executor', run, fun table => ?_, fun table => ?_, ?_⟩
  · rw [rests.reflects.selectAll_of_ready sound.usable idle.ready,
      rests'.reflects.selectAll_of_ready sound'.usable idle'.ready,
      Logical.selectAll_restart sound.replayable rests.inside]
  · rw [catalog, catalog']
    exact sound.filed.loaded table
  · rw [catalog, catalog']
    exact sound.filed.indexDefs

/-- A statement that fails without having changed a row costs no table its rows. -/
theorem session_survives {stmts : List Statement} (session : Session IsSpared stmts executor)
    (order : HashOrder) :
    ∃ info executor', start order executor.files = (.ok info, executor') ∧
      ∀ table rows, executor.selectAll table = .ok rows → executor'.selectAll table = .ok rows := by
  rcases session.reachable.follows with ⟨logical, rests, follows⟩
  have sound := follows.sound id
  rcases rests.restart sound order with ⟨info, executor', run, rests', idle'⟩
  have sound' := sound.restart order rests.inside
  refine ⟨info, executor', run, fun table rows answered => ?_⟩
  rw [rests'.reflects.selectAll_of_ready sound'.usable idle'.ready,
    Logical.selectAll_restart sound.replayable rests.inside, ← answered]
  rcases rests.reflects.selectAll sound.usable table with same | ⟨⟨failure, failed⟩, -⟩
  · exact same.symm
  · rw [failed] at answered
    simp at answered

end Executor

namespace Logical

variable {logical : Logical}

/-- What an `UPDATE` without a change leaves alone. -/
structure SameTables (logical other : Logical) : Prop where
  catalog : other.catalog = logical.catalog
  tablePages : other.tablePages = logical.tablePages
  indexManager : other.indexManager = logical.indexManager
  heap : other.heap = logical.heap

theorem execUpdate_unchanged {table : String} {assignments : List Assignment} {filter : Option Expr}
    {failure : Failure}
    (failed : (logical.execUpdate table assignments filter).result = .error failure)
    (unchanged : (logical.execUpdate table assignments filter).changed = false) :
    SameTables logical (logical.execUpdate table assignments filter).state := by
  rw [execUpdate] at failed unchanged ⊢
  cases known : logical.catalog.get table with
  | none => exact ⟨rfl, rfl, rfl, rfl⟩
  | some schema =>
      cases listed : logical.tablePages.lookup table with
      | none => exact ⟨rfl, rfl, rfl, rfl⟩
      | some pageIds =>
          simp only [known, listed] at failed unchanged ⊢
          rw [transact_changed] at unchanged
          have failed : (logical.beginTxn.scan (updateStep table schema assignments filter
              logical.nextTxnId) (logical.heap.live pageIds) ()).result = .error failure := by
            rw [transact] at failed
            generalize logical.beginTxn.scan _ _ () = ended at failed ⊢
            rcases ended with ⟨_ | _, _, _⟩ <;> simp_all
          have state : (logical.transact (updateStep table schema assignments filter)
            pageIds).state =
              (logical.beginTxn.scan (updateStep table schema assignments filter logical.nextTxnId)
                (logical.heap.live pageIds) ()).state := by
            rw [transact]
            generalize logical.beginTxn.scan _ _ () = ended at failed ⊢
            rcases ended with ⟨_ | _, _, _⟩
            · rfl
            · simp at failed
          rw [state]
          rcases scan_unchanged (skips_updateStep table schema assignments filter logical.nextTxnId)
            () unchanged with ⟨result, ok, -⟩ | ⟨entry, -, _, _, -, run⟩
          · simp [failed] at ok
          · rcases updateStep_cases table schema assignments filter logical.nextTxnId entry.1
              entry.2
              logical.beginTxn with ⟨failure, run', -⟩ | ⟨-, run'⟩ |
                ⟨oldRow, row, newBytes, -, -, ⟨-, run'⟩ | ⟨-, run'⟩⟩
            · rw [← (Prod.mk.inj (run'.symm.trans run)).2]
              exact ⟨rfl, rfl, rfl, rfl⟩
            · exact absurd (congrArg Prod.fst (run'.symm.trans run)) (by simp)
            · exact absurd (congrArg Prod.fst (run'.symm.trans run)) (by simp)
            · rw [← (Prod.mk.inj (run'.symm.trans run)).2]
              exact ⟨rfl, rfl, rfl, rfl⟩

end Logical

namespace Executor

variable [Crc32] [Build] {executor executor' : Executor} {table : String}
  {assignments : List Assignment} {filter : Option Expr} {failure : Failure}

/-- An `UPDATE` that fails on the first row it selects changes no table and no index. The frame of
the page it failed on may stay pinned, so another one is needed to see that. -/
theorem update_atomic (reachable : Reachable IsSpared executor)
    (run : execUpdate table assignments filter executor = (.error failure, executor'))
    (returned : ∀ panic, failure ≠ .panic panic)
    (spares : executor.Spares (.update table assignments filter))
    (free : ∃ first second, first ≠ second ∧ executor.Available first ∧ executor.Available second)
    (room : ∀ frameId, executor.pins frameId + 2 < 2 ^ 32) :
    (∀ other, executor'.selectAll other = executor.selectAll other) ∧
      executor'.indexManager = executor.indexManager := by
  rcases reachable.follows with ⟨logical, rests, follows⟩
  rcases free with ⟨first, second, apart, firstFree, secondFree⟩
  have sound := follows.sound id
  have run : execute .ofInsertion (.update table assignments filter) executor =
      (.error failure, executor') := run
  rcases rests.execute_error sound.usable run returned spares with
    ⟨failed, unchanged, rests', frameId, advances⟩ | ⟨full, -⟩
  · have same := Logical.execUpdate_unchanged failed unchanged
    have sound' := sound.execute rests.bounded .ofInsertion (.update table assignments filter)
      (.inr unchanged)
    have indexes : executor.indexManager = logical.indexManager := rests.reflects.indexManager_eq
    have ready : executor.Ready :=
      ⟨⟨first, firstFree⟩, fun other => (Nat.lt_succ_self _).trans (room other)⟩
    have ready' : executor'.Ready := by
      refine ⟨?_, fun other => ?_⟩
      · by_cases held : frameId = first
        · exact ⟨second, advances.available (by simpa [held] using apart) secondFree⟩
        · exact ⟨first, advances.available (by simpa using held) firstFree⟩
      · exact (Nat.succ_le_succ (advances.pins_le other)).trans_lt (room other)
    refine ⟨fun other => ?_, ?_⟩
    · rw [rests.reflects.selectAll_of_ready sound.usable ready,
        rests'.reflects.selectAll_of_ready sound'.usable ready']
      exact Logical.selectAll_congr (by rw [Logical.execute, same.catalog])
        (by rw [Logical.execute, same.tablePages]) same.heap
    · rw [indexes, ← same.indexManager]
      exact rests'.reflects.indexManager_eq
  · exact absurd firstFree (full first)

end Executor

/-!
## A row that does not fit

Two rows, the second with a NULL that takes one byte. Assigning a number to it makes
the row eight bytes longer.
-/

namespace Sample

attribute [local instance] Crc32.ieee Build.debug

open Executor

def create : Statement := .createTable "t" [⟨"id", .int, true⟩, ⟨"a", .int, false⟩]

def insertSeven : Statement := .insert "t" [.int 1, .int 7]

def insertNull : Statement := .insert "t" [.int 2, .null]

def assignNine : Statement := .update "t" [⟨"a", .int 9⟩] none

/-- An `UPDATE` that selects only the row that does not fit. -/
def assignSecond : Statement := .update "t" [⟨"a", .int 9⟩] (some ⟨"id", .eq, .int 2⟩)

def opened : Logical := Logical.initial.restart .ofInsertion 0

def created : Logical := (opened.execute .ofInsertion create).state

def insertedOne : Logical := (created.execute .ofInsertion insertSeven).state

def insertedTwo : Logical := (insertedOne.execute .ofInsertion insertNull).state

/-- The rows in memory after the `UPDATE` has failed on the second one. -/
def halfAssigned : Logical := (insertedTwo.execute .ofInsertion assignNine).state

theorem attains_insertedTwo : Attains [create, insertSeven, insertNull] insertedTwo := by
  have started : Attains [] opened := attains_start .ofInsertion
  have first := started.execute .ofInsertion create ⟨by decide, by decide⟩ rfl
  have second := first.execute .ofInsertion insertSeven ⟨by decide, by decide⟩ rfl
  exact second.execute .ofInsertion insertNull ⟨by decide, by decide⟩ rfl

/-- A run on which a restart is seen to change nothing. -/
theorem restart_transparent_inserted :
    ∃ executor : Executor, Reachable Succeeds executor ∧
      executor.selectAll "t" = .ok [[.int 1, .int 7], [.int 2, .null]] ∧
      ∃ info executor', start .ofInsertion executor.files = (.ok info, executor') ∧
        (∀ table, executor'.selectAll table = executor.selectAll table) ∧
        (∀ table, executor'.catalog.get table = executor.catalog.get table) ∧
        executor'.catalog.indexDefs = executor.catalog.indexDefs := by
  rcases attains_insertedTwo with ⟨executor, session, rests, follows, idle⟩
  refine ⟨executor, session.reachable, ?_, restart_transparent session.reachable .ofInsertion⟩
  rw [rests.reflects.selectAll_of_ready (follows.sound .inl).usable idle.ready]
  rfl

theorem returns_of_succeeds (executor : Executor) (stmt : Statement)
    (result : Except Failure (List Row)) (ok : Succeeds executor stmt result) :
    Returns executor stmt result := by
  rintro panic rfl
  simp [Succeeds, Except.isOk, Except.toBool] at ok

theorem sound_halfAssigned (sound : Logical.Sound none insertedTwo) :
    Logical.Sound (some insertedTwo.nextTxnId) halfAssigned := by
  have known : insertedTwo.catalog.get "t" =
    some (Schema.new "t" [⟨"id", .int, true⟩, ⟨"a", .int, false⟩]) := rfl
  have listed : insertedTwo.tablePages.lookup "t" = some [0] := rfl
  exact (sound.scan_update known listed [⟨"a", .int 9⟩] none).sound

/-- The log after the failed `UPDATE` still tells of the rows before it. -/
theorem replays_halfAssigned (sound : Logical.Sound none insertedTwo) :
    WalManager.Replays halfAssigned.log insertedTwo.heap := by
  have log : halfAssigned.log = insertedTwo.log ++ halfAssigned.log.drop 6 := rfl
  have redone : Heap.redone halfAssigned.log = insertedTwo.heap := by
    rw [log]
    exact sound.explains.redone_append (by decide) (by decide)
  have idle : ∀ record ∈ halfAssigned.log, Heap.isUndone halfAssigned.log record = true →
      record.isData = false := by decide
  rw [← redone, ← Heap.recovered_eq idle]
  exact WalManager.replays_recovered (by decide) fun record inside undone =>
    LogRecord.undoable_of_not_data (idle record inside undone)

/-- The failed `UPDATE` shows before the restart and not after it. -/
theorem failed_update_reverts :
    ∃ stmts executor info executor', Session Returns stmts executor ∧
      start .ofInsertion executor.files = (.ok info, executor') ∧
      executor.selectAll "t" = .ok [[.int 1, .int 9], [.int 2, .null]] ∧
      executor'.selectAll "t" = .ok [[.int 1, .int 7], [.int 2, .null]] := by
  rcases attains_insertedTwo with ⟨executor, session, rests, follows, idle⟩
  have sound := follows.sound .inl
  rcases rests.execute_fails sound.usable ⟨by decide, by decide⟩ idle
    (show insertedTwo.execute .ofInsertion assignNine =
      ⟨.error (.sql .updateLarger), true, halfAssigned⟩ from rfl) (by decide) (.inr rfl) with
    ⟨failed, run, rests', ready⟩
  have session' : Session Returns _ failed :=
    (session.mono returns_of_succeeds).execute run (by rintro panic ⟨⟩)
  let before : Logical := { halfAssigned with heap := insertedTwo.heap }
  have pending := sound_halfAssigned sound
  have pages {pageId : UInt32} (present : (before.heap pageId).isSome) :
      (halfAssigned.heap pageId).isSome :=
    (pending.owned pageId).mpr ((sound.owned pageId).mp present)
  have replayable : before.Replayable :=
    ⟨sound.filed, sound.owned, sound.typed, replays_halfAssigned sound⟩
  have hold : failed.files.Hold before :=
    ⟨rests'.hold.log, rests'.hold.pages, rests'.hold.catalog, rests'.hold.small,
      fun present _ => rests'.stored (pages present)⟩
  have inside {pageId : UInt32} (present : (before.heap pageId).isSome) :
      pageId.toNat < failed.files.db.length := rests'.inside (pages present)
  rcases start_rests replayable hold inside .ofInsertion with
    ⟨info, executor', restart, rests'', idle'⟩
  refine ⟨_, failed, info, executor', session', restart, ?_, ?_⟩
  · rw [rests'.reflects.selectAll_of_ready pending.usable ready]
    rfl
  · rw [rests''.reflects.selectAll_of_ready (replayable.usable _ inside) idle'.ready,
      Logical.selectAll_restart replayable inside]
    rfl

/-- The failed `UPDATE` has changed a row. -/
theorem failed_update_shows :
    ∃ executor executor', Reachable Returns executor ∧
      execUpdate "t" [⟨"a", .int 9⟩] none executor = (.error (.sql .updateLarger), executor') ∧
      executor.selectAll "t" = .ok [[.int 1, .int 7], [.int 2, .null]] ∧
      executor'.selectAll "t" = .ok [[.int 1, .int 9], [.int 2, .null]] := by
  rcases attains_insertedTwo with ⟨executor, session, rests, follows, idle⟩
  have sound := follows.sound .inl
  rcases rests.execute_fails sound.usable ⟨by decide, by decide⟩ idle
    (show insertedTwo.execute .ofInsertion assignNine =
      ⟨.error (.sql .updateLarger), true, halfAssigned⟩ from rfl) (by decide) (.inr rfl) with
    ⟨failed, run, rests', ready⟩
  refine ⟨executor, failed, (session.mono returns_of_succeeds).reachable, run, ?_, ?_⟩
  · rw [rests.reflects.selectAll_of_ready sound.usable idle.ready]
    rfl
  · rw [rests'.reflects.selectAll_of_ready (sound_halfAssigned sound).usable ready]
    rfl

/-- The second row is the first one that `assignSecond` selects. -/
theorem spares_assignSecond {executor : Executor} (rests : Rests executor insertedTwo)
    (sound : Logical.Sound none insertedTwo) : executor.Spares assignSecond := by
  intro schema pageIds tuple known listed first
  rw [rests.reflects.catalog_eq]
    at known
  rw [rests.reflects.tablePages_eq] at listed
  rw [rests.reflects.tuplesOf (sound.usable.present listed)] at first
  rw [rests.reflects.indexManager_eq]
  obtain rfl : Schema.new "t" [⟨"id", .int, true⟩, ⟨"a", .int, false⟩] = schema :=
    Option.some.inj known
  obtain rfl : [0] = pageIds := Option.some.inj listed
  obtain rfl : Bytes.toLe 9 (2 * 256) ++ [2] = tuple := Option.some.inj first
  rfl

/-- What the second row refuses. -/
theorem assignSecond_fails {executor : Executor} (rests : Rests executor insertedTwo)
    (sound : Logical.Sound none insertedTwo) (idle : executor.Idle) :
    ∃ executor', execute .ofInsertion assignSecond executor =
      (.error (.sql .updateLarger), executor') := by
  rcases rests.execute_fails sound.usable ⟨by decide, by decide⟩ idle
    (show insertedTwo.execute .ofInsertion assignSecond = ⟨.error (.sql .updateLarger), false,
      (insertedTwo.execute .ofInsertion assignSecond).state⟩ from rfl) (by decide) (.inl rfl) with
    ⟨failed, run, rests', ready⟩
  exact ⟨failed, run⟩

/-- A session with a statement that failed and cost nothing. -/
theorem session_survives_assignSecond :
    ∃ stmts executor, Session IsSpared (stmts ++ [assignSecond]) executor ∧
      ∃ info executor', start .ofInsertion executor.files = (.ok info, executor') ∧
        ∀ table rows, executor.selectAll table = .ok rows →
          executor'.selectAll table = .ok rows := by
  rcases attains_insertedTwo with ⟨executor, session, rests, follows, idle⟩
  have sound := follows.sound .inl
  rcases assignSecond_fails rests sound idle with ⟨failed, run⟩
  have session' : Session IsSpared _ failed :=
    (session.mono fun _ _ _ ok => .inl ok).execute run
      (.inr ⟨by rintro panic ⟨⟩, spares_assignSecond rests sound⟩)
  exact ⟨_, failed, session', session_survives session' .ofInsertion⟩

/-- An `UPDATE` that failed and changed nothing. -/
theorem update_atomic_assignSecond :
    ∃ executor executor' : Executor, Reachable IsSpared executor ∧
      execute .ofInsertion assignSecond executor = (.error (.sql .updateLarger), executor') ∧
      (∀ other, executor'.selectAll other = executor.selectAll other) ∧
      executor'.indexManager = executor.indexManager := by
  rcases attains_insertedTwo with ⟨executor, session, rests, follows, idle⟩
  have sound := follows.sound .inl
  rcases assignSecond_fails rests sound idle with ⟨failed, run⟩
  have reachable : Reachable IsSpared executor := session.reachable.mono fun _ _ _ ok => .inl ok
  refine ⟨executor, failed, reachable, run, update_atomic reachable run (by rintro panic ⟨⟩)
    (spares_assignSecond rests sound) ⟨⟨0, by decide⟩, ⟨1, by decide⟩, by decide, idle.available _,
      idle.available _⟩
      idle.room⟩

end Sample

end VenomDb
