import VenomDb.Engine.Pins
import VenomDb.Engine.Restart

/-!
# Runs

A session opens a data directory, recovers it and executes statements. A run is a
sequence of sessions, each on the files that the one before left behind.

A statement that fails half way leaves its changes in memory, neither committed nor
rolled back. `Spares` says of a statement, in the state before it, that this cannot
happen: the first row it selects is already refused.
-/

namespace VenomDb

namespace Executor

section Spares

/-- The live tuples of some pages in scan order. -/
def tuplesOf [Crc32] (executor : Executor) (pageIds : List UInt32) : List Bytes :=
  pageIds.flatMap fun pageId =>
    match executor.bufferPool.view pageId with
    | none => []
    | some data =>
        let page : Page := { id := pageId, data := data, dirty := false }
        (List.range page.numSlots.toNat).filterMap fun slot =>
          (page.getTuple (UInt16.ofNat slot)).toOption.join

/-- A `WHERE` clause leaves a tuple out. -/
def skipsTuple (schema : Schema) (filter : Option Expr) (tuple : Bytes) : Bool :=
  match selectRow schema .star filter tuple with
  | .ok none => true
  | _ => false

/-- `DELETE` fails on a tuple. -/
def refusesDelete (schema : Schema) (filter : Option Expr) (tuple : Bytes) : Bool :=
  match selectRow schema .star filter tuple with
  | .error _ => true
  | .ok _ => false

/-- `UPDATE` fails on a tuple. -/
def refusesUpdate (schema : Schema) (manager : IndexManager) (table : String)
    (assignments : List Assignment) (filter : Option Expr) (tuple : Bytes) : Bool :=
  match selectRow schema .star filter tuple with
  | .error _ => true
  | .ok none => false
  | .ok (some row) =>
      match rewriteRow schema manager table assignments row with
      | .error _ => true
      | .ok (_, newBytes) => tuple.length < newBytes.length

/-- If the statement fails, it fails on the first row that it does not skip. -/
def Spares [Crc32] (executor : Executor) : Statement → Prop
  | .delete table filter => ∀ schema pageIds tuple,
      executor.catalog.get table = some schema → executor.tablePages.lookup table = some pageIds →
      (executor.tuplesOf pageIds).find? (fun tuple => !skipsTuple schema filter tuple) =
        some tuple →
      refusesDelete schema filter tuple
  | .update table assignments filter => ∀ schema pageIds tuple,
      executor.catalog.get table = some schema → executor.tablePages.lookup table = some pageIds →
      (executor.tuplesOf pageIds).find? (fun tuple => !skipsTuple schema filter tuple) =
        some tuple →
      refusesUpdate schema executor.indexManager table assignments filter tuple
  | _ => True

end Spares

section Runs

variable [Crc32] [Build]

/-- What a run asks of its statements: a condition on the state before one and its result. -/
abbrev Admits := Executor → Statement → Except Failure (List Row) → Prop

/-- Every statement returns `Ok`. -/
def Succeeds : Admits := fun _ _ result => result.isOk

/-- A statement returns `Ok` or `Err`. -/
def Returns : Admits := fun _ _ result => ∀ panic, result ≠ .error (.panic panic)

/-- A statement returns `Ok`, or `Err` without having changed a row. -/
def IsSpared : Admits := fun executor stmt result =>
  result.isOk ∨ Returns executor stmt result ∧ executor.Spares stmt

/-- The states of one session on an empty directory, after some statements. -/
inductive Session (admits : Admits) : List Statement → Executor → Prop
  | start {order : HashOrder} {info : RecoveryInfo} {executor : Executor}
      (run : start order Files.empty = (.ok info, executor)) : Session admits [] executor
  | execute {order : HashOrder} {stmts : List Statement} {stmt : Statement}
      {result : Except Failure (List Row)} {executor executor' : Executor}
      (before : Session admits stmts executor)
      (run : execute order stmt executor = (result, executor'))
      (admitted : admits executor stmt result) : Session admits (stmts ++ [stmt]) executor'

/-- The states of any number of sessions, the first one on an empty directory. -/
inductive Reachable (admits : Admits) : Executor → Prop
  | start {order : HashOrder} {info : RecoveryInfo} {executor : Executor}
      (run : start order Files.empty = (.ok info, executor)) : Reachable admits executor
  | execute {order : HashOrder} {stmt : Statement} {result : Except Failure (List Row)}
      {executor executor' : Executor} (before : Reachable admits executor)
      (run : execute order stmt executor = (result, executor'))
      (admitted : admits executor stmt result) : Reachable admits executor'
  | restart {order : HashOrder} {info : RecoveryInfo} {executor executor' : Executor}
      (before : Reachable admits executor)
      (run : Executor.start order executor.files = (.ok info, executor')) :
      Reachable admits executor'

theorem Session.mono {admits admits' : Admits} {stmts : List Statement} {executor : Executor}
    (weaker : ∀ executor stmt result, admits executor stmt result → admits' executor stmt result)
    (session : Session admits stmts executor) : Session admits' stmts executor := by
  induction session with
  | start run => exact .start run
  | execute _ run admitted ih => exact .execute ih run (weaker _ _ _ admitted)

theorem Session.reachable {admits : Admits} {stmts : List Statement} {executor : Executor}
    (session : Session admits stmts executor) : Reachable admits executor := by
  induction session with
  | start run => exact .start run
  | execute _ run admitted ih => exact .execute ih run admitted

theorem Reachable.mono {admits admits' : Admits} {executor : Executor}
    (weaker : ∀ executor stmt result, admits executor stmt result → admits' executor stmt result)
    (reachable : Reachable admits executor) : Reachable admits' executor := by
  induction reachable with
  | start run => exact .start run
  | execute _ run admitted ih => exact .execute ih run (weaker _ _ _ admitted)
  | restart _ run ih => exact .restart ih run

end Runs

end Executor

namespace Logical

/-- An empty directory. -/
def initial : Logical where
  catalog := Catalog.new
  tablePages := ∅
  indexManager := IndexManager.new
  catalogFile := none
  pageFiles := ∅
  log := []
  currentLsn := 0
  nextTxnId := 1
  numPages := 0
  heap := Heap.empty
  shadow := Heap.empty

theorem sound_initial : Sound none initial := by
  have nothing (table : String) :
    (Catalog.new.get table) = none := by simp [Catalog.new, Catalog.get]
  refine ⟨⟨?_, ?_, ?_, rfl, ?_, ?_, ?_⟩, ?_, ⟨?_⟩, ⟨?_, ?_, ?_⟩, ?_⟩
  · intro table
    rw [initial, nothing, AList.lookup_empty]
    rfl
  · intro table schema known
    rw [initial, nothing] at known
    simp at known
  · exact fun table => rfl
  · exact fun table => rfl
  · simp [initial]
  · simp [initial]
  · simp [initial, Heap.empty, Listed]
  · simp [initial]
  · simp [initial, Heap.empty]
  · simp [initial, Heap.empty]
  · simp [initial, Heap.empty]
  · exact Explains.nil

variable {ends : ScanEnd (List Row) → Prop} {logical : Logical}

/-- The states of the logical executor along runs whose statements end as `ends` says. A statement
that finds no frame available may leave a transaction that has only begun. -/
inductive Run [Build] (ends : ScanEnd (List Row) → Prop) : Logical → Prop
  | start (order : HashOrder) : Run ends (initial.restart order 0)
  | execute {logical : Logical} (before : Run ends logical) (bounded : Bounded logical)
      (order : HashOrder) (stmt : Statement) (ended : ends (logical.execute order stmt)) :
      Run ends (logical.execute order stmt).state
  | beginTxn {logical : Logical} (before : Run ends logical) : Run ends logical.beginTxn
  | restart {logical : Logical} {numPages : ℕ} (before : Run ends logical)
      (stored : ∀ {pageId}, (logical.heap pageId).isSome → pageId.toNat < numPages)
      (order : HashOrder) : Run ends (logical.restart order numPages)

/-- A statement that succeeded. -/
def Done (ended : ScanEnd (List Row)) : Prop := ∃ rows, ended.result = .ok rows

/-- A statement that succeeded or did not change a row. -/
def Kept (ended : ScanEnd (List Row)) : Prop := Done ended ∨ ended.changed = false

theorem Run.sound [Build] (kept : ∀ {ended}, ends ended → Kept ended) (run : Run ends logical) :
    Sound none logical := by
  induction run with
  | start order => exact sound_initial.restart order (by simp [initial, Heap.empty])
  | execute before bounded order stmt ended ih => exact ih.execute bounded order stmt (kept ended)
  | beginTxn before ih => exact ih.beginTxn
  | restart before stored order ih => exact ih.restart order stored

/-- A scan that is refused by the first tuple it does not skip changes nothing. -/
theorem scan_spared {step : Rid → Bytes → Unit → Fallible Failure Logical (Bool × Unit)}
    (skips refuses : Bytes → Bool) {entries : List (Rid × Bytes)} {logical : Logical}
    (skip : ∀ rid tuple, skips tuple → step rid tuple () logical = (.ok (false, ()), logical))
    (refuse : ∀ rid tuple, refuses tuple → ∃ failure, (step rid tuple () logical).1 =
      .error failure)
    (first : ∀ tuple, (entries.map Prod.snd).find? (fun tuple => !skips tuple) = some tuple →
      refuses tuple) :
    (logical.scan step entries ()).changed = false := by
  induction entries with
  | nil => rfl
  | cons entry entries ih =>
      rcases entry with ⟨rid, tuple⟩
      rw [scan]
      by_cases skipped : skips tuple = true
      · rw [skip rid tuple skipped]
        simpa [ScanEnd.after] using ih fun other found =>
          first other (by simpa [skipped] using found)
      · rcases refuse rid tuple (first tuple (by simp [skipped])) with ⟨failure, failed⟩
        generalize step rid tuple () logical = ended at failed ⊢
        rcases ended with ⟨_ | _, _⟩ <;> simp_all

theorem transact_changed (step : UInt32 → Rid → Bytes → Unit →
    Fallible Failure Logical (Bool × Unit))
    (pageIds : List UInt32) (logical : Logical) :
    (logical.transact step pageIds).changed =
      (logical.beginTxn.scan (step logical.nextTxnId) (logical.heap.live pageIds) ()).changed := by
  rw [transact]
  generalize logical.beginTxn.scan _ _ () = ended
  rcases ended with ⟨_ | _, _, _⟩ <;> rfl

/-- `INSERT` changes nothing but the log manager when it fails. -/
theorem execInsert_changed {table : String} {values : List Value} {failure : Failure}
    (failed : (logical.execInsert table values).result = .error failure) :
    (logical.execInsert table values).changed = false := by
  rw [execInsert] at failed ⊢
  cases known : logical.catalog.get table with
  | none => rfl
  | some schema =>
      rw [known] at failed
      dsimp only at failed ⊢
      generalize Executor.checkInsertKey schema logical.indexManager table values =
        checked at failed ⊢
      generalize schema.serializeRow values = encoded at failed ⊢
      rcases checked with _ | _ <;> rcases encoded with _ | rowBytes
      · rfl
      · rfl
      · rfl
      · cases listed : logical.tablePages.lookup table with
        | none => rfl
        | some pageIds =>
            rw [listed] at failed
            simp only [insertBytes] at failed ⊢
            cases placed : logical.beginTxn.place table rowBytes.length pageIds with
            | none => rfl
            | some place => simp [placed] at failed

end Logical

namespace Executor

variable [Crc32] {executor executor' : Executor} {logical : Logical}

/-- The tuples that the pool holds are those of the heap. -/
theorem Reflects.tuplesOf {inUse : Option FrameId} (reflects : Reflects executor logical inUse)
    {pageIds : List UInt32} (present : ∀ pageId ∈ pageIds, (logical.heap pageId).isSome) :
    executor.tuplesOf pageIds = logical.tuples pageIds := by
  rw [Executor.tuplesOf, Logical.tuples, Heap.live, List.map_flatMap]
  apply List.flatMap_congr
  intro pageId inside
  rcases Option.isSome_iff_exists.mp (present pageId inside) with ⟨page, found⟩
  rcases reflects.heap found with ⟨data, seen, represents⟩
  let concrete : Page := { id := pageId, data := data, dirty := false }
  have represents : Represents concrete.data page := represents
  rw [seen, Heap.liveIn, Heap.slots, found, List.map_filterMap, List.filterMap_map]
  simp only [Option.elim_some, ← represents.numSlots_eq]
  apply List.filterMap_congr
  intro slot _
  rw [represents.getTuple_eq]
  simp [Heap.get, found, Except.toOption]

/-- In the terms of the logical executor, a spared statement changes no row if it fails. -/
theorem Rests.changed_of_spares [Build] (rests : Rests executor logical) (usable : logical.Usable)
    (order : HashOrder) {stmt : Statement} (spares : executor.Spares stmt) {failure : Failure}
    (failed : (logical.execute order stmt).result = .error failure) :
    (logical.execute order stmt).changed = false := by
  have catalog : executor.catalog = logical.catalog := rests.reflects.catalog_eq
  have tablePages : executor.tablePages = logical.tablePages := rests.reflects.tablePages_eq
  have indexes : executor.indexManager = logical.indexManager := rests.reflects.indexManager_eq
  cases stmt with
  | createTable table columns =>
      rw [Logical.execute, Logical.execCreateTable]
      split <;> rfl
  | insert table values => exact Logical.execInsert_changed failed
  | select table columns filter orderBy limit => rfl
  | delete table filter =>
      rw [Logical.execute, Logical.execDelete]
      cases known : logical.catalog.get table with
      | none => rfl
      | some schema =>
          cases listed : logical.tablePages.lookup table with
          | none => rfl
          | some pageIds =>
              dsimp only
              rw [Logical.transact_changed]
              apply Logical.scan_spared (skipsTuple schema filter) (refusesDelete schema filter)
              · intro rid tuple skipped
                rcases Logical.deleteStep_cases table schema filter logical.nextTxnId rid tuple
                  logical.beginTxn with ⟨failure, other, -⟩ | ⟨-, run⟩ | ⟨row, other, -⟩
                · simp [skipsTuple, other] at skipped
                · exact run
                · simp [skipsTuple, other] at skipped
              · intro rid tuple refused
                rcases Logical.deleteStep_cases table schema filter logical.nextTxnId rid tuple
                  logical.beginTxn with ⟨failure, -, run⟩ | ⟨other, -⟩ | ⟨row, other, -⟩
                · exact ⟨failure, by rw [run]⟩
                · simp [refusesDelete, other] at refused
                · simp [refusesDelete, other] at refused
              · intro tuple found
                refine spares schema pageIds tuple (by rw [catalog, known])
                  (by rw [tablePages, listed]) ?_
                rw [rests.reflects.tuplesOf (usable.present listed)]
                exact found
  | update table assignments filter =>
      rw [Logical.execute, Logical.execUpdate]
      cases known : logical.catalog.get table with
      | none => rfl
      | some schema =>
          cases listed : logical.tablePages.lookup table with
          | none => rfl
          | some pageIds =>
              dsimp only
              rw [Logical.transact_changed]
              apply Logical.scan_spared (skipsTuple schema filter)
                (refusesUpdate schema logical.indexManager table assignments filter)
              · intro rid tuple skipped
                rcases Logical.updateStep_cases table schema assignments filter logical.nextTxnId
                  rid
                  tuple logical.beginTxn with ⟨failure, -, other | ⟨row, other, -⟩⟩ | ⟨-, run⟩ |
                  ⟨oldRow, row, newBytes, other, -⟩
                · simp [skipsTuple, other] at skipped
                · simp [skipsTuple, other] at skipped
                · exact run
                · simp [skipsTuple, other] at skipped
              · intro rid tuple refused
                rcases Logical.updateStep_cases table schema assignments filter logical.nextTxnId
                  rid
                  tuple logical.beginTxn with ⟨failure, run, -⟩ | ⟨other, -⟩ |
                  ⟨oldRow, row, newBytes, selected, rewritten, ⟨fits, -⟩ | ⟨-, run⟩⟩
                · exact ⟨failure, by rw [run]⟩
                · simp [refusesUpdate, other] at refused
                · have rewritten : rewriteRow schema logical.indexManager table assignments oldRow =
                      .ok (row, newBytes) := rewritten
                  simp [refusesUpdate, selected, rewritten] at refused
                  omega
                · exact ⟨_, by rw [run]⟩
              · intro tuple found
                rw [← indexes]
                refine spares schema pageIds tuple (by rw [catalog, known])
                  (by rw [tablePages, listed]) ?_
                rw [rests.reflects.tuplesOf (usable.present listed)]
                exact found

theorem Rests.bounded (rests : Rests executor logical) : logical.Bounded :=
  ⟨rests.reflects.numPages_lt, rests.reflects.heap_lt⟩

/-- Between statements the files say what the executor says. -/
theorem Rests.hold (rests : Rests executor logical) : executor.files.Hold logical where
  log := rests.reflects.log_eq
  pages := rests.reflects.pageFiles_eq
  catalog := rests.reflects.catalogFile_eq
  small := lt_of_le_of_lt rests.reflects.coherent.fileLength (UInt32.toNat_lt _)
  intact := fun present _ => rests.stored present

theorem Rests.inside (rests : Rests executor logical) {pageId : UInt32}
    (present : (logical.heap pageId).isSome) : pageId.toNat < executor.files.db.length := by
  rcases Option.isSome_iff_exists.mp (rests.stored present) with ⟨data, found⟩
  exact DiskManager.stored_lt found

/-- Opening files that hold all pages. -/
theorem start_rests {files : Files} (replayable : logical.Replayable) (hold : files.Hold logical)
    (inside : ∀ {pageId}, (logical.heap pageId).isSome → pageId.toNat < files.db.length)
    (order : HashOrder) :
    ∃ info executor, start order files = (.ok info, executor) ∧
      Rests executor (logical.restart order files.db.length) ∧ executor.Idle := by
  rcases start_ends replayable hold order with ⟨info, executor, run, reflects, stored⟩
  refine ⟨info, executor, run, ⟨reflects, fun {pageId} present => stored ?_⟩, idle_of_start run⟩
  have same : (logical.restart order files.db.length).heap = logical.heap := Heap.below_eq inside
  rw [same] at present
  exact hold.intact present (inside present)

/-- A clean restart. -/
theorem Rests.restart (rests : Rests executor logical) (sound : Logical.Sound none logical)
    (order : HashOrder) :
    ∃ info executor', start order executor.files = (.ok info, executor') ∧
      Rests executor' (logical.restart order executor.files.db.length) ∧ executor'.Idle :=
  start_rests sound.replayable rests.hold rests.inside order

theorem start_empty (order : HashOrder) :
    ∃ info executor, start order Files.empty = (.ok info, executor) ∧
      Rests executor (Logical.initial.restart order 0) ∧ executor.Idle := by
  refine start_rests Logical.sound_initial.replayable ⟨rfl, rfl, rfl, by simp [Files.empty], ?_⟩ ?_
    order
  · simp [Logical.initial, Heap.empty]
  · simp [Logical.initial, Heap.empty]

variable [Build] {order : HashOrder} {stmt : Statement} {result : Except Failure (List Row)}

/-- A statement that succeeds. -/
theorem Rests.execute_ok {rows : List Row} (rests : Rests executor logical)
    (usable : logical.Usable) (run : execute order stmt executor = (.ok rows, executor')) :
    (logical.execute order stmt).result = .ok rows ∧
      Rests executor' (logical.execute order stmt).state ∧ Advances executor executor' none := by
  rcases execute_ends rests usable order stmt with ends | ⟨⟨failure, failed⟩, -⟩
  · rw [run] at ends
    generalize logical.execute order stmt = ended at ends ⊢
    rcases ended with ⟨_ | expected, changed, logical'⟩
    · exact ends.elim
    · rcases ends with ⟨rfl, rests', advances⟩
      exact ⟨rfl, rests', advances⟩
  · rw [run] at failed
    simp at failed

/-- A statement that fails and changes no row. -/
theorem Rests.execute_error {failure : Failure} (rests : Rests executor logical)
    (usable : logical.Usable) (run : execute order stmt executor = (.error failure, executor'))
    (returned : ∀ panic, failure ≠ .panic panic) (spares : executor.Spares stmt) :
    ((logical.execute order stmt).result = .error failure ∧
      (logical.execute order stmt).changed = false ∧
      Rests executor' (logical.execute order stmt).state ∧
      ∃ frameId, Advances executor executor' (some frameId)) ∨
    ((∀ frameId, ¬executor.Available frameId) ∧
      (Rests executor' logical ∨ Rests executor' logical.beginTxn) ∧
      Advances executor executor' none) := by
  rcases execute_ends rests usable order stmt with ends | ⟨-, full, rests', advances⟩
  · left
    have spared {failure : Failure}
      (failed : (logical.execute order stmt).result = .error failure) :=
      rests.changed_of_spares usable order spares failed
    rw [run] at ends
    generalize logical.execute order stmt = ended at ends spared ⊢
    rcases ended with ⟨expected | rows, changed, logical'⟩
    · rcases failure with _ | _ | panic
      · rcases ends with ⟨rfl, rests', advances⟩
        exact ⟨rfl, spared rfl, rests' (.inl (spared rfl)), advances⟩
      · rcases ends with ⟨rfl, rests', advances⟩
        exact ⟨rfl, spared rfl, rests' (.inl (spared rfl)), advances⟩
      · exact absurd rfl (returned panic)
    · rcases failure with _ | _ | panic
      · exact ends.elim
      · exact ends.elim
      · exact absurd rfl (returned panic)
  · rw [run] at rests' advances
    exact .inr ⟨full, rests', advances⟩

/-- Runs without a change by a failing statement follow the logical executor. -/
theorem Reachable.follows (reachable : Reachable IsSpared executor) :
    ∃ logical, Rests executor logical ∧ Logical.Run Logical.Kept logical := by
  induction reachable with
  | @start order _ _ run =>
      rcases start_empty order with ⟨info, executor, same, rests, -⟩
      obtain ⟨-, rfl⟩ := Prod.mk.inj (same.symm.trans run)
      exact ⟨_, rests, .start order⟩
  | @execute order stmt result executor executor' before run admitted ih =>
      rcases ih with ⟨logical, rests, follows⟩
      have usable := (follows.sound id).usable
      rcases result with failure | rows
      · rcases admitted with ok | ⟨returned, spares⟩
        · simp [Except.isOk, Except.toBool] at ok
        · rcases rests.execute_error usable run (by simpa [Returns] using returned) spares with
            ⟨failed, unchanged, rests', -⟩ | ⟨-, rests' | rests', -⟩
          · exact ⟨_, rests', follows.execute rests.bounded order stmt (.inr unchanged)⟩
          · exact ⟨_, rests', follows⟩
          · exact ⟨_, rests', follows.beginTxn⟩
      · rcases rests.execute_ok usable run with ⟨ok, rests', -⟩
        exact ⟨_, rests', follows.execute rests.bounded order stmt (.inl ⟨rows, ok⟩)⟩
  | @restart order _ executor _ before run ih =>
      rcases ih with ⟨logical, rests, follows⟩
      rcases rests.restart (follows.sound id) order with ⟨info, executor', same, rests', -⟩
      obtain ⟨-, rfl⟩ := Prod.mk.inj (same.symm.trans run)
      exact ⟨_, rests', follows.restart rests.inside order⟩

/-- So do runs of statements that all succeed, and they leave no pin. -/
theorem Reachable.follows_done (reachable : Reachable Succeeds executor) :
    ∃ logical, Rests executor logical ∧ Logical.Run Logical.Done logical ∧ executor.Idle := by
  induction reachable with
  | @start order _ _ run =>
      rcases start_empty order with ⟨info, executor, same, rests, idle⟩
      obtain ⟨-, rfl⟩ := Prod.mk.inj (same.symm.trans run)
      exact ⟨_, rests, .start order, idle⟩
  | @execute order stmt result executor executor' before run admitted ih =>
      rcases ih with ⟨logical, rests, follows, idle⟩
      rcases result with failure | rows
      · simp [Succeeds, Except.isOk, Except.toBool] at admitted
      · rcases rests.execute_ok (follows.sound .inl).usable run with ⟨ok, rests', -⟩
        exact ⟨_, rests', follows.execute rests.bounded order stmt ⟨rows, ok⟩,
          (ends_execute order stmt).ok idle run⟩
  | @restart order _ executor _ before run ih =>
      rcases ih with ⟨logical, rests, follows, -⟩
      rcases rests.restart (follows.sound .inl) order with ⟨info, executor', same, rests', idle⟩
      obtain ⟨-, rfl⟩ := Prod.mk.inj (same.symm.trans run)
      exact ⟨_, rests', follows.restart rests.inside order, idle⟩

/-- A run of statements that all succeed leaves no pin. -/
theorem Reachable.idle (reachable : Reachable Succeeds executor) : executor.Idle := by
  rcases reachable.follows_done with ⟨logical, rests, follows, idle⟩
  exact idle

section Attains

/-- No counter is at its end. -/
structure Roomy (logical : Logical) : Prop where
  txnIds : logical.nextTxnId.toNat + 1 < 2 ^ 32
  pageIds : logical.numPages + 1 < 2 ^ 32

omit [Build] in
theorem Rests.not_exhausted (rests : Rests executor logical) (roomy : Roomy logical)
    (ready : executor.Ready) : ¬executor.Exhausted := by
  rw [Exhausted, rests.reflects.nextTxnId_eq, rests.reflects.numPages_eq, not_or, not_or, not_not,
    not_not]
  exact ⟨roomy.txnIds, roomy.pageIds, ready.not_overpinned⟩

/-- A statement succeeds if it does so logically. -/
theorem Rests.execute_succeeds {rows : List Row} (rests : Rests executor logical)
    (usable : logical.Usable) (running : ¬executor.Exhausted) {frameId : FrameId}
    (available : executor.Available frameId)
    (done : (logical.execute order stmt).result = .ok rows) :
    ∃ executor', execute order stmt executor = (.ok rows, executor') := by
  rcases execute_ends rests usable order stmt with ends | ⟨-, full, -⟩
  · generalize execute order stmt executor = concrete at ends ⊢
    rcases concrete with ⟨(_ | _ | panic) | found, executor'⟩
    · generalize logical.execute order stmt = ended at ends done
      rcases ended with ⟨_ | _, _, _⟩
      · simp at done
      · exact ends.elim
    · generalize logical.execute order stmt = ended at ends done
      rcases ended with ⟨_ | _, _, _⟩
      · simp at done
      · exact ends.elim
    · rcases ends with same | same | exhausted
      · simp [done] at same
      · simp [done] at same
      · exact absurd exhausted running
    · generalize logical.execute order stmt = ended at ends done
      rcases ended with ⟨_ | expected, _, _⟩
      · exact ends.elim
      · obtain ⟨rfl, -⟩ := ends
        exact ⟨executor', congrArg (·, executor') done⟩
  · exact absurd available (full frameId)

theorem Rests.execute_done {rows : List Row} (rests : Rests executor logical)
    (usable : logical.Usable) (roomy : Roomy logical) (ready : executor.Ready)
    (done : (logical.execute order stmt).result = .ok rows) :
    ∃ executor', execute order stmt executor = (.ok rows, executor') := by
  rcases ready.available with ⟨frameId, available⟩
  exact rests.execute_succeeds usable (rests.not_exhausted roomy ready) available done

/-- A statement fails if it does so logically. -/
theorem Rests.execute_fails {failure : SqlError} {changed : Bool} {logical' : Logical}
    (rests : Rests executor logical) (usable : logical.Usable) (roomy : Roomy logical)
    (idle : executor.Idle)
    (failed : logical.execute order stmt = ⟨.error (.sql failure), changed, logical'⟩)
    (fits : failure ≠ .walInsertNewPage .pageFull)
    (tidy : changed = false ∨ failure = .updateLarger) :
    ∃ executor', execute order stmt executor = (.error (.sql failure), executor') ∧
      Rests executor' logical' ∧ executor'.Ready := by
  rcases execute_ends rests usable order stmt with ends | ⟨-, full, -⟩
  · have strands := ends_execute order stmt executor idle
    rw [failed] at ends
    generalize execute order stmt executor = concrete at ends strands ⊢
    rcases concrete with ⟨(_ | _ | panic) | rows, executor'⟩
    · exact absurd ends.1 (by simp)
    · rcases ends with ⟨same, rests', -⟩
      refine ⟨executor', by rw [same], rests' ?_, Strands.ready strands (by simp [IsPanic])⟩
      exact tidy.imp_right fun larger => by rw [same, larger]
    · rcases ends with same | same | exhausted
      · exact absurd same (by simp)
      · exact absurd (by simpa using same) fits
      · exact absurd exhausted (rests.not_exhausted roomy idle.ready)
    · exact ends.elim
  · exact absurd full idle.ready.not_full

/-- A session of successful statements comes to a logical state. -/
def Attains (stmts : List Statement) (logical : Logical) : Prop :=
  ∃ executor, Session Succeeds stmts executor ∧ Rests executor logical ∧
    Logical.Run Logical.Done logical ∧ executor.Idle

theorem attains_start (order : HashOrder) : Attains [] (Logical.initial.restart order 0) := by
  rcases start_empty order with ⟨info, executor, run, rests, idle⟩
  exact ⟨executor, .start run, rests, .start order, idle⟩

theorem Attains.execute {stmts : List Statement} {rows : List Row} (attains : Attains stmts logical)
    (order : HashOrder) (stmt : Statement) (roomy : Roomy logical)
    (done : (logical.execute order stmt).result = .ok rows) :
    Attains (stmts ++ [stmt]) (logical.execute order stmt).state := by
  rcases attains with ⟨executor, session, rests, follows, idle⟩
  have usable := (follows.sound .inl).usable
  rcases rests.execute_done usable roomy idle.ready done with ⟨executor', run⟩
  rcases rests.execute_ok usable run with ⟨-, rests', -⟩
  exact ⟨executor', session.execute run rfl, rests',
    follows.execute rests.bounded order stmt ⟨rows, done⟩, (ends_execute order stmt).ok idle run⟩

end Attains

end Executor

end VenomDb
