import VenomDb.Buffer.Frames
import VenomDb.Buffer.Saturation
import VenomDb.Engine.Healthy
import VenomDb.Engine.Leaks
import VenomDb.Engine.OrderBy

/-!
# How a `SELECT` can panic

In every reachable state the rows of a table decode, every column that a row is asked for is
there, and so is the `ORDER BY` column of a projected row. What is left is arithmetic: an index
answers `>` and `<` with a closed range, whose bound is next to the literal, and every fetch of a
page counts a pin in a `u32`.
-/

namespace VenomDb

namespace Executor

open Fallible BufferPool

variable [Crc32]

section Pins

variable {catalog : Catalog} {owner : UInt32 → Option Schema} {schema : Schema}
  {columns : SelectColumns} {filter : Option Expr} {pageIds : List UInt32} {frameId : FrameId}
  {pageId : UInt32}

/-- Every page of the table has its type and can be pinned once more. -/
def Unspent (catalog : Catalog) (owner : UInt32 → Option Schema) (pageIds : List UInt32)
    (executor : Executor) : Prop :=
  Intact catalog owner none executor ∧ executor.bufferPool.PinsLeft pageIds

/-- The same while one page is held in a frame. -/
def Pinning (catalog : Catalog) (owner : UInt32 → Option Schema) (pageIds : List UInt32)
    (pageId : UInt32) (frameId : FrameId) (executor : Executor) : Prop :=
  Within catalog owner none pageId frameId executor ∧ executor.bufferPool.Loaded pageIds frameId

/-- A fetch of one of the pages does not panic. -/
theorem unspent_fetchPage (isOwner : owner pageId = some schema) (inside : pageId ∈ pageIds) :
    Ends (Unspent catalog owner pageIds) (fetchPage pageId) (Pinning catalog owner pageIds pageId)
      (fun failure _ => ¬IsPanic failure) := by
  rintro executor ⟨intact, left⟩
  have fetched := intact_fetchPage pageId executor intact
  have visible : executor.bufferPool.Visible pageId := intact.visible (by simp [isOwner])
  rw [fetchPage, mapError, onPool] at fetched ⊢
  rcases fetchPage_outcome intact.tabled visible with
    ⟨frameId, pool, page, run, -⟩ | ⟨run, -⟩ | ⟨-, saturated⟩
  · rw [run] at fetched ⊢
    exact ⟨fetched, loaded_fetchPage left run⟩
  · rw [run]
    simp [IsPanic, Failure.wrapIo]
  · exact absurd saturated (left pageId inside)

theorem pinning_unpin (dirty : Bool) {failed : Failure → Executor → Prop} :
    Ends (Pinning catalog owner pageIds pageId frameId)
      (modifyPool (BufferPool.unpin frameId dirty)) (fun _ => Unspent catalog owner pageIds)
        failed :=
  ends_modify fun _ pinning =>
    ⟨pinning.1.intact.unpin frameId dirty, BufferPool.Loaded.unpin pinning.2 dirty⟩

/-- What keeps the state keeps the pins that are left. -/
theorem pinning_of_keeps {α : Type} {action : Action α} {after : α → Executor → Prop}
    {failed : Failure → Executor → Prop}
    (within : Ends (Within catalog owner none pageId frameId) action after failed)
    (keeps : ∀ holds : Executor → Prop, Keeps holds action) :
    Ends (Pinning catalog owner pageIds pageId frameId) action
      (fun value executor => after value executor ∧ executor.bufferPool.Loaded pageIds frameId)
      failed :=
  (within.and (keeps fun executor => executor.bufferPool.Loaded pageIds frameId).ends).failing
    fun _ _ ended => ended.1

theorem unspent_scanPages (columns : SelectColumns) (filter : Option Expr)
    (owned : ∀ pageId ∈ pageIds, owner pageId = some schema) {among : List UInt32}
    (inside : ∀ pageId ∈ among, pageId ∈ pageIds) (results : List Row) :
    Ends (Unspent catalog owner pageIds) (scanPages (fun _ _ _ _ tuple results => do
        let row ← Fallible.ofExcept (selectRow schema columns filter tuple)
        return (false, results ++ row.toList)) among results)
      (fun _ => Unspent catalog owner pageIds) (fun failure _ => ¬IsPanic failure) := by
  induction among generalizing results with
  | nil => exact ends_pure fun _ unspent => unspent
  | cons pageId among ih =>
      have others := ih fun other isOther => inside other (List.mem_cons_of_mem _ isOther)
      have here := inside pageId List.mem_cons_self
      have isOwner := owned pageId here
      have reads : Reads catalog owner schema (fun failure _ => ¬IsPanic failure) _ :=
        reads_select (fun _ _ refused => refused.1) columns filter
      refine (unspent_fetchPage isOwner here).bind fun frameId => ?_
      refine (pinning_of_keeps within_slots fun _ => keeps_slots frameId).bind fun slotIds => ?_
      refine (pinning_of_keeps (within_scanSlots reads isOwner slotIds false results) fun _ =>
        keeps_scanSlots (fun _ _ _ _ => (keeps_ofExcept _).bind fun _ => keeps_pure _) slotIds
          false results).bind fun scanned => ?_
      refine (pinning_unpin scanned.1).bind fun _ => ?_
      exact (others scanned.2).bind fun _ => ends_pure fun _ unspent => unspent

theorem unspent_seqScan (columns : SelectColumns) (filter : Option Expr)
    (owned : ∀ pageId ∈ pageIds, owner pageId = some schema) :
    Ends (Unspent catalog owner pageIds) (seqScan schema columns filter pageIds)
      (fun _ => Unspent catalog owner pageIds) (fun failure _ => ¬IsPanic failure) :=
  (unspent_scanPages columns filter owned (fun _ inside => inside) []).bind
    fun _ => ends_pure fun _ unspent => unspent

/-- The rows that an index points to are read without a panic. -/
theorem unspent_selectRids (columns : SelectColumns) (expr : Expr)
    (owned : ∀ pageId ∈ pageIds, owner pageId = some schema) (rids : List Rid)
    (results : List Row) :
    Ends (Unspent catalog owner pageIds) (selectRids schema columns expr pageIds rids results)
      (fun _ => Unspent catalog owner pageIds) (fun failure _ => ¬IsPanic failure) := by
  induction rids generalizing results with
  | nil => exact ends_pure fun _ unspent => unspent
  | cons rid rids ih =>
      rw [selectRids]
      split_ifs with inside
      · have isOwner := owned rid.pageId inside
        refine (unspent_fetchPage isOwner inside).bind fun frameId => ?_
        refine (pinning_of_keeps (within_getTuple isOwner rid.slotId) fun _ =>
          keeps_getTuple frameId rid.slotId).bind fun found => ?_
        rintro executor ⟨⟨within, legible⟩, loaded⟩
        refine Ends.bind (pinning_unpin false) (fun _ => ?_) executor ⟨within, loaded⟩
        cases found with
        | none => exact ih results
        | some tuple =>
            rcases legible tuple rfl with ⟨isLegible, short⟩
            refine Ends.bind (ends_ofExcept (fun _ _ _ unspent => unspent) ?_) fun row => ih _
            rintro failure failed executor -
            rintro ⟨panic, rfl⟩
            exact isLegible.selectRow_ne_panic short columns (some expr) panic failed
      · exact ih results

end Pins

section Panics

variable [Build] {executor executor' : Executor} {table : String} {schema : Schema}
  {columns : SelectColumns} {filter : Option Expr} {pageIds : List UInt32} {rows : List Row}

omit [Crc32] in
/-- The choice of record ids fails in one way only. -/
theorem indexRids_ends (manager : IndexManager) (table : String) (expr : Expr) :
    ((manager.hasIndex table expr.left ∧ Overflows expr) ∧
      indexRids manager table expr = .error (.panic .overflow)) ∨
    (¬(manager.hasIndex table expr.left ∧ Overflows expr) ∧
      ∃ rids, indexRids manager table expr = .ok rids) := by
  rcases expr with ⟨left, op, right⟩
  by_cases has : manager.hasIndex table left = true
  · rw [indexRids, if_pos has]
    dsimp only
    rcases right with rhs | bits | text | _
    · cases op with
      | gt =>
          by_cases overflow : Build.overflowChecks = true ∧ rhs = Int64.maxValue
          · refine .inl ⟨⟨has, overflow.1, .inl ⟨rfl, by rw [overflow.2]⟩⟩, ?_⟩
            simp only [successor, if_pos overflow]
            rfl
          · refine .inr ⟨fun both => overflow (by simpa [Overflows] using both.2),
              some (manager.rangeScan table left (rhs + 1) Int64.maxValue), ?_⟩
            simp only [successor, if_neg overflow]
            rfl
      | lt =>
          by_cases overflow : Build.overflowChecks = true ∧ rhs = Int64.minValue
          · refine .inl ⟨⟨has, overflow.1, .inr ⟨rfl, by rw [overflow.2]⟩⟩, ?_⟩
            simp only [predecessor, if_pos overflow]
            rfl
          · refine .inr ⟨fun both => overflow (by simpa [Overflows] using both.2),
              some (manager.rangeScan table left Int64.minValue (rhs - 1)), ?_⟩
            simp only [predecessor, if_neg overflow]
            rfl
      | _ => exact .inr ⟨by simp [Overflows], _, rfl⟩
    · exact .inr ⟨by simp [Overflows], _, rfl⟩
    · exact .inr ⟨by simp [Overflows], _, rfl⟩
    · exact .inr ⟨by simp [Overflows], _, rfl⟩
  · exact .inr ⟨fun both => has both.1, none, by rw [indexRids, if_neg has]; rfl⟩

/-- A `SELECT` that needs a bound next to the last or the first `i64`, in a build that checks. -/
def Overruns (executor : Executor) (table : String) (filter : Option Expr) : Prop :=
  ∃ schema pageIds expr, executor.catalog.get table = some schema ∧
    executor.tablePages.lookup table = some pageIds ∧ filter = some expr ∧
    executor.indexManager.hasIndex table expr.left ∧ Overflows expr

/-- Rows are found without a panic, unless the index needs a bound that does not exist. -/
theorem Unspent.findRows {catalog : Catalog} {owner : UInt32 → Option Schema}
    (unspent : Unspent catalog owner pageIds executor)
    (owned : ∀ pageId ∈ pageIds, owner pageId = some schema)
    (fits : ∀ expr, filter = some expr →
      ¬(executor.indexManager.hasIndex table expr.left ∧ Overflows expr)) :
    ∀ panic, (findRows table schema columns filter pageIds executor).1 ≠
      .error (.panic panic) := by
  have calm {action : Action (List Row)} (ends : Ends (Unspent catalog owner pageIds) action
      (fun _ => Unspent catalog owner pageIds) (fun failure _ => ¬IsPanic failure))
        (panic : Panic) :
      (action executor).1 ≠ .error (.panic panic) := by
    intro panicked
    rcases run : action executor with ⟨result, state⟩
    rw [run] at panicked
    dsimp only at panicked
    subst panicked
    exact ends.error unspent run ⟨panic, rfl⟩
  intro panic
  cases filter with
  | none => exact calm (unspent_seqScan columns none owned) panic
  | some expr =>
      rcases indexRids_ends executor.indexManager table expr with
        ⟨overruns, -⟩ | ⟨-, ⟨_ | rids, routed⟩⟩
      · exact absurd overruns (fits expr rfl)
      · have unrouted : executor.Unrouted table (some expr) := by
          intro other same
          obtain rfl := Option.some.inj same
          exact routed
        rw [findRows_unrouted unrouted]
        exact calm (unspent_seqScan columns (some expr) owned) panic
      · have answers := calm (unspent_selectRids columns expr owned rids []) panic
        have routes : tryIndexSelect table schema expr columns pageIds executor =
            (selectRids schema columns expr pageIds rids [] >>= fun results =>
              pure (some results)) executor := by
          rw [tryIndexSelect, get_bind, routed]
          rfl
        rcases run : selectRids schema columns expr pageIds rids [] executor with
          ⟨failure | results, state⟩
        · rw [bind_error run] at routes
          rw [Executor.findRows, bind_error routes]
          simpa [run] using answers
        · rw [bind_ok run] at routes
          rw [Executor.findRows, bind_ok routes]
          simp

omit [Crc32] [Build] in
/-- `ORDER BY` and `LIMIT` do not panic. -/
theorem sortAndLimit_ne_panic (orderBy : Option (String × OrderDir)) (limit : Option UInt64)
    (panic : Panic) : sortAndLimit schema columns orderBy limit rows ≠ .error (.panic panic) := by
  rcases orderBy with _ | ⟨column, direction⟩
  · simp [sortAndLimit, pure, Except.pure, bind, Except.bind]
  · rw [sortAndLimit]
    cases columns with
    | star =>
        rcases found : schema.colIndex column with _ | index
        · simp [sortIndex, found, bind, Except.bind]
        · simp [sortIndex, found, pure, Except.pure, bind, Except.bind]
    | named names =>
        rcases found : names.findIdx? fun name => name = column with _ | index
        · simp [sortIndex, found, bind, Except.bind]
        · simp [sortIndex, found, pure, Except.pure, bind, Except.bind]

omit [Crc32] [Build] in
/-- A projected row reaches to the `ORDER BY` column. -/
theorem lt_length_of_selectRow {tuple : Bytes} {row : Row} {column : String} {index : ℕ}
    (output : sortIndex schema columns column = .ok index)
    (selected : selectRow schema columns filter tuple = .ok (some row)) : index < row.length := by
  rw [selectRow] at selected
  rcases except_bind_eq_ok selected with ⟨stored, decoded, selected⟩
  rcases except_bind_eq_ok selected with ⟨_ | _, -, selected⟩
  · simp [pure, Except.pure] at selected
  rcases except_bind_eq_ok selected with ⟨projected, isProjected, made⟩
  obtain rfl : projected = row := Option.some.inj (Except.ok.inj made)
  cases columns with
  | star =>
      obtain rfl : stored = projected := Except.ok.inj isProjected
      rw [Schema.length_of_deserializeFields decoded]
      simp only [sortIndex] at output
      split at output
      · next found =>
          obtain rfl := Except.ok.inj output
          rw [Schema.colIndex, List.findIdx?_eq_some_iff_getElem] at found
          exact found.1
      · simp at output
  | named names =>
      simp only [sortIndex] at output
      split at output
      · next found =>
          obtain rfl := Except.ok.inj output
          rw [List.findIdx?_eq_some_iff_getElem] at found
          rcases found with ⟨bound, -⟩
          rcases getElem?_of_mapM isProjected (List.getElem?_eq_getElem bound) with
            ⟨value, isValue, -⟩
          exact (List.getElem?_eq_some_iff.mp isValue).1
      · simp at output

/-- A `SELECT` returns `Ok` or `Err`, and `ORDER BY` looks at no cell that is not there. -/
structure SelectsSafely (executor : Executor) (table : String) (columns : SelectColumns)
    (filter : Option Expr) (orderBy : Option (String × OrderDir)) (limit : Option UInt64) :
    Prop where
  returns : ∀ panic,
    (execSelect table columns filter orderBy limit executor).1 ≠ .error (.panic panic)
  sorts : ∀ {schema pageIds rows executor' column direction index},
    executor.catalog.get table = some schema → executor.tablePages.lookup table = some pageIds →
    findRows table schema columns filter pageIds executor = (.ok rows, executor') →
    orderBy = some (column, direction) → sortIndex schema columns column = .ok index →
    ∀ row ∈ rows, index < row.length

theorem Overruns.panics (overruns : executor.Overruns table filter) (columns : SelectColumns)
    (orderBy : Option (String × OrderDir)) (limit : Option UInt64) :
    (execSelect table columns filter orderBy limit executor).1 = .error (.panic .overflow) := by
  rcases overruns with ⟨schema, pageIds, expr, known, listed, rfl, has, overflows⟩
  have panicked : tryIndexSelect table schema expr columns pageIds executor =
      (.error (.panic .overflow), executor) := by
    rcases indexRids_ends executor.indexManager table expr with ⟨-, failed⟩ | ⟨fits, -⟩
    · rw [tryIndexSelect, get_bind, failed]
      rfl
    · exact absurd ⟨has, overflows⟩ fits
  have found : findRows table schema columns (some expr) pageIds executor =
      (.error (.panic .overflow), executor) := by
    rw [findRows]
    exact bind_error panicked
  rw [execSelect_eq known listed, bind_error found]

/-- In every state that a run comes to, a `SELECT` whose literal has no neighbour to bound the
range panics. No other one does, unless it has to pin a page that has all the pins it can have. -/
theorem selectsSafely_of_reachable (reachable : Reachable Returns executor) (table : String)
    (columns : SelectColumns) (filter : Option Expr) (orderBy : Option (String × OrderDir))
    (limit : Option UInt64) :
    (executor.Overruns table filter →
      ¬executor.SelectsSafely table columns filter orderBy limit) ∧
    (¬executor.Overruns table filter →
      (∀ pageIds, executor.tablePages.lookup table = some pageIds →
        executor.bufferPool.PinsLeft pageIds) →
      executor.SelectsSafely table columns filter orderBy limit) := by
  refine ⟨fun overruns safely => ?_, fun fits left => ⟨fun panic => ?_, ?_⟩⟩
  · exact safely.returns .overflow (overruns.panics columns orderBy limit)
  · rcases known : executor.catalog.get table with _ | schema
    · have unknown := schemaOf_of_unknown known
      rw [execSelect, bind_error unknown]
      simp
    have hasSchema := schemaOf_of_known known
    rcases listed : executor.tablePages.lookup table with _ | pageIds
    · have unlisted := pagesOf_of_unlisted listed
      rw [execSelect, bind_ok hasSchema, bind_error unlisted]
      simp
    rcases reachable.healthy with ⟨owner, intact⟩
    have owned : ∀ pageId ∈ pageIds, owner pageId = some schema := by
      intro pageId inside
      rcases intact.listed (.inl listed) inside with ⟨other, isOther, isOwner⟩
      obtain rfl : schema = other := Option.some.inj (known.symm.trans isOther)
      exact isOwner
    have unspent : Unspent executor.catalog owner pageIds executor := ⟨intact, left pageIds listed⟩
    have found : (findRows table schema columns filter pageIds executor).1 ≠
        .error (.panic panic) := unspent.findRows owned (fun expr isFilter both =>
      fits ⟨schema, pageIds, expr, known, listed, isFilter, both⟩) panic
    rw [execSelect_eq known listed]
    rcases run : findRows table schema columns filter pageIds executor with
      ⟨failure | rows, executor'⟩
    · rw [bind_error run]
      simpa [run] using found
    · rw [bind_ok run, ofExcept_apply]
      rcases sorted : sortAndLimit schema columns orderBy limit rows with failure | sorted'
      · intro panicked
        refine sortAndLimit_ne_panic orderBy limit panic (sorted.trans ?_)
        exact panicked
      · exact sortAndLimit_ne_panic orderBy limit panic
  · intro schema pageIds rows executor' column direction index known listed found isOrder output
      row inside
    rcases yields_findRows table pageIds _ _ _ found row inside with ⟨tuple, selected⟩
    exact lt_length_of_selectRow output selected

end Panics

end Executor

/-!
## A literal without a successor

`SELECT * FROM t WHERE id > 9223372036854775807`, in a build with overflow checks.
-/

namespace Sample

attribute [local instance] Crc32.ieee Build.debug

open Executor

/-- `WHERE id < 5`, for which the bound of the range is there. -/
def idBelowFive : Expr := ⟨"id", .lt, .int 5⟩

/-- The table with one row, in a debug build. -/
def checkedOne : Logical :=
  (((Logical.initial.restart .ofInsertion 0).execute .ofInsertion create).state.execute
    .ofInsertion insertSeven).state

theorem attains_checkedOne : Attains [create, insertSeven] checkedOne := by
  have started : Attains [] (Logical.initial.restart .ofInsertion 0) := attains_start .ofInsertion
  have first := started.execute .ofInsertion create ⟨by decide, by decide⟩ rfl
  exact first.execute .ofInsertion insertSeven ⟨by decide, by decide⟩ rfl

theorem overruns_checkedOne {executor : Executor} (rests : Rests executor checkedOne) :
    executor.Overruns "t" (some idAboveAll) ∧ ¬executor.Overruns "t" (some idBelowFive) := by
  refine ⟨⟨Schema.new "t" [⟨"id", .int, true⟩, ⟨"a", .int, false⟩], [0], idAboveAll, ?_, ?_, rfl,
    ?_, rfl, .inl ⟨rfl, rfl⟩⟩, ?_⟩
  · rw [rests.reflects.catalog_eq]
    rfl
  · rw [rests.reflects.tablePages_eq]
    rfl
  · rw [rests.reflects.indexManager_eq]
    rfl
  · rintro ⟨schema, pageIds, expr, -, -, same, -, -, overflows⟩
    obtain rfl := Option.some.inj same
    have wrong : (5 : Int64) = Int64.minValue := by simpa [idBelowFive] using overflows
    exact absurd wrong (by decide)

/-- No pin is left by statements that succeed. -/
theorem pinsLeft_of_session {stmts : List Statement} {executor : Executor}
    (session : Session Succeeds stmts executor) (pageIds : List UInt32) :
    executor.bufferPool.PinsLeft pageIds := by
  rw [BufferPool.pinsLeft_iff]
  intro pageId _ frameId _
  rw [BufferPool.Pinnable, BufferPool.pins, session.balanced.follows.1.unpinned frameId]
  decide

/-- `SELECT * FROM t WHERE id < 5 ORDER BY a DESC LIMIT 3` -/
theorem selectsSafely_checkedOne : ∃ executor : Executor, Reachable Returns executor ∧
    executor.SelectsSafely "t" .star (some idBelowFive) (some ("a", .desc)) (some 3) := by
  rcases attains_checkedOne with ⟨executor, session, rests, -⟩
  have reachable := session.reachable.mono returns_of_succeeds
  exact ⟨executor, reachable, (selectsSafely_of_reachable reachable "t" .star (some idBelowFive)
    (some ("a", .desc)) (some 3)).2 (overruns_checkedOne rests).2
      fun pageIds _ => pinsLeft_of_session session pageIds⟩

theorem idAboveAll_panics : ∃ executor : Executor, Session Succeeds [create, insertSeven] executor ∧
    (execSelect "t" .star (some idAboveAll) none none executor).1 = .error (.panic .overflow) ∧
    ¬executor.SelectsSafely "t" .star (some idAboveAll) none none := by
  rcases attains_checkedOne with ⟨executor, session, rests, -⟩
  have panics := (overruns_checkedOne rests).1.panics .star none none
  exact ⟨executor, session, panics, fun safely => safely.returns .overflow panics⟩

end Sample

end VenomDb
