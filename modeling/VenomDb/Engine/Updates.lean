import VenomDb.Engine.PrimaryKeys
import VenomDb.Engine.Relational

/-!
# `UPDATE` in place

An `UPDATE` whose new rows can be stored in the slots of the old ones succeeds and changes the
rows that match. The type check of the assignments stands in its way for values that the check
of `serialize_row` would let pass: it has no arm for a float.
-/

namespace VenomDb

open Relations

/-- What makes the new rows of an `UPDATE` storable: its columns exist and none of them is the
primary key, its `WHERE` clause can be evaluated on every row, and every row that matches can be
serialized after the assignments, in no more bytes than the slot has. -/
structure Storable (schema : Schema) (assignments : List Assignment) (filter : Option Expr)
    (tuples : List Bytes) : Prop where
  columns : ∀ assignment ∈ assignments, (schema.colIndex assignment.column).isSome
  unkeyed : ∀ assignment ∈ assignments, schema.primaryKey ≠ some assignment.column
  evaluates : ∀ tuple ∈ tuples, ∀ row, schema.deserializeRow tuple = .ok row →
    ∃ selected, Executor.selects schema filter row = .ok selected
  fits : ∀ tuple ∈ tuples, ∀ row, schema.deserializeRow tuple = .ok row →
    Executor.selects schema filter row = .ok true →
    ∃ bytes, schema.serializeRow (assign schema assignments row) = .ok bytes ∧
      bytes.length ≤ tuple.length

/-- Every assigned value is NULL, or an INT or TEXT for a column of that type. -/
def Accepts (schema : Schema) (assignments : List Assignment) : Prop :=
  ∀ assignment ∈ assignments, ∀ index column, schema.colIndex assignment.column = some index →
    schema.columns[index]? = some column → Executor.assignable assignment.value column.ty = true

/-- No row matches. -/
def MatchesNone (schema : Schema) (filter : Option Expr) (tuples : List Bytes) : Prop :=
  ∀ tuple ∈ tuples, ∀ row, schema.deserializeRow tuple = .ok row →
    satisfies schema filter row = false

section Assignments

variable {schema : Schema} {assignments : List Assignment} {row row' : Row}

theorem Schema.column_of_colIndex {name : String} {index : ℕ}
    (found : schema.colIndex name = some index) :
    ∃ column, schema.columns[index]? = some column := by
  rw [Schema.colIndex, List.findIdx?_eq_some_iff_getElem] at found
  rcases found with ⟨bound, -⟩
  exact ⟨_, List.getElem?_eq_getElem bound⟩

theorem Accepts.applyAssignments_ok (accepts : Accepts schema assignments)
    (columns : ∀ assignment ∈ assignments, (schema.colIndex assignment.column).isSome) (row : Row) :
    ∃ row', Executor.applyAssignments schema assignments row = .ok row' := by
  induction assignments generalizing row with
  | nil => exact ⟨row, rfl⟩
  | cons assignment assignments ih =>
      rcases Option.isSome_iff_exists.mp (columns assignment List.mem_cons_self) with ⟨index, found⟩
      rcases Schema.column_of_colIndex found with ⟨column, isColumn⟩
      have accepted := accepts assignment List.mem_cons_self index column found isColumn
      rw [Executor.applyAssignments, found]
      simp only [isColumn, accepted, if_true]
      exact ih (fun other inside => accepts other (List.mem_cons_of_mem _ inside))
        (fun other inside => columns other (List.mem_cons_of_mem _ inside)) _

theorem accepts_of_applyAssignments
    (applied : Executor.applyAssignments schema assignments row = .ok row') :
    Accepts schema assignments := by
  induction assignments generalizing row with
  | nil => simp [Accepts]
  | cons assignment assignments ih =>
      rw [Executor.applyAssignments] at applied
      rcases found : schema.colIndex assignment.column with _ | index
      · simp [found] at applied
      rcases Schema.column_of_colIndex found with ⟨column, isColumn⟩
      simp only [found, isColumn] at applied
      split_ifs at applied with accepted
      rintro other inside otherIndex otherColumn otherFound isOther
      rcases List.mem_cons.mp inside with rfl | inside
      · obtain rfl : index = otherIndex := Option.some.inj (found.symm.trans otherFound)
        obtain rfl : column = otherColumn := Option.some.inj (isColumn.symm.trans isOther)
        exact accepted
      · exact ih applied other inside otherIndex otherColumn otherFound isOther

/-- Nothing is checked when no primary key is assigned. -/
theorem checkUpdateKey_unkeyed
    (unkeyed : ∀ assignment ∈ assignments, schema.primaryKey ≠ some assignment.column)
    (manager : IndexManager) (table : String) (oldRow : Row) :
    Executor.checkUpdateKey schema manager table oldRow assignments = .ok () := by
  induction assignments with
  | nil => rfl
  | cons assignment assignments ih =>
      have rest := ih fun other inside => unkeyed other (List.mem_cons_of_mem _ inside)
      rw [Executor.checkUpdateKey]
      rcases primary : schema.primaryKey with _ | column
      · rfl
      · have apart : assignment.column ≠ column := by
          rintro rfl
          exact unkeyed assignment List.mem_cons_self primary
        simp only [if_neg apart]
        exact rest

end Assignments

namespace Logical

variable {logical : Logical} {table : String} {schema : Schema} {pageIds : List UInt32}
  {assignments : List Assignment} {filter : Option Expr}

theorem selectRow_of_selects {tuple : Bytes} {row : Row} {selected : Bool}
    (decoded : schema.deserializeRow tuple = .ok row)
    (selects : Executor.selects schema filter row = .ok selected) :
    Executor.selectRow schema .star filter tuple = .ok (if selected then some row else none) := by
  rw [Executor.selectRow, decoded]
  cases selected with
  | false => simp [bind, Except.bind, selects, pure, Except.pure]
  | true => simp [bind, Except.bind, selects, pure, Except.pure, Executor.project]

/-- On a tuple that can be rewritten `UPDATE` does not fail. -/
theorem updateStep_ok {tuple : Bytes} {row : Row} (txnId : UInt32) (rid : Rid) (logical : Logical)
    (decoded : schema.deserializeRow tuple = .ok row)
    (storable : Storable schema assignments filter [tuple])
    (accepts : satisfies schema filter row = false ∨ Accepts schema assignments) :
    ∃ outcome, (updateStep table schema assignments filter txnId rid tuple () logical).1 =
      .ok outcome := by
  rcases storable.evaluates tuple (by simp) row decoded with ⟨selected, selects⟩
  have chosen := selectRow_of_selects decoded selects
  rcases updateStep_cases table schema assignments filter txnId rid tuple logical with
    ⟨failure, -, failed⟩ | ⟨-, run⟩ |
      ⟨oldRow, newRow, bytes, chosen', rewritten, ⟨-, run⟩ | ⟨larger, -⟩⟩
  · exfalso
    rcases failed with failed | ⟨oldRow, chosen', failed⟩
    · rw [chosen] at failed
      cases failed
    · obtain ⟨rfl, rfl⟩ : selected = true ∧ row = oldRow := by
        have same := Except.ok.inj (chosen.symm.trans chosen')
        cases selected <;> simp_all
      have accepts := accepts.resolve_left (by simp [satisfies, selects])
      rcases accepts.applyAssignments_ok storable.columns row with ⟨newRow, applied⟩
      rcases storable.fits tuple (by simp) row decoded selects with ⟨bytes, encoded, -⟩
      rw [assign_of_applyAssignments applied] at encoded
      rw [Executor.rewriteRow, checkUpdateKey_unkeyed storable.unkeyed] at failed
      simp [bind, Except.bind, applied, encoded, pure, Except.pure] at failed
  · exact ⟨_, congrArg Prod.fst run⟩
  · exact ⟨_, congrArg Prod.fst run⟩
  · exfalso
    rcases rewriteRow_eq_ok rewritten with ⟨-, applied, encoded⟩
    obtain ⟨rfl, rfl⟩ : selected = true ∧ row = oldRow := by
      have same := Except.ok.inj (chosen.symm.trans chosen')
      cases selected <;> simp_all
    rcases storable.fits tuple (by simp) row decoded selects with ⟨bytes', encoded', fits⟩
    rw [assign_of_applyAssignments applied, encoded] at encoded'
    obtain rfl := Except.ok.inj encoded'
    omega

/-- `UPDATE` succeeds if and only if no row matches or the type check accepts every assignment. -/
theorem Tidy.execUpdate_ok_iff (tidy : Tidy logical)
    (known : logical.catalog.get table = some schema)
    (listed : logical.tablePages.lookup table = some pageIds)
    (storable : Storable schema assignments filter (logical.tuples pageIds)) :
    (logical.execUpdate table assignments filter).result = .ok [] ↔
      MatchesNone schema filter (logical.tuples pageIds) ∨ Accepts schema assignments := by
  constructor
  · intro ok
    by_cases none : MatchesNone schema filter (logical.tuples pageIds)
    · exact .inl none
    right
    simp only [MatchesNone, not_forall, exists_prop] at none
    rcases none with ⟨tuple, among, row, decoded, matched⟩
    rcases List.mem_map.mp among with ⟨entry, inside, rfl⟩
    rcases execUpdate_selects known listed ok entry inside with
      skipped | ⟨oldRow, newRow, bytes, -, applied, -⟩
    · rcases storable.evaluates entry.2 among row decoded with ⟨selected, selects⟩
      rw [selectRow_of_selects decoded selects] at skipped
      cases selected with
      | false => simp [satisfies, selects] at matched
      | true => simp at skipped
    · exact accepts_of_applyAssignments applied
  · intro accepts
    have steps : ∀ entry ∈ logical.heap.live pageIds, ∀ result between, ∃ outcome,
        (updateStep table schema assignments filter logical.nextTxnId entry.1 entry.2 result
          between).1 = .ok outcome := by
      intro entry inside _ between
      rcases tidy.decode_of_live known listed inside with ⟨row, decoded, -⟩
      have among : entry.2 ∈ logical.tuples pageIds := List.mem_map_of_mem inside
      refine updateStep_ok _ _ between decoded ⟨storable.columns, storable.unkeyed, ?_, ?_⟩
        (accepts.imp_left fun none => none entry.2 among row decoded)
      · simpa using storable.evaluates entry.2 among
      · simpa using storable.fits entry.2 among
    have scanned := scan_ok steps () logical.beginTxn
    rw [execUpdate, known, listed]
    dsimp only
    rw [transact]
    generalize logical.beginTxn.scan _ _ () = ended at scanned ⊢
    rcases ended with ⟨failure | _, changed, logical'⟩
    · simp at scanned
    · rfl

/-- A table on other pages keeps its rows. -/
theorem Rewritten.selectAll_of_apart [Build] {outcome : Bytes → Option Bytes} {after : Logical}
    {other : String} {otherIds : List UInt32} (rewritten : Rewritten outcome pageIds logical after)
    (listed : logical.tablePages.lookup other = some otherIds)
    (apart : ∀ pageId ∈ otherIds, pageId ∉ pageIds) :
    after.selectAll other = logical.selectAll other := by
  have same : ∀ rid : Rid, rid.pageId ∈ otherIds →
      after.heap.get rid = (logical.heap.get rid).bind some := by
    intro rid inside
    simp [rewritten.get, apart _ inside]
  have live := Heap.live_filterMap (fun pageId _ => rewritten.slots pageId) same
  have tuples : after.tuples otherIds = logical.tuples otherIds := by
    rw [Logical.tuples, Logical.tuples, live]
    simp
  rw [selectAll_eq, selectAll_eq, rewritten.catalog, rewritten.tablePages, listed]
  cases logical.catalog.get other with
  | none => rfl
  | some schema => exact congrArg (selectRows schema .star none) tuples

/-- The rows after an `UPDATE`, in the order of the scan. -/
theorem Tidy.selectAll_execUpdate [Build] {rows : List Row} (tidy : Tidy logical)
    (tidy' : Tidy (logical.execUpdate table assignments filter).state)
    (known : logical.catalog.get table = some schema)
    (listed : logical.tablePages.lookup table = some pageIds)
    (ok : (logical.execUpdate table assignments filter).result = .ok rows) :
    ∃ before, logical.selectAll table = .ok before ∧
      (logical.execUpdate table assignments filter).state.selectAll table =
        .ok (before.map fun row =>
          if satisfies schema filter row then assign schema assignments row else row) ∧
      ∀ other, other ≠ table →
        (logical.execUpdate table assignments filter).state.selectAll other =
          logical.selectAll other := by
  have rewritten := tidy.rewritten_update known listed ok
  have selects := execUpdate_selects known listed ok
  generalize (logical.execUpdate table assignments filter).state = after at tidy' rewritten
  have known' : after.catalog.get table = some schema := by rw [rewritten.catalog, known]
  have listed' : after.tablePages.lookup table = some pageIds := by
    rw [rewritten.tablePages, listed]
  refine ⟨(logical.heap.live pageIds).filterMap fun entry => decode schema entry.2, ?_, ?_, ?_⟩
  · rw [selectAll_eq, known, listed]
    exact tidy.selectRows_decode known listed
  · rw [selectAll_eq, known', listed']
    refine (tidy'.selectRows_decode known' listed').trans (congrArg Except.ok ?_)
    rw [rewritten.filterMap_live,
      rows_update (fun entry inside => tidy.decode_of_live known listed inside) selects]
    intro entry inside
    rcases Heap.mem_live.mp inside with ⟨among, live⟩
    exact (tidy.typed.row known listed among live).2
  · intro other apart
    rcases otherListed : logical.tablePages.lookup other with _ | otherIds
    · rw [selectAll_eq, selectAll_eq, rewritten.catalog, rewritten.tablePages, otherListed]
      cases logical.catalog.get other <;> rfl
    · exact rewritten.selectAll_of_apart otherListed fun pageId inside inside' =>
        apart (tidy.filed.apart otherListed listed inside inside')

end Logical

namespace Executor

variable [Crc32] [Build] {executor : Executor} {table : String} {schema : Schema}
  {pageIds : List UInt32} {assignments : List Assignment} {filter : Option Expr}

/-- The states after a run in which a statement that failed had not changed a row. In the last
session a row may also have been too large for an `UPDATE`. -/
inductive Continued : Executor → Prop
  | reached {executor : Executor} (reachable : Reachable IsSpared executor) : Continued executor
  | execute {order : HashOrder} {stmt : Statement} {result : Except Failure (List Row)}
      {executor executor' : Executor} (before : Continued executor)
      (run : execute order stmt executor = (result, executor'))
      (admitted : IsSpared executor stmt result ∨ result = .error (.sql .updateLarger)) :
      Continued executor'

theorem Continued.follows (continued : Continued executor) :
    ∃ logical, Rests executor logical ∧ logical.Tidy := by
  induction continued with
  | reached reachable =>
      rcases reachable.follows with ⟨logical, rests, follows⟩
      exact ⟨logical, rests, (follows.sound id).tidy⟩
  | @execute order stmt result executor executor' before run admitted ih =>
      rcases ih with ⟨logical, rests, tidy⟩
      have tidy' := tidy.execute rests.bounded order stmt
      rcases result with failure | rows
      · rcases admitted with (ok | ⟨returned, spares⟩) | larger
        · simp [Except.isOk, Except.toBool] at ok
        · rcases rests.execute_error tidy.usable run (by simpa [Returns] using returned) spares with
            ⟨-, -, rests', -⟩ | ⟨-, rests' | rests', -⟩
          · exact ⟨_, rests', tidy'⟩
          · exact ⟨_, rests', tidy⟩
          · exact ⟨_, rests', tidy.beginTxn⟩
        · obtain rfl : failure = .sql .updateLarger := by simpa using larger
          rcases rests.execute_larger tidy.usable run with rests' | rests' | rests'
          · exact ⟨_, rests', tidy'⟩
          · exact ⟨_, rests', tidy⟩
          · exact ⟨_, rests', tidy.beginTxn⟩
      · exact ⟨_, (rests.execute_ok tidy.usable run).2.1, tidy'⟩

/-- `UPDATE` returns `Ok` and has changed the rows that match and no others. -/
def Updates (executor : Executor) (table : String) (schema : Schema)
    (assignments : List Assignment) (filter : Option Expr) : Prop :=
  ∃ executor' rows, execUpdate table assignments filter executor = (.ok [], executor') ∧
    executor.selectAll table = .ok rows ∧
    executor'.selectAll table = .ok (rows.map fun row =>
      if satisfies schema filter row then assign schema assignments row else row) ∧
    ∀ other, other ≠ table → executor'.selectAll other = executor.selectAll other

/-- An `UPDATE` whose new rows are storable does what it says if and only if no row matches or
the type check accepts every assigned value. -/
theorem updates_iff {frameId : FrameId} (continued : Continued executor)
    (available : executor.Available frameId) (running : ¬executor.Exhausted)
    (known : executor.catalog.get table = some schema)
    (listed : executor.tablePages.lookup table = some pageIds)
    (storable : Storable schema assignments filter (executor.tuplesOf pageIds)) :
    executor.Updates table schema assignments filter ↔
      MatchesNone schema filter (executor.tuplesOf pageIds) ∨ Accepts schema assignments := by
  rcases continued.follows with ⟨logical, rests, tidy⟩
  rw [rests.reflects.catalog_eq] at known
  rw [rests.reflects.tablePages_eq] at listed
  rw [rests.reflects.tuplesOf (tidy.usable.present listed)] at storable ⊢
  rw [← tidy.execUpdate_ok_iff known listed storable]
  let stmt : Statement := .update table assignments filter
  constructor
  · rintro ⟨executor', rows, run, -⟩
    have run : execute .ofInsertion stmt executor = (.ok [], executor') := run
    exact (rests.execute_ok tidy.usable run).1
  · intro done
    have done : (logical.execute .ofInsertion stmt).result = .ok [] := done
    rcases rests.execute_succeeds tidy.usable running available done with ⟨executor', run⟩
    rcases rests.execute_ok tidy.usable run with ⟨-, rests', advances⟩
    have tidy' := tidy.execute rests.bounded .ofInsertion stmt
    have ready : executor.Ready :=
      ⟨⟨frameId, available⟩, not_exists_not.mp fun overpinned => running (.inr (.inr overpinned))⟩
    rcases tidy.selectAll_execUpdate tidy' known listed done with
      ⟨rows, answered, answered', others⟩
    have before := rests.reflects.selectAll_of_ready tidy.usable ready
    have after := rests'.reflects.selectAll_of_ready tidy'.usable (advances.ready ready)
    refine ⟨executor', rows, run, ?_, ?_, ?_⟩
    · rw [before, answered]
    · rw [after]
      exact answered'
    · intro other apart
      rw [before, after]
      exact others other apart

end Executor

namespace Sample

attribute [local instance] Crc32.ieee Build.debug

open Executor

/-- `UPDATE t SET a = 9 WHERE id = 1` -/
theorem storable_insertedTwo :
    Storable (Schema.new "t" [⟨"id", .int, true⟩, ⟨"a", .int, false⟩]) [⟨"a", .int 9⟩]
      (some ⟨"id", .eq, .int 1⟩) (insertedTwo.tuples [0]) := by
  have tuples : insertedTwo.tuples [0] = [[0, 1, 0, 0, 0, 0, 0, 0, 0, 0, 7, 0, 0, 0, 0, 0, 0, 0],
    [0, 2, 0, 0, 0, 0, 0, 0, 0, 2]] := rfl
  rw [tuples]
  refine ⟨by decide, by decide, ?_, ?_⟩
  · intro tuple inside row decoded
    rcases List.mem_pair.mp inside with rfl | rfl
    · obtain rfl : [.int 1, .int 7] = row := Except.ok.inj decoded
      exact ⟨true, rfl⟩
    · obtain rfl : [.int 2, .null] = row := Except.ok.inj decoded
      exact ⟨false, rfl⟩
  · intro tuple inside row decoded selects
    rcases List.mem_pair.mp inside with rfl | rfl
    · obtain rfl : [.int 1, .int 7] = row := Except.ok.inj decoded
      exact ⟨_, rfl, by decide⟩
    · obtain rfl : [.int 2, .null] = row := Except.ok.inj decoded
      cases selects

theorem updates_iff_insertedTwo :
    ∃ (executor : Executor) (schema : Schema) (pageIds : List UInt32), Continued executor ∧
      (executor.Updates "t" schema [⟨"a", .int 9⟩] (some ⟨"id", .eq, .int 1⟩) ↔
        MatchesNone schema (some ⟨"id", .eq, .int 1⟩) (executor.tuplesOf pageIds) ∨
          Accepts schema [⟨"a", .int 9⟩]) := by
  rcases attains_insertedTwo with ⟨executor, session, rests, follows, idle⟩
  have continued : Continued executor :=
    .reached (session.reachable.mono fun _ _ _ ok => .inl ok)
  have known : executor.catalog.get "t" =
      some (Schema.new "t" [⟨"id", .int, true⟩, ⟨"a", .int, false⟩]) := by
    rw [rests.reflects.catalog_eq]
    rfl
  have listed : insertedTwo.tablePages.lookup "t" = some [0] := rfl
  have listed' : executor.tablePages.lookup "t" = some [0] := by
    rw [rests.reflects.tablePages_eq, listed]
  have storable := storable_insertedTwo
  rw [← rests.reflects.tuplesOf ((follows.sound .inl).usable.present listed)] at storable
  exact ⟨executor, _, _, continued, updates_iff continued (idle.available ⟨0, by decide⟩)
    (rests.not_exhausted ⟨by decide, by decide⟩ idle.ready) known listed' storable⟩

/-- `CREATE TABLE t (id INT PRIMARY KEY, x FLOAT)` -/
def createMeasured : Statement := .createTable "t" [⟨"id", .int, true⟩, ⟨"x", .float, false⟩]

/-- `INSERT INTO t VALUES (1, 1.0)` -/
def insertMeasured : Statement := .insert "t" [.int 1, .float 0x3FF0000000000000]

def measured : Logical := (opened.execute .ofInsertion createMeasured).state

def measuredOne : Logical := (measured.execute .ofInsertion insertMeasured).state

theorem attains_measuredOne : Attains [createMeasured, insertMeasured] measuredOne := by
  have started : Attains [] opened := attains_start .ofInsertion
  have first := started.execute .ofInsertion createMeasured ⟨by decide, by decide⟩ rfl
  exact first.execute .ofInsertion insertMeasured ⟨by decide, by decide⟩ rfl

theorem storable_measuredOne :
    Storable (Schema.new "t" [⟨"id", .int, true⟩, ⟨"x", .float, false⟩])
      [⟨"x", .float 0x4000000000000000⟩] none (measuredOne.tuples [0]) := by
  have tuples : measuredOne.tuples [0] =
    [[0, 1, 0, 0, 0, 0, 0, 0, 0, 3, 0, 0, 0, 0, 0, 0, 240, 63]] := rfl
  rw [tuples]
  refine ⟨by decide, by decide, fun _ _ _ _ => ⟨true, rfl⟩, ?_⟩
  intro tuple inside row decoded _
  obtain rfl := List.mem_singleton.mp inside
  obtain rfl : [.int 1, .float 0x3FF0000000000000] = row := Except.ok.inj decoded
  exact ⟨_, rfl, by decide⟩

/-- `UPDATE t SET x = 2.0` fails although the new row is storable. -/
theorem float_not_updated :
    ∃ (executor executor' : Executor) (schema : Schema) (pageIds : List UInt32),
      Reachable Succeeds executor ∧ executor.catalog.get "t" = some schema ∧
      executor.tablePages.lookup "t" = some pageIds ∧
      Storable schema [⟨"x", .float 0x4000000000000000⟩] none (executor.tuplesOf pageIds) ∧
      execUpdate "t" [⟨"x", .float 0x4000000000000000⟩] none executor =
        (.error (.sql (.assignTypeMismatch (.float 0x4000000000000000) "x")), executor') ∧
      ¬executor.Updates "t" schema [⟨"x", .float 0x4000000000000000⟩] none := by
  rcases attains_measuredOne with ⟨executor, session, rests, follows, idle⟩
  have known : executor.catalog.get "t" =
      some (Schema.new "t" [⟨"id", .int, true⟩, ⟨"x", .float, false⟩]) := by
    rw [rests.reflects.catalog_eq]
    rfl
  have listed : measuredOne.tablePages.lookup "t" = some [0] := rfl
  have listed' : executor.tablePages.lookup "t" = some [0] := by
    rw [rests.reflects.tablePages_eq, listed]
  have usable := (follows.sound .inl).usable
  have storable := storable_measuredOne
  rw [← rests.reflects.tuplesOf (usable.present listed)] at storable
  let assign : Statement := .update "t" [⟨"x", .float 0x4000000000000000⟩] none
  rcases rests.execute_fails usable ⟨by decide, by decide⟩ idle
    (show measuredOne.execute .ofInsertion assign =
      ⟨.error (.sql (.assignTypeMismatch (.float 0x4000000000000000) "x")), false,
        (measuredOne.execute .ofInsertion assign).state⟩ from rfl) (by decide) (.inl rfl) with
    ⟨failed, run, -⟩
  have run : execUpdate "t" [⟨"x", .float 0x4000000000000000⟩] none executor =
    (.error (.sql (.assignTypeMismatch (.float 0x4000000000000000) "x")), failed) := run
  refine ⟨executor, failed, _, [0], session.reachable, known, listed', storable, run, ?_⟩
  rintro ⟨executor', rows, updated, -⟩
  rw [run] at updated
  simp at updated

end Sample

end VenomDb
