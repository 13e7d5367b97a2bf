import VenomDb.Engine.Sound

/-!
# What statements do to the tables

The tuples after a statement that succeeded, in terms of the tuples before it. `DELETE`
and `UPDATE` change the tuples of one table one by one, `INSERT` adds one.
-/

namespace VenomDb

namespace Logical

/-- What `DELETE` leaves of a tuple. -/
def deleteOutcome (schema : Schema) (filter : Option Expr) (tuple : Bytes) : Option Bytes :=
  match Executor.selectRow schema .star filter tuple with
  | .ok (some _) => none
  | _ => some tuple

/-- What `UPDATE` makes of a tuple: the new row over the front of the old bytes. -/
def updateOutcome (schema : Schema) (assignments : List Assignment) (filter : Option Expr)
    (tuple : Bytes) : Option Bytes :=
  match Executor.selectRow schema .star filter tuple with
  | .ok (some oldRow) =>
      match Executor.applyAssignments schema assignments oldRow with
      | .ok row =>
          match schema.serializeRow row with
          | .ok bytes => some (bytes ++ tuple.drop bytes.length)
          | .error _ => some tuple
      | .error _ => some tuple
  | _ => some tuple

/-- The tuples of some pages were changed one by one, and nothing else. -/
structure Rewritten (outcome : Bytes → Option Bytes) (pageIds : List UInt32)
    (before after : Logical) : Prop where
  catalog : after.catalog = before.catalog
  tablePages : after.tablePages = before.tablePages
  slots : ∀ pageId, after.heap.slots pageId = before.heap.slots pageId
  get : ∀ rid : Rid, after.heap.get rid =
    if rid.pageId ∈ pageIds then (before.heap.get rid).bind outcome else before.heap.get rid

variable {logical : Logical} {table : String} {schema : Schema} {pageIds : List UInt32}
  {filter : Option Expr} {assignments : List Assignment} {rows : List Row}

theorem transact_eq_ok {step : UInt32 → Rid → Bytes → Unit → Fallible Failure Logical (Bool × Unit)}
    (ok : (logical.transact step pageIds).result = .ok rows) :
    (logical.beginTxn.scan (step logical.nextTxnId) (logical.heap.live pageIds) ()).result =
      .ok () ∧
      (logical.transact step pageIds).state =
        (logical.beginTxn.scan (step logical.nextTxnId) (logical.heap.live pageIds) ()).state.commit
          logical.nextTxnId := by
  rw [transact] at ok ⊢
  generalize logical.beginTxn.scan _ _ () = ended at ok ⊢
  rcases ended with ⟨_ | _, _, _⟩
  · simp at ok
  · exact ⟨rfl, rfl⟩

theorem deleteStep_get {txnId : UInt32} {rid : Rid} {tuple : Bytes} {result result' : Unit}
    {changed : Bool} {logical' : Logical} (live : logical.heap.get rid = some tuple)
    (ran : deleteStep table schema filter txnId rid tuple result logical =
      (.ok (changed, result'), logical')) :
    logical'.heap.get rid = deleteOutcome schema filter tuple := by
  rcases deleteStep_cases table schema filter txnId rid tuple logical with
    ⟨failure, -, run⟩ | ⟨selected, run⟩ | ⟨row, selected, run⟩
  · exact absurd (congrArg Prod.fst (run.symm.trans ran)) (by simp)
  · rw [← (Prod.mk.inj (run.symm.trans ran)).2, live, deleteOutcome, selected]
  · rw [← (Prod.mk.inj (run.symm.trans ran)).2, deleteOutcome, selected]
    exact get_delete logical.heap rid

theorem updateStep_get {txnId : UInt32} {rid : Rid} {tuple : Bytes} {result result' : Unit}
    {changed : Bool} {logical' : Logical} (live : logical.heap.get rid = some tuple)
    (ran : updateStep table schema assignments filter txnId rid tuple result logical =
      (.ok (changed, result'), logical')) :
    logical'.heap.get rid = updateOutcome schema assignments filter tuple := by
  rcases updateStep_cases table schema assignments filter txnId rid tuple logical with
    ⟨failure, run, -⟩ | ⟨selected, run⟩ |
      ⟨oldRow, row, newBytes, selected, rewritten, ⟨fits, run⟩ | ⟨larger, run⟩⟩
  · exact absurd (congrArg Prod.fst (run.symm.trans ran)) (by simp)
  · rw [← (Prod.mk.inj (run.symm.trans ran)).2, live, updateOutcome, selected]
  · rcases rewriteRow_eq_ok rewritten with ⟨-, applied, encoded⟩
    rw [← (Prod.mk.inj (run.symm.trans ran)).2, updateOutcome, selected]
    simp only [applied, encoded]
    exact get_overwrite live newBytes
  · exact absurd (congrArg Prod.fst (run.symm.trans ran)) (by simp)

theorem Tidy.rewritten_delete (tidy : Tidy logical)
    (known : logical.catalog.get table = some schema)
    (listed : logical.tablePages.lookup table = some pageIds)
    (ok : (logical.execDelete table filter).result = .ok rows) :
    Rewritten (deleteOutcome schema filter) pageIds logical
      (logical.execDelete table filter).state := by
  rw [execDelete, known, listed] at ok ⊢
  rcases transact_eq_ok ok with ⟨done, state⟩
  have amid := tidy.scan_delete listed schema filter
  have nodup : ((logical.beginTxn.heap.live pageIds).map Prod.fst).Nodup := tidy.nodup_live listed
  rw [state]
  refine ⟨amid.catalog, amid.tablePages, fun pageId => ?_, fun rid => ?_⟩
  · exact scan_slots isLocal_deleteStep _ () logical.beginTxn pageId
  · exact scan_get isLocal_deleteStep (deleteOutcome schema filter) nodup
      (fun _ _ _ _ _ _ _ live ran => deleteStep_get live ran) done rid

theorem Tidy.rewritten_update (tidy : Tidy logical)
    (known : logical.catalog.get table = some schema)
    (listed : logical.tablePages.lookup table = some pageIds)
    (ok : (logical.execUpdate table assignments filter).result = .ok rows) :
    Rewritten (updateOutcome schema assignments filter) pageIds logical
      (logical.execUpdate table assignments filter).state := by
  rw [execUpdate, known, listed] at ok ⊢
  rcases transact_eq_ok ok with ⟨done, state⟩
  have amid := tidy.scan_update known listed assignments filter
  have nodup : ((logical.beginTxn.heap.live pageIds).map Prod.fst).Nodup := tidy.nodup_live listed
  rw [state]
  refine ⟨amid.catalog, amid.tablePages, fun pageId => ?_, fun rid => ?_⟩
  · exact scan_slots isLocal_updateStep _ () logical.beginTxn pageId
  · exact scan_get isLocal_updateStep (updateOutcome schema assignments filter)
      nodup (fun _ _ _ _ _ _ _ live ran => updateStep_get live ran) done rid

/-- Every tuple of the table was skipped or could be rewritten in its place. -/
theorem execUpdate_selects (known : logical.catalog.get table = some schema)
    (listed : logical.tablePages.lookup table = some pageIds)
    (ok : (logical.execUpdate table assignments filter).result = .ok rows) :
    ∀ entry ∈ logical.heap.live pageIds,
      Executor.selectRow schema .star filter entry.2 = .ok none ∨
      ∃ oldRow row bytes, Executor.selectRow schema .star filter entry.2 = .ok (some oldRow) ∧
        Executor.applyAssignments schema assignments oldRow = .ok row ∧
        schema.serializeRow row = .ok bytes ∧ bytes.length ≤ entry.2.length := by
  rw [execUpdate, known, listed] at ok
  intro entry inside
  rcases scan_steps (transact_eq_ok ok).1 entry inside with ⟨_, before, changed, _, after, ran⟩
  rcases updateStep_cases table schema assignments filter logical.nextTxnId entry.1 entry.2
    before with
    ⟨failure, run, -⟩ | ⟨selected, -⟩ |
      ⟨oldRow, row, newBytes, selected, rewritten, ⟨fits, -⟩ | ⟨-, run⟩⟩
  · exact absurd (congrArg Prod.fst (run.symm.trans ran)) (by simp)
  · exact .inl selected
  · rcases rewriteRow_eq_ok rewritten with ⟨-, applied, encoded⟩
    exact .inr ⟨oldRow, row, newBytes, selected, applied, encoded, fits⟩
  · exact absurd (congrArg Prod.fst (run.symm.trans ran)) (by simp)

/-- A page was chosen for a tuple, and listed if it is new. -/
structure Chosen (table : String) (pageId : UInt32) (before after : Logical) : Prop where
  catalog : after.catalog = before.catalog
  indexManager : after.indexManager = before.indexManager
  heap : after.heap = before.heap
  tables : ∀ other, other ≠ table → after.tablePages.lookup other = before.tablePages.lookup other
  pages : ∃ pageIds pageIds', before.tablePages.lookup table = some pageIds ∧
    after.tablePages.lookup table = some pageIds' ∧
    ∀ other, other ∈ pageIds' ↔ other ∈ pageIds ∨ other = pageId

theorem chosen_of_place {length : ℕ} {pageId : UInt32} {logical' : Logical}
    (listed : logical.tablePages.lookup table = some pageIds)
    (placed : logical.place table length pageIds = some (pageId, logical')) :
    Chosen table pageId logical logical' := by
  rw [place] at placed
  cases fit : logical.firstFit length pageIds with
  | none =>
      rw [fit] at placed
      dsimp only at placed
      split_ifs at placed
      obtain ⟨rfl, rfl⟩ : logical.nextPageId = pageId ∧
          logical.allocate.listPage table logical.nextPageId = logical' := by simpa using placed
      refine ⟨rfl, rfl, rfl, fun other ne => ?_, pageIds, pageIds ++ [logical.nextPageId], listed,
        ?_,
        by simp⟩
      · rw [lookup_listPage, if_neg ne]
        rfl
      · rw [lookup_listPage, if_pos rfl, show logical.allocate.tablePages = logical.tablePages from
          rfl,
          listed, Option.getD_some]
  | some chosenId =>
      rw [fit] at placed
      obtain ⟨rfl, rfl⟩ : chosenId = pageId ∧ logical = logical' := by simpa using placed
      have inside : chosenId ∈ pageIds := List.mem_of_find?_eq_some fit
      exact ⟨rfl, rfl, rfl, fun _ _ => rfl, pageIds, pageIds, listed, listed, by simp_all⟩

/-- The next slot of a page with room is not taken. -/
theorem get_nextRid {pageId : UInt32} {length : ℕ}
    (room : ((logical.heap pageId).getD .empty).HasRoom length) :
    logical.heap.get (logical.nextRid pageId) = none := by
  have count := SlottedPage.length_lt_of_hasRoom _ room
  rw [Heap.get, nextRid]
  cases found : logical.heap pageId with
  | none => rfl
  | some page =>
      simp only [found, Option.getD_some] at count ⊢
      rw [Option.bind_some, SlottedPage.get,
        UInt16.toNat_ofNat_of_lt' (by simp [UInt16.size]; omega)]
      simp

/-- A tuple was put where there was none, on a page of its table that may be new. -/
structure Inserted (table : String) (schema : Schema) (values : Row) (rowBytes : Bytes) (rid : Rid)
    (before after : Logical) : Prop where
  chosen : Chosen table rid.pageId before { after with
    heap := before.heap, indexManager := before.indexManager }
  known : before.catalog.get table = some schema
  checked : Executor.checkInsertKey schema before.indexManager table values = .ok ()
  encoded : schema.serializeRow values = .ok rowBytes
  short : rowBytes.length < 2 ^ 16
  indexManager : after.indexManager =
    before.indexManager.maintain table rid (Executor.indexCells schema none (some values))
  vacant : before.heap.get rid = none
  get : ∀ other, after.heap.get other = if other = rid then some rowBytes else before.heap.get other

theorem Tidy.inserted {values : List Value} (tidy : Tidy logical) (bounded : Bounded logical)
    (ok : (logical.execInsert table values).result = .ok rows) :
    ∃ schema rowBytes rid, Inserted table schema values rowBytes rid logical
      (logical.execInsert table values).state := by
  rw [Logical.execInsert] at ok ⊢
  cases known : logical.catalog.get table with
  | none => simp [known, fail] at ok
  | some schema =>
      rw [known] at ok
      dsimp only at ok ⊢
      rcases checked : Executor.checkInsertKey schema logical.indexManager table values with
        failure | _
      · simp [checked, fail] at ok
      rcases encoded : schema.serializeRow values with failure | rowBytes
      · simp [checked, encoded, fail] at ok
      cases listed : logical.tablePages.lookup table with
      | none => simp [checked, encoded, listed, fail] at ok
      | some pageIds =>
          simp only [checked, encoded, listed, insertBytes] at ok ⊢
          cases place : logical.beginTxn.place table rowBytes.length pageIds with
          | none => simp [place, fail] at ok
          | some found =>
              rcases found with ⟨pageId, logical'⟩
              have listed' : logical.beginTxn.tablePages.lookup table = some pageIds := listed
              have chosen := chosen_of_place listed' place
              have placed := tidy.beginTxn.placed bounded.missing bounded.toNat_nextPageId
                bounded.allocated listed place
              have count := SlottedPage.length_lt_of_hasRoom _ placed.room
              refine ⟨schema, rowBytes, logical'.nextRid pageId, ⟨⟨chosen.catalog, rfl, rfl,
                chosen.tables, chosen.pages⟩, known, checked, encoded,
                SlottedPage.lt_of_hasRoom _ placed.room, ?_, ?_, fun other => ?_⟩⟩
              · exact congrArg (fun manager => IndexManager.maintain table _ _ manager)
                  chosen.indexManager
              · rw [show logical.heap = logical'.heap from chosen.heap.symm]
                exact get_nextRid placed.room
              · rw [show logical.heap = logical'.heap from chosen.heap.symm]
                have pushed : (logical'.pushTuple logical.nextTxnId pageId rowBytes).heap.get
                  other = _ :=
                  get_pushTuple placed.room other
                exact pushed

/-- An insert that fails leaves the rows, the page lists and the indexes alone. -/
theorem execInsert_fails {values : List Value} {failure : Failure}
    (failed : (logical.execInsert table values).result = .error failure) :
    (logical.execInsert table values).state.catalog = logical.catalog ∧
      (logical.execInsert table values).state.tablePages = logical.tablePages ∧
      (logical.execInsert table values).state.indexManager = logical.indexManager ∧
      (logical.execInsert table values).state.heap = logical.heap := by
  rw [Logical.execInsert] at failed ⊢
  cases known : logical.catalog.get table with
  | none => exact ⟨rfl, rfl, rfl, rfl⟩
  | some schema =>
      rw [known] at failed
      dsimp only at failed ⊢
      rcases checked : Executor.checkInsertKey schema logical.indexManager table values with
        failure | _
      · exact ⟨rfl, rfl, rfl, rfl⟩
      rcases encoded : schema.serializeRow values with failure | rowBytes
      · exact ⟨rfl, rfl, rfl, rfl⟩
      cases listed : logical.tablePages.lookup table with
      | none => exact ⟨rfl, rfl, rfl, rfl⟩
      | some pageIds =>
          simp only [checked, encoded, listed, insertBytes] at failed ⊢
          cases place : logical.beginTxn.place table rowBytes.length pageIds with
          | none => exact ⟨rfl, rfl, rfl, rfl⟩
          | some chosen => simp [place] at failed

end Logical

end VenomDb
