import VenomDb.Engine.Runs

/-!
# What the log manager's copies hold

The log manager puts inserted tuples on its own copies of the pages and buries deleted ones there,
but it only records updates. A live tuple that was updated is in the copy as it was before the
first update of the session, and that is what the first `Update` record of its slot says.
-/

namespace VenomDb

namespace LogRecord

/-- The old bytes in an `Update` record of a slot. -/
def updatedFrom (rid : Rid) : LogRecord → Option Bytes
  | update _ _ pageId slotId oldData _ => if rid = ⟨pageId, slotId⟩ then some oldData else none
  | _ => none

@[simp]
theorem updatedFrom_withLsn (rid : Rid) (record : LogRecord) (lsn : UInt64) :
    (record.withLsn lsn).updatedFrom rid = record.updatedFrom rid := by
  cases record <;> rfl

end LogRecord

/-- The old bytes in the first `Update` record of a slot. -/
def firstOld (records : List LogRecord) (rid : Rid) : Option Bytes :=
  records.findSome? fun record => record.updatedFrom rid

theorem firstOld_append (records : List LogRecord) (record : LogRecord) (rid : Rid) :
    firstOld (records ++ [record]) rid = (firstOld records rid).or (record.updatedFrom rid) := by
  simp [firstOld]

namespace Logical

/-- The copies hold the live tuples of the heap, those that have an `Update` record among the
records of the session as they were before the first. -/
structure Lags (count : ℕ) (logical : Logical) : Prop where
  log : count ≤ logical.log.length
  copy : ∀ {rid tuple}, logical.heap.get rid = some tuple →
    logical.shadow.get rid = some ((firstOld (logical.log.drop count) rid).getD tuple)
  placed : ∀ {rid}, (firstOld (logical.log.drop count) rid).isSome →
    ∃ page, logical.heap rid.pageId = some page ∧ rid.slotId.toNat < page.cells.length

variable {count : ℕ} {logical logical' : Logical} {rid : Rid} {table : String} {schema : Schema}

/-- The slots that a change of one tuple leaves where they were. -/
theorem exists_slot_of_touches {before after : Heap} (touches : Heap.Touches rid before after)
    {pageId : UInt32} {slot : ℕ}
    (inside : ∃ page, before pageId = some page ∧ slot < page.cells.length) :
    ∃ page, after pageId = some page ∧ slot < page.cells.length := by
  rcases inside with ⟨page, found, inside⟩
  have size := touches.size pageId
  rw [found, Option.map_some, Option.map_eq_some_iff] at size
  rcases size with ⟨page', found', same⟩
  exact ⟨page', found', by omega⟩

/-- Nothing changes but what is neither a page nor the log. -/
theorem Lags.of_core (lags : Lags count logical) (log : logical'.log = logical.log)
    (heap : logical'.heap = logical.heap) (shadow : logical'.shadow = logical.shadow) :
    Lags count logical' where
  log := log ▸ lags.log
  copy := by
    rw [heap, shadow, log]
    exact lags.copy
  placed := by
    rw [heap, log]
    exact lags.placed

theorem Lags.firstOld_append (lags : Lags count logical) (record : LogRecord) (rid : Rid) :
    firstOld ((logical.log ++ [record]).drop count) rid =
      (firstOld (logical.log.drop count) rid).or (record.updatedFrom rid) := by
  rw [List.drop_append_of_le_length lags.log, VenomDb.firstOld_append]

/-- A record that is not an update. -/
theorem Lags.append (lags : Lags count logical) {record : LogRecord}
    (other : ∀ rid, record.updatedFrom rid = none) : Lags count (logical.append record) := by
  have same (rid : Rid) : firstOld ((logical.append record).log.drop count) rid =
      firstOld (logical.log.drop count) rid := by
    rw [Logical.append, lags.firstOld_append, LogRecord.updatedFrom_withLsn, other, Option.or_none]
  refine ⟨lags.log.trans (by simp [Logical.append]), fun {rid tuple} live => ?_,
    fun {rid} updated => ?_⟩
  · rw [same]
    exact lags.copy live
  · rw [same] at updated
    exact lags.placed updated

theorem Lags.beginTxn (lags : Lags count logical) : Lags count logical.beginTxn :=
  (lags.of_core rfl rfl rfl : Lags count
    { logical with nextTxnId := logical.nextTxnId + 1 }).append fun _ => rfl

theorem Lags.commit (lags : Lags count logical) (txnId : UInt32) :
    Lags count (logical.commit txnId) :=
  lags.append fun _ => rfl

/-- A tuple is buried on its page and on the copy. -/
theorem Lags.deleteRow (lags : Lags count logical) (txnId : UInt32) (row : Row) :
    Lags count (logical.deleteRow table schema txnId rid row) := by
  let deleted : Logical := { logical with
    heap := logical.heap.update rid.pageId fun page => (page.deleteTuple rid.slotId.toNat).2
    shadow := logical.shadow.update rid.pageId fun page => (page.deleteTuple rid.slotId.toNat).2 }
  have touches (heap : Heap) : Heap.Touches rid heap
      (heap.update rid.pageId fun page => (page.deleteTuple rid.slotId.toNat).2) :=
    Heap.touches_update heap rid (fun page => page.length_deleteTuple _)
      fun page _ ne => page.get_deleteTuple_of_ne _ ne
  have buried : Lags count deleted := by
    refine ⟨lags.log, fun {other tuple} live => ?_, fun updated => ?_⟩
    · have apart : other ≠ rid := by
        rintro rfl
        exact absurd (live.symm.trans (get_delete logical.heap other)) (by simp)
      rw [(touches logical.heap).get apart] at live
      exact ((touches logical.shadow).get apart).trans (lags.copy live)
    · exact exists_slot_of_touches (touches logical.heap) (lags.placed updated)
  have logged : Lags count (deleted.append
      (.delete 0 txnId rid.pageId rid.slotId ((logical.shadow.get rid).getD []))) :=
    buried.append fun _ => rfl
  exact logged.of_core rfl rfl rfl

/-- An update is recorded, and the copy of its page stays as it is. -/
theorem Lags.logUpdate (lags : Lags count logical) {oldBytes : Bytes}
    (live : logical.heap.get rid = some oldBytes) (txnId : UInt32) (newBytes : Bytes) :
    Lags count (logical.logUpdate txnId rid oldBytes newBytes) := by
  have tail (other : Rid) :
    firstOld ((logical.logUpdate txnId rid oldBytes newBytes).log.drop count)
      other = (firstOld (logical.log.drop count) other).or
        (if other = rid then some oldBytes else none) := by
    rw [Logical.logUpdate, Logical.append, lags.firstOld_append, LogRecord.updatedFrom_withLsn]
    rfl
  refine ⟨lags.log.trans (by simp [Logical.logUpdate, Logical.append]),
    fun {other tuple} here => ?_, fun {other} updated => ?_⟩
  · have old := lags.copy here
    have shadow : (logical.logUpdate txnId rid oldBytes newBytes).shadow = logical.shadow := rfl
    rw [tail, shadow]
    cases first : firstOld (logical.log.drop count) other with
    | some data => simpa [first] using old
    | none =>
        rw [first] at old
        split_ifs with same
        · subst same
          obtain rfl : oldBytes = tuple := Option.some.inj (live.symm.trans here)
          simpa using old
        · simpa using old
  · rw [tail] at updated
    split_ifs at updated with same
    · subst same
      rcases Heap.exists_page_of_get live with ⟨page, found, here⟩
      exact ⟨page, found, (SlottedPage.get_eq_some here).1⟩
    · exact lags.placed (by simpa using updated)

/-- A tuple that has an `Update` record is overwritten. -/
theorem Lags.overwrite (lags : Lags count logical) {oldBytes newBytes : Bytes}
    (live : logical.heap.get rid = some oldBytes)
    (updated : (firstOld (logical.log.drop count) rid).isSome) :
    Lags count { logical with
      heap := logical.heap.update rid.pageId fun page =>
        page.overwrite rid.slotId.toNat newBytes } := by
  have touches : Heap.Touches rid logical.heap
      (logical.heap.update rid.pageId fun page => page.overwrite rid.slotId.toNat newBytes) :=
    Heap.touches_update logical.heap rid (fun page => page.length_overwrite _ _)
      fun page _ ne => page.get_overwrite_of_ne _ ne _
  refine ⟨lags.log, fun {other tuple} here => ?_, fun old => ?_⟩
  · by_cases same : other = rid
    · subst same
      rcases Option.isSome_iff_exists.mp updated with ⟨first, found⟩
      simpa [found] using lags.copy live
    · rw [touches.get same] at here
      exact lags.copy here
  · exact exists_slot_of_touches touches (lags.placed old)

theorem Lags.updateRow (lags : Lags count logical) {oldBytes newBytes : Bytes}
    (live : logical.heap.get rid = some oldBytes) (txnId : UInt32) (oldRow row : Row) :
    Lags count (logical.updateRow table schema txnId rid oldBytes newBytes oldRow row) := by
  have logged := lags.logUpdate live txnId newBytes
  have updated : (firstOld ((logical.logUpdate txnId rid oldBytes newBytes).log.drop count)
      rid).isSome := by
    rw [Logical.logUpdate, Logical.append, lags.firstOld_append, LogRecord.updatedFrom_withLsn]
    simp [LogRecord.updatedFrom]
  have overwritten : Lags count { logical.logUpdate txnId rid oldBytes newBytes with
      heap := logical.heap.update rid.pageId fun page =>
        page.overwrite rid.slotId.toNat newBytes } := logged.overwrite live updated
  exact overwritten.of_core rfl rfl rfl

theorem Lags.refuseRow (lags : Lags count logical) {oldBytes newBytes : Bytes}
    (live : logical.heap.get rid = some oldBytes) (txnId : UInt32) :
    Lags count (logical.refuseRow txnId rid oldBytes newBytes) :=
  (lags.logUpdate live txnId newBytes).append fun _ => rfl

theorem get_shadow_pushTuple {pageId : UInt32} {rowBytes : Bytes}
    (placed : Placed table pageId rowBytes.length logical) (txnId : UInt32) (rid : Rid) :
    (logical.pushTuple txnId pageId rowBytes).shadow.get rid =
      if rid = logical.nextRid pageId then some rowBytes else logical.shadow.get rid := by
  let copies : Logical := { logical with heap := logical.shadow }
  have room : ((copies.heap pageId).getD .empty).HasRoom rowBytes.length :=
    SlottedPage.hasRoom_of_lengths _ placed.copy placed.room
  have nextRid : copies.nextRid pageId = logical.nextRid pageId := by
    simp only [Logical.nextRid, copies, SlottedPage.length_of_lengths placed.copy]
  have pushed : (copies.pushTuple txnId pageId rowBytes).heap.get rid =
      if rid = copies.nextRid pageId then some rowBytes else logical.shadow.get rid :=
    get_pushTuple room rid
  rwa [nextRid] at pushed

/-- A tuple goes into the next slot of a page and of its copy. -/
theorem Lags.pushTuple {pageId : UInt32} {rowBytes : Bytes} (lags : Lags count logical)
    (placed : Placed table pageId rowBytes.length logical) (txnId : UInt32) :
    Lags count (logical.pushTuple txnId pageId rowBytes) := by
  have count' := SlottedPage.length_lt_of_hasRoom _ placed.room
  have fresh : firstOld (logical.log.drop count) (logical.nextRid pageId) = none := by
    apply Option.not_isSome_iff_eq_none.mp
    intro updated
    rcases lags.placed updated with ⟨page, found, inside⟩
    replace found : logical.heap pageId = some page := found
    simp only [Logical.nextRid, found, Option.getD_some] at inside count'
    rw [UInt16.toNat_ofNat_of_lt' (by simp [UInt16.size]; omega)] at inside
    omega
  have tail (rid : Rid) : firstOld ((logical.pushTuple txnId pageId rowBytes).log.drop count) rid =
      firstOld (logical.log.drop count) rid := by
    rw [Logical.pushTuple, Logical.logInsert, Logical.append, lags.firstOld_append,
      LogRecord.updatedFrom_withLsn]
    simp [LogRecord.updatedFrom]
  refine ⟨lags.log.trans (by simp [Logical.pushTuple, Logical.logInsert, Logical.append]),
    fun {rid tuple} live => ?_, fun {rid} updated => ?_⟩
  · rw [get_pushTuple placed.room] at live
    rw [get_shadow_pushTuple placed, tail]
    split_ifs at live ⊢ with same
    · subst same
      simpa [fresh] using live
    · exact lags.copy live
  · rw [tail] at updated
    rcases lags.placed updated with ⟨page, found, inside⟩
    by_cases same : rid.pageId = pageId
    · refine ⟨page.push rowBytes, ?_, ?_⟩
      · simp [Logical.pushTuple, ← same, found]
      · simp [SlottedPage.push]
        omega
    · exact ⟨page, (pushTuple_heap_of_ne same).trans found, inside⟩

theorem Lags.place {pageId : UInt32} {pageIds : List UInt32} {length : ℕ}
    (lags : Lags count logical)
    (placed : logical.place table length pageIds = some (pageId, logical')) :
    Lags count logical' := by
  unfold Logical.place at placed
  split at placed
  · obtain ⟨-, rfl⟩ : _ ∧ logical = logical' := by simpa using placed
    exact lags
  · split_ifs at placed
    obtain ⟨-, rfl⟩ : _ ∧ logical.allocate.listPage table logical.nextPageId = logical' := by
      simpa using placed
    exact lags.of_core rfl rfl rfl

/-- The copy of a page id that was taken for nothing is not the copy of a page. -/
theorem Lags.wastePage (lags : Lags count logical)
    (missing : logical.heap logical.nextPageId = none) :
    Lags count (logical.wastePage logical.nextPageId) := by
  refine ⟨lags.log, fun {rid tuple} live => ?_, lags.placed⟩
  have apart : rid.pageId ≠ logical.nextPageId := by
    rcases Heap.exists_page_of_get live with ⟨page, found, -⟩
    intro same
    exact absurd ((same ▸ missing).symm.trans found) (by simp)
  have same : (logical.wastePage logical.nextPageId).shadow.get rid = logical.shadow.get rid := by
    simp [Heap.get, Logical.wastePage, apart]
  exact same.trans (lags.copy live)

theorem Lags.execInsert (lags : Lags count logical) (tidy : Tidy logical)
    (bounded : Bounded logical)
    (table : String) (values : List Value) :
    Lags count (logical.execInsert table values).state := by
  rw [Logical.execInsert]
  cases known : logical.catalog.get table with
  | none => exact lags
  | some schema =>
      dsimp only
      rcases Executor.checkInsertKey schema logical.indexManager table values with failure | _
      · exact lags
      rcases encoded : schema.serializeRow values with failure | rowBytes
      · exact lags
      cases listed : logical.tablePages.lookup table with
      | none => exact lags.beginTxn
      | some pageIds =>
          dsimp only
          rw [insertBytes]
          cases placed : logical.beginTxn.place table rowBytes.length pageIds with
          | none => exact lags.beginTxn.wastePage bounded.missing
          | some chosen =>
              rcases chosen with ⟨pageId, logical'⟩
              have ready := tidy.beginTxn.placed bounded.missing bounded.toNat_nextPageId
                bounded.allocated listed placed
              have pushed := (lags.beginTxn.place placed).pushTuple ready logical.nextTxnId
              have kept : Lags count ((logical'.pushTuple logical.nextTxnId pageId
                rowBytes).maintain
                  table (logical'.nextRid pageId)
                    (Executor.indexCells schema none (some values))) :=
                pushed.of_core rfl rfl rfl
              exact kept.commit _

theorem Lags.deleteStep (lags : Lags count logical) (table : String) (schema : Schema)
    (filter : Option Expr) (txnId : UInt32) (rid : Rid) (tuple : Bytes) :
    Lags count (deleteStep table schema filter txnId rid tuple () logical).2 := by
  rcases deleteStep_cases table schema filter txnId rid tuple logical with
    ⟨failure, -, run⟩ | ⟨-, run⟩ | ⟨row, -, run⟩
  · exact run ▸ lags
  · exact run ▸ lags
  · exact run ▸ lags.deleteRow txnId row

theorem Lags.updateStep (lags : Lags count logical) (table : String) (schema : Schema)
    (assignments : List Assignment) (filter : Option Expr) (txnId : UInt32) {tuple : Bytes}
    (live : logical.heap.get rid = some tuple) :
    Lags count (updateStep table schema assignments filter txnId rid tuple () logical).2 := by
  rcases updateStep_cases table schema assignments filter txnId rid tuple logical with
    ⟨failure, run, -⟩ | ⟨-, run⟩ |
      ⟨oldRow, row, newBytes, -, -, ⟨-, run⟩ | ⟨-, run⟩⟩
  · exact run ▸ lags
  · exact run ▸ lags
  · exact run ▸ lags.updateRow live txnId oldRow row
  · exact run ▸ lags.refuseRow live txnId

/-- Every statement keeps the relation of the copies to the heap. -/
theorem Lags.execute [Build] (lags : Lags count logical) (tidy : Tidy logical)
    (bounded : Bounded logical) (order : HashOrder) (statement : Statement) :
    Lags count (logical.execute order statement).state := by
  cases statement with
  | createTable table columns =>
      simp only [Logical.execute, execCreateTable]
      split_ifs
      · exact lags.of_core rfl rfl rfl
      · exact lags.of_core rfl rfl rfl
  | insert table values => exact lags.execInsert tidy bounded table values
  | select table columns filter orderBy limit => exact lags
  | delete table filter =>
      rw [Logical.execute, execDelete]
      cases known : logical.catalog.get table with
      | none => exact lags
      | some schema =>
          cases listed : logical.tablePages.lookup table with
          | none => exact lags
          | some pageIds =>
              refine transact_preserves (Lags count) (fun txnId lags => lags.commit txnId) ?_
              exact scan_preserves_live isLocal_deleteStep (Lags count) (tidy.nodup_live listed)
                (fun entry _ _ _ lags _ => lags.deleteStep table schema filter _ entry.1 entry.2) ()
                (fun _ inside => (Heap.mem_live.mp inside).2) lags.beginTxn
  | update table assignments filter =>
      rw [Logical.execute, execUpdate]
      cases known : logical.catalog.get table with
      | none => exact lags
      | some schema =>
          cases listed : logical.tablePages.lookup table with
          | none => exact lags
          | some pageIds =>
              refine transact_preserves (Lags count) (fun txnId lags => lags.commit txnId) ?_
              exact scan_preserves_live isLocal_updateStep (Lags count) (tidy.nodup_live listed)
                (fun _ _ _ _ lags live => lags.updateStep table schema assignments filter _ live) ()
                (fun _ inside => (Heap.mem_live.mp inside).2) lags.beginTxn

/-- After a restart the copies are the pages that recovery built from the log. -/
theorem lags_restart (logical : Logical) (order : HashOrder) (numPages : ℕ) :
    Lags logical.log.length (logical.restart order numPages) where
  log := le_refl _
  copy := by
    intro rid tuple live
    have tail : (logical.restart order numPages).log.drop logical.log.length = [] :=
      List.drop_length
    rw [tail]
    exact get_of_below live
  placed := by
    intro rid updated
    have tail : (logical.restart order numPages).log.drop logical.log.length = [] :=
      List.drop_length
    simp [tail, firstOld] at updated

end Logical

end VenomDb
