import VenomDb.Engine.OrderBy
import VenomDb.Engine.Updates

/-!
# Statements that leak a pin

`Leaks` says of a statement, in the state before it, that it leaves a page pinned. As long as
no statement of a session does, every frame is free after each of them, and the next statement
leaves a pin if and only if it leaks.
-/

namespace VenomDb

namespace Executor

section Leaks

/-- A table is known, and a condition holds of its schema and its pages. -/
def OnTable (executor : Executor) (table : String) (holds : Schema → List UInt32 → Prop) : Prop :=
  ∃ schema pageIds, executor.catalog.get table = some schema ∧
    executor.tablePages.lookup table = some pageIds ∧ holds schema pageIds

/-- `UPDATE` meets a row that it cannot compare, assign to or rewrite before it meets one that
does not fit into its place. -/
def breaksUpdate (schema : Schema) (table : String) (assignments : List Assignment)
    (filter : Option Expr) : List (Rid × Bytes) → IndexManager → Bool
  | [], _ => false
  | (rid, tuple) :: entries, manager =>
      match selectRow schema .star filter tuple with
      | .error _ => true
      | .ok none => breaksUpdate schema table assignments filter entries manager
      | .ok (some oldRow) =>
          match rewriteRow schema manager table assignments oldRow with
          | .error _ => true
          | .ok (row, newBytes) =>
              if newBytes.length ≤ tuple.length then
                breaksUpdate schema table assignments filter entries
                  (manager.maintain table rid (indexCells schema (some oldRow) (some row)))
              else false

/-- A statement that fails with a page pinned. -/
def Leaks [Crc32] [Build] (executor : Executor) : Statement → Prop
  | .createTable _ _ => False
  | .insert table values => executor.OnTable table fun schema _ => ∃ rowBytes,
      checkInsertKey schema executor.indexManager table values = .ok () ∧
      schema.serializeRow values = .ok rowBytes ∧
      pageSize < PageHeader.size + Slot.size + rowBytes.length
  | .select table columns filter _ _ => executor.OnTable table fun schema pageIds =>
      executor.Unrouted table filter ∧
      ∃ tuple ∈ executor.tuplesOf pageIds, (selectRow schema columns filter tuple).isOk = false
  | .delete table filter => executor.OnTable table fun schema pageIds =>
      ∃ tuple ∈ executor.tuplesOf pageIds, (selectRow schema .star filter tuple).isOk = false
  | .update table assignments filter => executor.OnTable table fun schema pageIds =>
      breaksUpdate schema table assignments filter (executor.entriesOf pageIds)
        executor.indexManager

end Leaks

end Executor

namespace Logical

open Executor

variable {α : Type} {logical : Logical} {table : String} {schema : Schema}
  {columns : SelectColumns} {assignments : List Assignment} {filter : Option Expr}
  {txnId : UInt32}

/-- A scan that fails does so in one of its steps. -/
theorem scan_error {step : Rid → Bytes → α → Fallible Failure Logical (Bool × α)}
    {tuples : List (Rid × Bytes)} {result : α} {logical : Logical} {failure : Failure}
    (failed : (scan step tuples result logical).result = .error failure) :
    ∃ entry ∈ tuples, ∃ result' logical' logical'',
      step entry.1 entry.2 result' logical' = (.error failure, logical'') := by
  induction tuples generalizing result logical with
  | nil => simp [scan] at failed
  | cons head tuples ih =>
      rw [scan] at failed
      rcases ran : step head.1 head.2 result logical with ⟨other | ⟨changed, result'⟩, logical'⟩
      · rw [ran] at failed
        obtain rfl := Except.error.inj failed
        exact ⟨head, by simp, _, _, _, ran⟩
      · rw [ran] at failed
        rcases ih failed with ⟨entry, inside, found⟩
        exact ⟨entry, by simp [inside], found⟩

/-- A row is refused if it does not fit into an empty page. -/
theorem place_eq_none_iff {length : ℕ} {pageIds : List UInt32} :
    logical.place table length pageIds = none ↔
      pageSize < PageHeader.size + Slot.size + length := by
  have room : SlottedPage.empty.HasRoom length ↔
      PageHeader.size + Slot.size + length ≤ pageSize := by
    rw [SlottedPage.HasRoom, show SlottedPage.empty.used = 0 from rfl,
      show SlottedPage.empty.cells.length = 0 from rfl]
    omega
  rw [place]
  cases chosen : logical.firstFit length pageIds with
  | none =>
      simp only [room]
      split_ifs with fits
      · simpa using fits
      · simpa using fits
  | some pageId =>
      have fits := List.find?_some chosen
      rcases found : logical.heap pageId with _ | page
      · simp [found] at fits
      · have fits := page.hasRoom_of_freeSpace (by simpa [found] using fits)
        rw [SlottedPage.HasRoom, Nat.add_mul] at fits
        simp only [reduceCtorEq, false_iff, not_lt]
        omega

theorem transact_error_iff
    {step : UInt32 → Rid → Bytes → Unit → Fallible Failure Logical (Bool × Unit)}
    {pageIds : List UInt32} {failure : Failure} :
    (logical.transact step pageIds).result = .error failure ↔
      (logical.beginTxn.scan (step logical.nextTxnId) (logical.heap.live pageIds) ()).result =
        .error failure := by
  rw [transact]
  rcases logical.beginTxn.scan (step logical.nextTxnId) (logical.heap.live pageIds) () with
    ⟨other | ⟨⟩, changed, logical'⟩ <;> simp

/-- The one failure of a step that has to do with the place of a row is that it does not fit. -/
def Places (step : Rid → Bytes → α → Fallible Failure Logical (Bool × α)) : Prop :=
  ∀ rid tuple result logical failure logical',
    step rid tuple result logical = (.error failure, logical') → IsOfPlace failure →
    failure = .sql .updateLarger

theorem places_deleteStep : Places (deleteStep table schema filter txnId) := by
  rintro rid tuple ⟨⟩ logical failure logical' ran ofPlace
  rcases deleteStep_cases table schema filter txnId rid tuple logical with
    ⟨other, selected, run⟩ | ⟨-, run⟩ | ⟨row, -, run⟩
  · obtain rfl : other = failure := Except.error.inj (Prod.mk.inj (run.symm.trans ran)).1
    exact absurd ofPlace (avoids_selectRow schema .star filter tuple _ selected)
  · simp [run] at ran
  · simp [run] at ran

theorem places_updateStep : Places (updateStep table schema assignments filter txnId) := by
  rintro rid tuple ⟨⟩ logical failure logical' ran ofPlace
  rcases updateStep_cases table schema assignments filter txnId rid tuple logical with
    ⟨other, run, cause⟩ | ⟨-, run⟩ | ⟨oldRow, row, newBytes, -, -, ⟨-, run⟩ | ⟨-, run⟩⟩
  · obtain rfl : other = failure := Except.error.inj (Prod.mk.inj (run.symm.trans ran)).1
    rcases cause with selected | ⟨oldRow, -, rewritten⟩
    · exact absurd ofPlace (avoids_selectRow schema .star filter tuple _ selected)
    · exact absurd ofPlace (avoids_rewriteRow schema logical.indexManager table assignments oldRow _
        rewritten)
  · simp [run] at ran
  · simp [run] at ran
  · exact (Except.error.inj (Prod.mk.inj (run.symm.trans ran)).1).symm

theorem selectRows_fails_iff {tuples : List Bytes} :
    (∃ failure, selectRows schema columns filter tuples = .error failure) ↔
      ∃ tuple ∈ tuples, (selectRow schema columns filter tuple).isOk = false := by
  induction tuples with
  | nil => simp [selectRows_nil]
  | cons tuple tuples ih =>
      rw [selectRows_cons]
      rcases selected : selectRow schema columns filter tuple with failure | row
      · exact ⟨fun _ => ⟨tuple, by simp, by rw [selected]; rfl⟩, fun _ => ⟨failure, rfl⟩⟩
      · have here : (selectRow schema columns filter tuple).isOk = true := by rw [selected]; rfl
        simp only [List.exists_mem_cons_iff, here, ← ih]
        rcases selectRows schema columns filter tuples with failure | rows <;>
          simp [Except.bind, Except.map]

theorem selectRows_error {tuples : List Bytes} {failure : Failure}
    (failed : selectRows schema columns filter tuples = .error failure) :
    ∃ tuple ∈ tuples, selectRow schema columns filter tuple = .error failure := by
  induction tuples with
  | nil => simp [selectRows_nil] at failed
  | cons tuple tuples ih =>
      rw [selectRows_cons] at failed
      rcases selected : selectRow schema columns filter tuple with other | row
      · rw [selected] at failed
        obtain rfl : other = failure := Except.error.inj failed
        exact ⟨tuple, by simp, selected⟩
      · rw [selected] at failed
        rcases rest : selectRows schema columns filter tuples with other | rows
        · rw [rest] at failed
          obtain rfl : other = failure := Except.error.inj failed
          rcases ih rest with ⟨found, inside, cause⟩
          exact ⟨found, by simp [inside], cause⟩
        · rw [rest] at failed
          cases failed

theorem deleteStep_fails_iff {entries : List (Rid × Bytes)} :
    (∃ failure, (scan (deleteStep table schema filter txnId) entries () logical).result =
      .error failure ∧ failure ≠ .sql .updateLarger) ↔
      ∃ tuple ∈ entries.map Prod.snd, (selectRow schema .star filter tuple).isOk = false := by
  induction entries generalizing logical with
  | nil => simp [scan]
  | cons entry entries ih =>
      rcases entry with ⟨rid, tuple⟩
      rw [scan, List.map_cons, List.exists_mem_cons_iff]
      rcases deleteStep_cases table schema filter txnId rid tuple logical with
        ⟨failure, selected, run⟩ | ⟨selected, run⟩ | ⟨row, selected, run⟩
      · rw [run, selected]
        have other := (avoids_selectRow schema .star filter tuple).ne selected
        exact ⟨fun _ => .inl rfl, fun _ => ⟨failure, rfl, other⟩⟩
      · rw [run, selected]
        exact ih.trans ⟨.inr, fun either => either.resolve_left (by rintro ⟨⟩)⟩
      · rw [run, selected]
        exact ih.trans ⟨.inr, fun either => either.resolve_left (by rintro ⟨⟩)⟩

theorem updateStep_fails_iff {entries : List (Rid × Bytes)} :
    (∃ failure, (scan (updateStep table schema assignments filter txnId) entries ()
      logical).result =
      .error failure ∧ failure ≠ .sql .updateLarger) ↔
      breaksUpdate schema table assignments filter entries logical.indexManager := by
  induction entries generalizing logical with
  | nil => simp [scan, breaksUpdate]
  | cons entry entries ih =>
      rcases entry with ⟨rid, tuple⟩
      rw [scan, breaksUpdate]
      rcases updateStep_cases table schema assignments filter txnId rid tuple logical with
        ⟨failure, run, selected | ⟨oldRow, selected, rewritten⟩⟩ | ⟨selected, run⟩ |
        ⟨oldRow, row, newBytes, selected, rewritten, ⟨fits, run⟩ | ⟨larger, run⟩⟩
      · rw [run, selected]
        simp [(avoids_selectRow schema .star filter tuple).ne selected]
      · rw [run, selected]
        simp [rewritten, (avoids_rewriteRow schema logical.indexManager table assignments
          oldRow).ne rewritten]
      · rw [run, selected]
        exact ih
      · rw [run, selected]
        simp only [rewritten, if_pos fits]
        exact ih
      · rw [run, selected]
        simp [rewritten, larger]

end Logical

namespace Executor

variable {executor executor' : Executor} {logical logical' : Logical} {table : String}
  {result : Except Failure (List Row)}

theorem onTable_iff {schema : Schema} {pageIds : List UInt32}
    {holds : Schema → List UInt32 → Prop} (known : executor.catalog.get table = some schema)
    (listed : executor.tablePages.lookup table = some pageIds) :
    executor.OnTable table holds ↔ holds schema pageIds := by
  simp [OnTable, known, listed]

/-- No table of that name has pages. -/
def Untabled (executor : Executor) (table : String) : Prop :=
  ∀ schema pageIds, executor.catalog.get table = some schema →
    executor.tablePages.lookup table ≠ some pageIds

theorem Untabled.not_onTable {holds : Schema → List UInt32 → Prop}
    (untabled : executor.Untabled table) : ¬executor.OnTable table holds := by
  rintro ⟨schema, pageIds, known, listed, -⟩
  exact untabled schema pageIds known listed

/-- How the statements that name a table begin. -/
theorem tables_cases {next : Schema → List UInt32 → Action (List Row)}
    (run : (do
      let schema ← schemaOf table
      let pageIds ← pagesOf table
      next schema pageIds) executor = (result, executor')) :
    (executor' = executor ∧ executor.Untabled table) ∨
    ∃ schema pageIds, executor.catalog.get table = some schema ∧
      executor.tablePages.lookup table = some pageIds ∧
      next schema pageIds executor = (result, executor') := by
  rcases known : executor.catalog.get table with _ | schema
  · have unknown := schemaOf_of_unknown known
    rw [Fallible.bind_error unknown] at run
    exact .inl ⟨(Prod.mk.inj run).2.symm, by simp [Untabled, known]⟩
  · have hasSchema := schemaOf_of_known known
    rw [Fallible.bind_ok hasSchema] at run
    rcases listed : executor.tablePages.lookup table with _ | pageIds
    · have unlisted := pagesOf_of_unlisted listed
      rw [Fallible.bind_error unlisted] at run
      exact .inl ⟨(Prod.mk.inj run).2.symm, by simp [Untabled, listed]⟩
    · have hasPages := pagesOf_of_listed listed
      rw [Fallible.bind_ok hasPages] at run
      exact .inr ⟨schema, pageIds, rfl, rfl, run⟩

variable [Crc32]

theorem Reflects.tabled {inUse : Option FrameId} {schema : Schema} {pageIds : List UInt32}
    (reflects : Reflects executor logical inUse) (known : executor.catalog.get table = some schema)
    (listed : executor.tablePages.lookup table = some pageIds) :
    logical.catalog.get table = some schema ∧ logical.tablePages.lookup table = some pageIds := by
  rw [← known, ← listed, ← reflects.core]
  exact ⟨rfl, rfl⟩

/-- Whether a statement leaks decides how many pins it leaves. -/
structure Counts (leaks : Prop) (executor : Executor) (logical : Logical) : Prop where
  leaked : leaks → ∃ frameId, executor.Holds frameId
  idle : ¬leaks → executor.Idle
  rests : ¬leaks → Rests executor logical

theorem counts_of_idle {leaks : Prop} (sound : ¬leaks) (idle : executor.Idle)
    (rests : Rests executor logical) : Counts leaks executor logical :=
  ⟨fun leaked => absurd leaked sound, fun _ => idle, fun _ => rests⟩

/-- A transaction leaves a pin if a step of its scan fails for a reason other than the size of a
row. -/
theorem transact_counts
    {body : UInt32 → UInt32 → FrameId → UInt16 → Bool → Bytes → Unit → Action (Bool × Unit)}
    {step : UInt32 → Rid → Bytes → Unit → Fallible Failure Logical (Bool × Unit)}
    (refines : ∀ txnId, BodyRefines (body txnId) (step txnId))
    (balances : ∀ txnId, Balances (body txnId)) (places : ∀ txnId, Logical.Places (step txnId))
    (rests : Rests executor logical) (idle : executor.Idle) {pageIds : List UInt32}
    (nodup : pageIds.Nodup) (present : ∀ pageId ∈ pageIds, (logical.heap pageId).isSome)
    (run : transact body pageIds executor = (result, executor'))
    (returned : ∀ panic, result ≠ .error (.panic panic)) :
    Counts (∃ failure, (logical.transact step pageIds).result = .error failure ∧
      failure ≠ .sql .updateLarger) executor' (logical.transact step pageIds).state := by
  have ended := ends_transact balances pageIds executor idle
  have placed (failure : Failure)
      (failed : (logical.transact step pageIds).result = .error failure)
      (ofPlace : IsOfPlace failure) : failure = .sql .updateLarger := by
    rcases Logical.scan_error (Logical.transact_error_iff.mp failed) with
      ⟨entry, -, after, before, logical', ran⟩
    exact places _ _ _ _ _ _ _ ran ofPlace
  rcases transact_ends refines rests nodup present with ends | ⟨-, full, -⟩
  · rw [run] at ends ended
    generalize logical.transact step pageIds = abstract at ends placed ⊢
    rcases result with failure | rows <;> rcases abstract with ⟨expected | rows', changed, logical'⟩
    · obtain ⟨rfl, rests', -⟩ : failure = expected ∧
          (changed = false ∨ failure = .sql .updateLarger → Rests executor' logical') ∧
          ∃ frameId, Advances executor executor' (some frameId) := by
        rcases failure with _ | _ | panic
        · exact ends
        · exact ends
        · exact absurd rfl (returned panic)
      rcases ended with ⟨panic, rfl⟩ | ⟨ofPlace, idle'⟩ | ⟨elsewhere, holds⟩
      · exact absurd rfl (returned panic)
      · have larger := placed failure rfl ofPlace
        exact counts_of_idle (by simp [larger]) idle' (rests' (.inr larger))
      · have other : failure ≠ .sql .updateLarger := by
          rintro rfl
          exact elsewhere trivial
        exact ⟨fun _ => holds, fun sound => absurd ⟨failure, rfl, other⟩ sound,
          fun sound => absurd ⟨failure, rfl, other⟩ sound⟩
    · rcases failure with _ | _ | panic
      · exact ends.elim
      · exact ends.elim
      · exact absurd rfl (returned panic)
    · exact ends.elim
    · exact counts_of_idle (by simp) ended ends.2.1
  · exact absurd full idle.ready.not_full

variable [Build] {order : HashOrder} {stmt : Statement}

/-- A statement that changes no row when it fails, with all frames free. -/
theorem Rests.execute_spared (rests : Rests executor logical) (usable : logical.Usable)
    (idle : executor.Idle) (run : execute order stmt executor = (result, executor'))
    (returned : ∀ panic, result ≠ .error (.panic panic)) (spares : executor.Spares stmt) :
    Rests executor' (logical.execute order stmt).state := by
  rcases result with failure | rows
  · rcases rests.execute_error usable run (by simpa using returned) spares with
      ⟨-, -, rests', -⟩ | ⟨full, -⟩
    · exact rests'
    · exact absurd full idle.ready.not_full
  · exact (rests.execute_ok usable run).2.1

theorem execDelete_counts (rests : Rests executor logical) (usable : logical.Usable)
    (idle : executor.Idle) {filter : Option Expr}
    (run : execute order (.delete table filter) executor = (result, executor'))
    (returned : ∀ panic, result ≠ .error (.panic panic)) :
    Counts (executor.Leaks (.delete table filter)) executor'
      (logical.execute order (.delete table filter)).state := by
  rcases tables_cases run with ⟨rfl, untabled⟩ | ⟨schema, pageIds, known, listed, ran⟩
  · refine counts_of_idle untabled.not_onTable idle
      (rests.execute_spared usable idle run returned ?_)
    exact fun schema pageIds tuple known listed => absurd listed (untabled schema pageIds known)
  · rcases rests.reflects.tabled known listed with ⟨known', listed'⟩
    have counts := transact_counts (delete_refines table schema filter)
      (balances_delete table schema filter) (fun _ => Logical.places_deleteStep) rests idle
      (usable.nodup listed') (usable.present listed') ran returned
    simp only [Logical.transact_error_iff, Logical.deleteStep_fails_iff] at counts
    have logically : logical.execute order (.delete table filter) =
        logical.transact (Logical.deleteStep table schema filter) pageIds := by
      simp [Logical.execute, Logical.execDelete, known', listed']
    rw [logically, Leaks, onTable_iff known listed,
      rests.reflects.tuplesOf (usable.present listed')]
    exact counts

theorem execUpdate_counts (rests : Rests executor logical) (usable : logical.Usable)
    (idle : executor.Idle) {assignments : List Assignment} {filter : Option Expr}
    (run : execute order (.update table assignments filter) executor = (result, executor'))
    (returned : ∀ panic, result ≠ .error (.panic panic)) :
    Counts (executor.Leaks (.update table assignments filter)) executor'
      (logical.execute order (.update table assignments filter)).state := by
  rcases tables_cases run with ⟨rfl, untabled⟩ | ⟨schema, pageIds, known, listed, ran⟩
  · refine counts_of_idle untabled.not_onTable idle
      (rests.execute_spared usable idle run returned ?_)
    exact fun schema pageIds tuple known listed => absurd listed (untabled schema pageIds known)
  · rcases rests.reflects.tabled known listed with ⟨known', listed'⟩
    have counts := transact_counts (update_refines table schema assignments filter)
      (balances_update table schema assignments filter) (fun _ => Logical.places_updateStep) rests
      idle (usable.nodup listed') (usable.present listed') ran returned
    simp only [Logical.transact_error_iff, Logical.updateStep_fails_iff] at counts
    have logically : logical.execute order (.update table assignments filter) =
        logical.transact (Logical.updateStep table schema assignments filter) pageIds := by
      simp [Logical.execute, Logical.execUpdate, known', listed']
    have indexes : executor.indexManager = logical.indexManager := rests.reflects.indexManager_eq
    rw [logically, Leaks, onTable_iff known listed, indexes,
      rests.reflects.entriesOf (usable.present listed')]
    exact counts

section Select

variable {schema : Schema} {columns : SelectColumns} {filter : Option Expr}
  {pageIds : List UInt32} {answer : Except Failure (List Row)}

/-- An answer through an index keeps no pin, whatever it is. -/
theorem idle_of_routed (idle : executor.Idle) (routed : ¬executor.Unrouted table filter)
    (found : findRows table schema columns filter pageIds executor = (answer, executor'))
    (returned : ∀ panic, answer ≠ .error (.panic panic)) : executor'.Idle := by
  obtain ⟨expr, rfl, answers⟩ : ∃ expr, filter = some expr ∧
      indexRids executor.indexManager table expr ≠ .ok none := by
    cases filter with
    | none => exact absurd (by simp [Unrouted]) routed
    | some expr => exact ⟨expr, rfl, by simpa [Unrouted] using routed⟩
  simp only [findRows, Fallible.bind_apply, tryIndexSelect_eq] at found
  rcases answered : indexRids executor.indexManager table expr with failure | _ | rids
  · rw [answered] at found
    exact (Prod.mk.inj found).2 ▸ idle
  · exact absurd answered answers
  · have ends := ends_selectRids schema columns expr pageIds rids [] executor idle
    rw [answered] at found
    dsimp only at found
    generalize selectRids schema columns expr pageIds rids [] executor = searched at found ends
    rcases searched with ⟨failure | rows, searched⟩
    · obtain ⟨rfl, rfl⟩ := Prod.mk.inj found
      rcases ends with ⟨panic, rfl⟩ | idle'
      · exact absurd rfl (returned panic)
      · exact idle'
    · obtain ⟨-, rfl⟩ := Prod.mk.inj found
      exact ends

omit [Build] in
/-- A scan keeps a pin if a tuple fails. -/
theorem seqScan_counts (reflects : Reflects executor logical none) (idle : executor.Idle)
    (nodup : pageIds.Nodup) (present : ∀ pageId ∈ pageIds, (logical.heap pageId).isSome)
    (run : seqScan schema columns filter pageIds executor = (answer, executor'))
    (returned : ∀ panic, answer ≠ .error (.panic panic)) :
    ((∃ tuple ∈ logical.tuples pageIds, (selectRow schema columns filter tuple).isOk = false) →
      ∃ frameId, executor'.Holds frameId) ∧
    ((¬∃ tuple ∈ logical.tuples pageIds, (selectRow schema columns filter tuple).isOk = false) →
      executor'.Idle) := by
  have ended := ends_seqScan schema columns filter pageIds executor idle
  rcases seqScan_ends schema columns filter reflects nodup present with
    ⟨same, -⟩ | noFrame | overpins
  · rw [run] at same ended
    rw [← Logical.selectRows_fails_iff]
    rcases answer with failure | rows
    · rcases ended with ⟨panic, rfl⟩ | ⟨ofPlace, -⟩ | ⟨-, holds⟩
      · exact absurd rfl (returned panic)
      · rcases Logical.selectRows_error same.symm with ⟨tuple, -, failed⟩
        exact absurd ofPlace (avoids_selectRow schema columns filter tuple _ failed)
      · exact ⟨fun _ => holds, fun fine => absurd ⟨failure, same.symm⟩ fine⟩
    · refine ⟨?_, fun _ => ended⟩
      rintro ⟨failure, failed⟩
      rw [← same] at failed
      simp at failed
  · exact absurd noFrame.full idle.ready.not_full
  · exact absurd overpins.overpinned idle.ready.not_overpinned

theorem execSelect_counts (rests : Rests executor logical) (usable : logical.Usable)
    (idle : executor.Idle) {orderBy : Option (String × OrderDir)} {limit : Option UInt64}
    (run : execute order (.select table columns filter orderBy limit) executor =
      (result, executor'))
    (returned : ∀ panic, result ≠ .error (.panic panic)) :
    Counts (executor.Leaks (.select table columns filter orderBy limit)) executor'
      (logical.execute order (.select table columns filter orderBy limit)).state := by
  have rests' := rests.execute_spared usable idle run returned trivial
  rcases tables_cases run with ⟨rfl, untabled⟩ | ⟨schema, pageIds, known, listed, ran⟩
  · exact counts_of_idle untabled.not_onTable idle rests'
  · obtain ⟨answer, found, returned'⟩ : ∃ answer,
        findRows table schema columns filter pageIds executor = (answer, executor') ∧
        ∀ panic, answer ≠ .error (.panic panic) := by
      rw [Fallible.bind_apply] at ran
      rcases found : findRows table schema columns filter pageIds executor with
        ⟨failure | rows, searched⟩
      · rw [found] at ran
        obtain ⟨rfl, rfl⟩ := Prod.mk.inj ran
        exact ⟨_, rfl, by simpa using returned⟩
      · rw [found] at ran
        refine ⟨.ok rows, ?_, by simp⟩
        simp only [← Fallible.ofExcept_bind] at ran
        exact congrArg (Except.ok rows, ·) (Prod.mk.inj ran).2
    rcases rests.reflects.tabled known listed with ⟨-, listed'⟩
    rw [Leaks, onTable_iff known listed, rests.reflects.tuplesOf (usable.present listed')]
    by_cases unrouted : executor.Unrouted table filter
    · rw [findRows_unrouted unrouted] at found
      rcases seqScan_counts rests.reflects idle (usable.nodup listed') (usable.present listed')
        found returned' with ⟨leaked, fine⟩
      exact ⟨fun leaks => leaked leaks.2, fun sound => fine fun fails => sound ⟨unrouted, fails⟩,
        fun _ => rests'⟩
    · exact counts_of_idle (fun leaks => unrouted leaks.1)
        (idle_of_routed idle unrouted found returned') rests'

end Select

omit [Build] in
/-- `INSERT` once its row is encoded and its transaction has begun. -/
theorem insertBytes_counts {values : List Value} {rowBytes : Bytes} {schema : Schema}
    {pageIds : List UInt32} {txnId : UInt32} (reflects : Reflects executor logical none)
    (usable : logical.Usable) (idle : executor.Idle)
    (present : ∀ pageId ∈ pageIds, (logical.heap pageId).isSome)
    (run : (do
      let rid ← placeRow txnId table rowBytes pageIds
      modifyIndexes (IndexManager.maintain table rid (indexCells schema none (some values)))
      onWal (WalManager.commit txnId)
      flushPages [rid.pageId]
      return []) executor = (result, executor'))
    (returned : ∀ panic, result ≠ .error (.panic panic)) :
    (pageSize < PageHeader.size + Slot.size + rowBytes.length →
      ∃ frameId, executor'.Holds frameId) ∧
    (¬pageSize < PageHeader.size + Slot.size + rowBytes.length → executor'.Idle) := by
  have overfull : logical.place table rowBytes.length pageIds = none ↔
      pageSize < PageHeader.size + Slot.size + rowBytes.length := Logical.place_eq_none_iff
  rw [← overfull]
  have placing := ends_placeRow txnId table rowBytes pageIds
  rcases placeRow_ends reflects usable txnId table rowBytes present with
    ⟨pageId, logical', placed, chosen, place, -⟩ | ⟨failed, chosen, place, -⟩ |
      ⟨panic, failed, place, -⟩ | noFrame
  · rw [Fallible.bind_ok place] at run
    have ended := ends_insert_finishes table (logical'.nextRid pageId)
      (indexCells schema none (some values)) txnId placed (placing.ok idle place)
    rw [run] at ended
    refine ⟨fun full => absurd (full.symm.trans chosen) (by simp), fun _ => ?_⟩
    cases result <;> exact ended
  · rw [Fallible.bind_error place] at run
    obtain rfl : failed = executor' := (Prod.mk.inj run).2
    exact ⟨fun _ => (placing.error idle place).2 .pageFull rfl, fun fits => absurd chosen fits⟩
  · rw [Fallible.bind_error place] at run
    exact absurd (Prod.mk.inj run).1.symm (returned _)
  · exact absurd noFrame.full idle.ready.not_full

theorem execInsert_counts (rests : Rests executor logical) (usable : logical.Usable)
    (idle : executor.Idle) {values : List Value}
    (run : execute order (.insert table values) executor = (result, executor'))
    (returned : ∀ panic, result ≠ .error (.panic panic)) :
    Counts (executor.Leaks (.insert table values)) executor'
      (logical.execute order (.insert table values)).state := by
  have rests' := rests.execute_spared usable idle run returned trivial
  rw [execute, execInsert] at run
  rcases known : executor.catalog.get table with _ | schema
  · have unknown := schemaOf_of_unknown known
    rw [Fallible.bind_error unknown] at run
    obtain rfl : executor = executor' := (Prod.mk.inj run).2
    exact counts_of_idle (Untabled.not_onTable (by simp [Untabled, known])) idle rests'
  have hasSchema := schemaOf_of_known known
  rw [Fallible.bind_ok hasSchema, Fallible.get_bind] at run
  rcases checked : checkInsertKey schema executor.indexManager table values with failure | ⟨⟩
  · rw [checked, Fallible.ofExcept_error_bind] at run
    obtain rfl : executor = executor' := (Prod.mk.inj run).2
    refine counts_of_idle ?_ idle rests'
    rintro ⟨other, pageIds, known', -, rowBytes, checked', -⟩
    obtain rfl : schema = other := Option.some.inj (known.symm.trans known')
    simp [checked] at checked'
  rw [checked, Fallible.ofExcept_ok_bind] at run
  rcases encoded : schema.serializeRow values with failure | rowBytes
  · rw [encoded, Fallible.ofExcept_error_bind] at run
    obtain rfl : executor = executor' := (Prod.mk.inj run).2
    refine counts_of_idle ?_ idle rests'
    rintro ⟨other, pageIds, known', -, rowBytes, -, encoded', -⟩
    obtain rfl : schema = other := Option.some.inj (known.symm.trans known')
    simp [encoded] at encoded'
  rw [encoded, Fallible.ofExcept_ok_bind] at run
  by_cases room : logical.nextTxnId.toNat + 1 < 2 ^ 32
  swap
  · rw [Fallible.bind_error (rests.reflects.beginTxn_panic room)] at run
    exact absurd (Prod.mk.inj run).1.symm (returned _)
  rcases rests.reflects.beginTxn room with ⟨begun, begin, reflects, pool⟩
  have idle' : begun.bufferPool.Idle := pool ▸ idle
  rw [Fallible.bind_ok begin] at run
  rcases listed : executor.tablePages.lookup table with _ | pageIds
  · have unlisted : logical.beginTxn.tablePages.lookup table = none := by
      rw [← listed, rests.reflects.tablePages_eq]
      rfl
    rw [Fallible.bind_error (reflects.pagesOf_none unlisted)] at run
    obtain rfl : begun = executor' := (Prod.mk.inj run).2
    exact counts_of_idle (Untabled.not_onTable (by simp [Untabled, listed])) idle' rests'
  · rcases rests.reflects.tabled known listed with ⟨-, listed'⟩
    rw [Fallible.bind_ok (reflects.pagesOf_some listed')] at run
    have leaks_iff : executor.Leaks (.insert table values) ↔
        pageSize < PageHeader.size + Slot.size + rowBytes.length := by
      rw [Leaks, onTable_iff known listed]
      simp [checked, encoded]
    have usable' : logical.beginTxn.Usable :=
      ⟨usable.nodup, usable.present, usable.shaped, usable.unallocated⟩
    rcases insertBytes_counts reflects usable' idle' (usable.present listed') run returned with
      ⟨leaked, fine⟩
    rw [leaks_iff]
    exact ⟨leaked, fine, fun _ => rests'⟩

theorem execute_counts (rests : Rests executor logical) (usable : logical.Usable)
    (idle : executor.Idle) (run : execute order stmt executor = (result, executor'))
    (returned : ∀ panic, result ≠ .error (.panic panic)) :
    Counts (executor.Leaks stmt) executor' (logical.execute order stmt).state := by
  cases stmt with
  | createTable table columns =>
      have rests' := rests.execute_spared usable idle run returned trivial
      have ended := ends_execCreateTable order table columns executor idle
      have run : execCreateTable order table columns executor = (result, executor') := run
      rw [run] at ended
      refine counts_of_idle id ?_ rests'
      cases result <;> exact ended
  | insert table values => exact execInsert_counts rests usable idle run returned
  | select table columns filter orderBy limit =>
      exact execSelect_counts rests usable idle run returned
  | delete table filter => exact execDelete_counts rests usable idle run returned
  | update table assignments filter => exact execUpdate_counts rests usable idle run returned

section Runs

variable {stmts : List Statement}

/-- The states of a session in which every statement returns and none leaks. It starts on an empty
directory or on one that a run has left. -/
inductive Balanced : Executor → Prop
  | start {order : HashOrder} {info : RecoveryInfo} {executor : Executor}
      (run : start order Files.empty = (.ok info, executor)) : Balanced executor
  | restart {order : HashOrder} {info : RecoveryInfo} {executor executor' : Executor}
      (before : Reachable IsSpared executor)
      (run : Executor.start order executor.files = (.ok info, executor')) : Balanced executor'
  | execute {order : HashOrder} {stmt : Statement} {result : Except Failure (List Row)}
      {executor executor' : Executor} (before : Balanced executor)
      (run : execute order stmt executor = (result, executor'))
      (returned : Returns executor stmt result) (sound : ¬executor.Leaks stmt) :
      Balanced executor'

theorem Balanced.follows (balanced : Balanced executor) :
    executor.Idle ∧ ∃ logical, Rests executor logical ∧ logical.Tidy := by
  induction balanced with
  | @start order _ _ run =>
      rcases start_empty order with ⟨info, executor, same, rests, -⟩
      obtain ⟨-, rfl⟩ := Prod.mk.inj (same.symm.trans run)
      have sound : Logical.Sound none (Logical.initial.restart order 0) :=
        Logical.sound_initial.restart order (by simp [Logical.initial, Heap.empty])
      exact ⟨idle_of_start run, _, rests, sound.tidy⟩
  | @restart order _ executor _ before run =>
      rcases before.follows with ⟨logical, rests, follows⟩
      have sound := follows.sound id
      rcases rests.restart sound order with ⟨info, executor', same, rests', -⟩
      obtain ⟨-, rfl⟩ := Prod.mk.inj (same.symm.trans run)
      exact ⟨idle_of_start run, _, rests', (sound.restart order rests.inside).tidy⟩
  | @execute order stmt result executor executor' before run returned sound ih =>
      rcases ih with ⟨idle, logical, rests, tidy⟩
      have counts := execute_counts rests tidy.usable idle run returned
      exact ⟨counts.idle sound, _, counts.rests sound, tidy.execute rests.bounded order stmt⟩

/-- Every frame of the pool has a pin count of zero. -/
def Unpinned (executor : Executor) : Prop :=
  ∀ frameId, (executor.bufferPool.frames frameId).pinCount = 0

omit [Crc32] [Build] in
theorem Idle.unpinned (idle : executor.Idle) : executor.Unpinned :=
  fun frameId => (idle.free frameId (by simp)).1

/-- While no statement leaks every pin is returned, and the next statement returns its pins if and
only if it does not leak. -/
theorem unpinned_iff (balanced : Balanced executor) :
    executor.Unpinned ∧ ∀ order stmt result executor',
      execute order stmt executor = (result, executor') → Returns executor stmt result →
      (executor'.Unpinned ↔ ¬executor.Leaks stmt) := by
  rcases balanced.follows with ⟨idle, logical, rests, tidy⟩
  refine ⟨idle.unpinned, fun order stmt result executor' run returned => ?_⟩
  have counts := execute_counts rests tidy.usable idle run returned
  refine ⟨fun unpinned leaks => ?_, fun sound => Idle.unpinned (counts.idle sound)⟩
  rcases counts.leaked leaks with ⟨frameId, holds⟩
  have one := holds.count frameId rfl
  rw [unpinned frameId] at one
  exact absurd one (by decide)

/-- A statement that succeeds does not leak. -/
theorem Session.balanced (session : Session Succeeds stmts executor) : Balanced executor := by
  induction session with
  | start run => exact .start run
  | @execute order stmts stmt result executor executor' before run admitted ih =>
      rcases ih.follows with ⟨idle, logical, rests, tidy⟩
      rcases result with failure | rows
      · simp [Succeeds, Except.isOk, Except.toBool] at admitted
      · have returned : Returns executor stmt (.ok rows) := by simp [Returns]
        have counts := execute_counts rests tidy.usable idle run returned
        refine ih.execute run returned fun leaks => ?_
        rcases counts.leaked leaks with ⟨frameId, holds⟩
        have idle' : executor'.Idle := (ends_execute order stmt).ok idle run
        exact absurd ((holds.count frameId rfl).symm.trans (idle'.unpinned frameId)) (by decide)

end Runs

end Executor

namespace Sample

attribute [local instance] Crc32.ieee Build.debug

open Executor

/-- `SELECT * FROM t WHERE b = 1`; the table has no column of that name. -/
def selectUnknown : Statement := .select "t" .star (some ⟨"b", .eq, .int 1⟩) none none

theorem leaks_selectUnknown {executor : Executor} (rests : Rests executor insertedTwo)
    (usable : insertedTwo.Usable) : executor.Leaks selectUnknown := by
  have known : executor.catalog.get "t" =
      some (Schema.new "t" [⟨"id", .int, true⟩, ⟨"a", .int, false⟩]) := by
    rw [rests.reflects.catalog_eq]
    rfl
  have listed : insertedTwo.tablePages.lookup "t" = some [0] := rfl
  have listed' : executor.tablePages.lookup "t" = some [0] := by
    rw [rests.reflects.tablePages_eq, listed]
  rw [selectUnknown, Leaks, onTable_iff known listed',
    rests.reflects.tuplesOf (usable.present listed)]
  refine ⟨?_, [0, 1, 0, 0, 0, 0, 0, 0, 0, 0, 7, 0, 0, 0, 0, 0, 0, 0], ?_, by decide⟩
  · rintro expr ⟨⟩
    rw [rests.reflects.indexManager_eq]
    rfl
  · have tuples : insertedTwo.tuples [0] = [[0, 1, 0, 0, 0, 0, 0, 0, 0, 0, 7, 0, 0, 0, 0, 0, 0, 0],
      [0, 2, 0, 0, 0, 0, 0, 0, 0, 2]] := rfl
    rw [tuples]
    simp

/-- A `SELECT` that returns `Err` and leaves a pin. -/
theorem select_leaks :
    ∃ (executor executor' : Executor) (frameId : FrameId),
      Session Succeeds [create, insertSeven, insertNull] executor ∧ executor.Unpinned ∧
      execute .ofInsertion selectUnknown executor =
        (.error (.sql (.columnNotFound "b")), executor') ∧
      (executor'.bufferPool.frames frameId).pinCount = 1 := by
  rcases attains_insertedTwo with ⟨executor, session, rests, follows, idle⟩
  have usable := (follows.sound .inl).usable
  rcases rests.execute_fails usable ⟨by decide, by decide⟩ idle
    (show insertedTwo.execute .ofInsertion selectUnknown =
      ⟨.error (.sql (.columnNotFound "b")), false,
        (insertedTwo.execute .ofInsertion selectUnknown).state⟩ from rfl) (by decide)
          (.inl rfl) with
    ⟨failed, run, -⟩
  have counts := execute_counts rests usable idle run (by simp)
  rcases counts.leaked (leaks_selectUnknown rests usable) with ⟨frameId, holds⟩
  exact ⟨executor, failed, frameId, session, idle.unpinned, run, holds.count frameId rfl⟩

/-- The same `SELECT` in the terms of the general statement. -/
theorem unpinned_iff_insertedTwo :
    ∃ (executor executor' : Executor), Balanced executor ∧ executor.Unpinned ∧
      execute .ofInsertion selectUnknown executor =
        (.error (.sql (.columnNotFound "b")), executor') ∧
      (executor'.Unpinned ↔ ¬executor.Leaks selectUnknown) := by
  rcases attains_insertedTwo with ⟨executor, session, rests, follows, idle⟩
  rcases rests.execute_fails (follows.sound .inl).usable ⟨by decide, by decide⟩ idle
    (show insertedTwo.execute .ofInsertion selectUnknown =
      ⟨.error (.sql (.columnNotFound "b")), false,
        (insertedTwo.execute .ofInsertion selectUnknown).state⟩ from rfl) (by decide)
          (.inl rfl) with
    ⟨failed, run, -⟩
  rcases unpinned_iff session.balanced with ⟨unpinned, next⟩
  exact ⟨executor, failed, session.balanced, unpinned, run, next _ _ _ _ run (by simp [Returns])⟩

end Sample

end VenomDb
