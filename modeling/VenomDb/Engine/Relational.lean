import VenomDb.Engine.Keys
import VenomDb.Engine.Survival

/-!
# The relational model

What the engine is for: a table is a schema and a multiset of rows, `INSERT` adds a row,
`DELETE` removes the rows that satisfy its filter, and `UPDATE` assigns to them. The rows
of a heap page by page are such a multiset, and every statement that succeeds does to it
what the relational model says.
-/

namespace VenomDb

/-- The schema and the rows of every table. -/
abbrev Relations := String → Option (Schema × Multiset Row)

namespace Relations

variable {relations : Relations} {table other : String} {schema : Schema}

def empty : Relations := fun _ => none

/-- The assignments of `UPDATE`, in order. -/
def assign (schema : Schema) (assignments : List Assignment) (row : Row) : Row :=
  assignments.foldl (fun row assignment =>
    match schema.colIndex assignment.column with
    | some index => row.set index assignment.value
    | none => row) row

/-- Does a row satisfy a filter? -/
def satisfies (schema : Schema) (filter : Option Expr) (row : Row) : Bool :=
  match Executor.selects schema filter row with
  | .ok true => true
  | _ => false

/-- Change the rows of one table. -/
def alter (table : String) (change : Schema → Multiset Row → Multiset Row)
    (relations : Relations) : Relations := fun other =>
  if other = table then (relations other).map fun found => (found.1, change found.1 found.2)
  else relations other

/-- One statement of the relational model. -/
def apply : Statement → Relations → Relations
  | .createTable table columns, relations => fun other =>
      if other = table then some (Schema.new table columns, 0) else relations other
  | .insert table values, relations => relations.alter table fun _ rows => values ::ₘ rows
  | .update table assignments filter, relations =>
      relations.alter table fun schema rows => rows.map fun row =>
        if satisfies schema filter row then assign schema assignments row else row
  | .delete table filter, relations =>
      relations.alter table fun schema rows => rows.filter fun row =>
        satisfies schema filter row = false
  | .select _ _ _ _ _, relations => relations

/-- The tables after some statements on an empty database. -/
def run (stmts : List Statement) : Relations :=
  stmts.foldl (fun relations stmt => relations.apply stmt) empty

theorem run_append (stmts : List Statement) (stmt : Statement) :
    run (stmts ++ [stmt]) = (run stmts).apply stmt := by
  rw [run, List.foldl_append]
  rfl

theorem assign_of_applyAssignments {assignments : List Assignment} {row row' : Row}
    (applied : Executor.applyAssignments schema assignments row = .ok row') :
    assign schema assignments row = row' := by
  induction assignments generalizing row with
  | nil => exact Except.ok.inj applied
  | cons assignment assignments ih =>
      rw [Executor.applyAssignments] at applied
      rw [assign, List.foldl_cons]
      rcases found : schema.colIndex assignment.column with _ | index
      · simp [found] at applied
      · simp only [found] at applied ⊢
        split at applied
        · simp at applied
        · split_ifs at applied
          exact ih applied

end Relations

namespace Logical

open Relations

variable {logical before after : Logical} {table other : String} {schema : Schema}
  {pageIds pageIds' : List UInt32} {relations : Relations} {filter : Option Expr}
  {assignments : List Assignment} {rows : List Row}

/-- The row that a tuple holds. -/
def decode (schema : Schema) (tuple : Bytes) : Option Row := (schema.deserializeRow tuple).toOption

/-- The rows on some pages. -/
def rowsIn (logical : Logical) (schema : Schema) (pageIds : List UInt32) : Multiset Row :=
  (logical.heap.live pageIds).filterMap fun entry => decode schema entry.2

/-- The heap holds the tables of the relational model. -/
def Represents (logical : Logical) (relations : Relations) : Prop :=
  ∀ table, relations table = (logical.catalog.get table).bind fun schema =>
    (logical.tablePages.lookup table).map fun pageIds => (schema, logical.rowsIn schema pageIds)

section Rows

theorem Tidy.live_perm (tidy : Tidy logical)
    (listed : logical.tablePages.lookup table = some pageIds) {entries : List (Rid × Bytes)}
    (nodup : entries.Nodup)
    (same : ∀ entry, entry ∈ logical.heap.live pageIds ↔ entry ∈ entries) :
    (logical.heap.live pageIds).Perm entries :=
  (List.perm_ext_iff_of_nodup (List.Nodup.of_map _ (tidy.nodup_live listed)) nodup).mpr same

/-- Other rows on other pages do not matter. -/
theorem Tidy.rowsIn_congr (tidy : Tidy before) (tidy' : Tidy after) (schema : Schema)
    (listed : before.tablePages.lookup table = some pageIds)
    (listed' : after.tablePages.lookup table = some pageIds)
    (same : ∀ rid : Rid, rid.pageId ∈ pageIds → after.heap.get rid = before.heap.get rid) :
    after.rowsIn schema pageIds = before.rowsIn schema pageIds := by
  have perm : (after.heap.live pageIds).Perm (before.heap.live pageIds) := by
    apply tidy'.live_perm listed' (List.Nodup.of_map _ (tidy.nodup_live listed))
    intro entry
    rw [Heap.mem_live, Heap.mem_live]
    apply and_congr_right
    intro inside
    rw [same entry.1 inside]
  exact Multiset.coe_eq_coe.mpr (perm.filterMap _)

theorem Tidy.decode_of_live {entry : Rid × Bytes} (tidy : Tidy logical)
    (known : logical.catalog.get table = some schema)
    (listed : logical.tablePages.lookup table = some pageIds)
    (inside : entry ∈ logical.heap.live pageIds) :
    ∃ row, schema.deserializeRow entry.2 = .ok row ∧ decode schema entry.2 = some row := by
  rcases Heap.mem_live.mp inside with ⟨among, live⟩
  rcases tidy.rowAt_of_live known listed among live with ⟨row, decoded, -⟩
  exact ⟨row, decoded, by rw [decode, decoded]; rfl⟩

/-- `SELECT *` decodes the tuples of the table. -/
theorem Tidy.selectRows_decode [Build] (tidy : Tidy logical)
    (known : logical.catalog.get table = some schema)
    (listed : logical.tablePages.lookup table = some pageIds) :
    selectRows schema .star none (logical.tuples pageIds) =
      .ok ((logical.heap.live pageIds).filterMap fun entry => decode schema entry.2) := by
  have decodes (entry : Rid × Bytes) (inside : entry ∈ logical.heap.live pageIds) :=
    tidy.decode_of_live known listed inside
  rw [tuples]
  generalize logical.heap.live pageIds = entries at decodes
  induction entries with
  | nil => rfl
  | cons entry entries ih =>
      rcases decodes entry List.mem_cons_self with ⟨row, decoded, isRow⟩
      have chosen : Executor.selectRow schema .star none entry.2 = .ok (some row) := by
        rw [Executor.selectRow, decoded]
        rfl
      rw [List.map_cons, Executor.selectRows_cons, chosen,
        ih fun other inside => decodes other (List.mem_cons_of_mem _ inside),
        List.filterMap_cons, isRow]
      rfl

/-- `SELECT *` gives the rows of the table. -/
theorem Tidy.selectRows_eq [Build] (tidy : Tidy logical)
    (known : logical.catalog.get table = some schema)
    (listed : logical.tablePages.lookup table = some pageIds) :
    ∃ rows, selectRows schema .star none (logical.tuples pageIds) = .ok rows ∧
      (rows : Multiset Row) = logical.rowsIn schema pageIds :=
  ⟨_, tidy.selectRows_decode known listed, rfl⟩

/-- A table that is there can be read. -/
theorem Tidy.selectAll_ok [Build] (tidy : Tidy logical)
    (known : (logical.catalog.get table).isSome) : ∃ rows, logical.selectAll table = .ok rows := by
  have listed := known
  rw [tidy.filed.tables] at listed
  rcases Option.isSome_iff_exists.mp known with ⟨schema, known⟩
  rcases Option.isSome_iff_exists.mp listed with ⟨pageIds, listed⟩
  rcases tidy.selectRows_eq known listed with ⟨rows, selected, -⟩
  exact ⟨rows, by rw [selectAll_eq, known, listed]; exact selected⟩

end Rows

section Statements

/-- A statement that changes one table. -/
theorem Represents.alter (change : Schema → Multiset Row → Multiset Row)
    (represents : Represents before relations) (tidy : Tidy before) (tidy' : Tidy after)
    (catalog : after.catalog = before.catalog)
    (known : before.catalog.get table = some schema)
    (listed : before.tablePages.lookup table = some pageIds)
    (listed' : after.tablePages.lookup table = some pageIds')
    (here : after.rowsIn schema pageIds' = change schema (before.rowsIn schema pageIds))
    (pages : ∀ other, other ≠ table →
      after.tablePages.lookup other = before.tablePages.lookup other)
    (elsewhere : ∀ rid : Rid, rid.pageId ∉ pageIds' → after.heap.get rid = before.heap.get rid) :
    Represents after (relations.alter table change) := by
  intro other
  rw [Relations.alter, represents other, catalog]
  split_ifs with same
  · subst same
    simp only [known, listed, listed', Option.bind_some, Option.map_some, here]
  · rw [pages other same]
    rcases before.catalog.get other with _ | otherSchema
    · rfl
    · rcases otherListed : before.tablePages.lookup other with _ | otherIds
      · rfl
      · have otherListed' : after.tablePages.lookup other = some otherIds := by
          rw [pages other same, otherListed]
        have rowsSame := tidy.rowsIn_congr tidy' otherSchema otherListed otherListed'
          fun rid inside => elsewhere rid fun inside' =>
            same (tidy'.filed.apart otherListed' listed' inside inside')
        simp only [Option.bind_some, Option.map_some, rowsSame]

theorem Represents.addTable (represents : Represents logical relations)
    (columns : List ColumnDef) (order : HashOrder) :
    Represents ((logical.createIndexOf (Schema.new table columns)).addTable order
      (Schema.new table columns)) (relations.apply (.createTable table columns)) := by
  intro other
  rw [get_addTable, lookup_addTable, Relations.apply]
  have name : (Schema.new table columns).name = table := rfl
  dsimp only
  rw [name]
  by_cases same : other = table
  · simp only [if_pos same]
    rfl
  · simp only [if_neg same]
    exact represents other

theorem Represents.insert {values : Row} {rowBytes : Bytes} {rid : Rid}
    (represents : Represents before relations) (tidy : Tidy before) (tidy' : Tidy after)
    (inserted : Inserted table schema values rowBytes rid before after) :
    Represents after (relations.apply (.insert table values)) := by
  rcases inserted.chosen.pages with ⟨pageIds, pageIds', listed, listed', pages⟩
  have isNew : (rid, rowBytes) ∉ before.heap.live pageIds := by
    intro inside
    have live := (Heap.mem_live.mp inside).2
    simp [inserted.vacant] at live
  have perm : (after.heap.live pageIds').Perm ((rid, rowBytes) :: before.heap.live pageIds) := by
    apply tidy'.live_perm listed'
    · exact List.nodup_cons.mpr ⟨isNew, List.Nodup.of_map _ (tidy.nodup_live listed)⟩
    · rintro ⟨other, tuple⟩
      rw [Heap.mem_live, List.mem_cons, Heap.mem_live, Prod.mk.injEq]
      dsimp only
      rw [pages, inserted.get]
      by_cases same : other = rid
      · subst same
        simp [inserted.vacant, eq_comm]
      · rw [if_neg same]
        constructor
        · rintro ⟨inside, live⟩
          refine .inr ⟨?_, live⟩
          rcases inside with inside | samePage
          · exact inside
          · -- a tuple that was on the page before makes the page one of the table
            have present : (before.heap other.pageId).isSome := by
              rw [Heap.get] at live
              rcases found : before.heap other.pageId with _ | page
              · simp [found] at live
              · rfl
            rcases (tidy.owned other.pageId).mp present with ⟨owner, ownerIds, owned, inOwner⟩
            have ownerIsTable : owner = table := by
              by_contra apart
              have owned' : after.tablePages.lookup owner = some ownerIds := by
                rw [inserted.chosen.tables owner apart, owned]
              exact apart (tidy'.filed.apart owned' listed' inOwner
                ((pages other.pageId).mpr (.inr samePage)))
            subst ownerIsTable
            obtain rfl : ownerIds = pageIds := Option.some.inj (owned.symm.trans listed)
            exact inOwner
        · rintro (⟨isRid, -⟩ | ⟨inside, live⟩)
          · exact absurd isRid same
          · exact ⟨.inl inside, live⟩
  have decoded : decode schema rowBytes = some values := by
    have short := inserted.short
    have read := Schema.deserializeRow_of_serializeRow inserted.encoded (by omega) []
    rw [List.append_nil] at read
    rw [decode, read]
    rfl
  refine represents.alter (fun _ rows => values ::ₘ rows) tidy tidy' inserted.chosen.catalog
    inserted.known listed listed' ?_ inserted.chosen.tables ?_
  · have rows := perm.filterMap fun entry => decode schema entry.2
    rw [List.filterMap_cons, decoded] at rows
    exact Multiset.coe_eq_coe.mpr rows
  · intro other outside
    rw [inserted.get, if_neg]
    rintro rfl
    exact outside ((pages other.pageId).mpr (.inr rfl))

/-- What the tuples of the table decode to after they were changed one by one. -/
theorem Rewritten.filterMap_live {outcome : Bytes → Option Bytes}
    (rewritten : Rewritten outcome pageIds before after) (schema : Schema) :
    ((after.heap.live pageIds).filterMap fun entry => decode schema entry.2) =
      (before.heap.live pageIds).filterMap fun entry => (outcome entry.2).bind (decode schema) := by
  have live := Heap.live_filterMap (fun pageId _ => rewritten.slots pageId) fun rid inside => by
    rw [rewritten.get, if_pos inside]
  rw [live, List.filterMap_filterMap]
  congr 1
  funext entry
  cases outcome entry.2 with
  | none => rfl
  | some tuple => rfl

/-- A statement that changes the tuples of a table one by one. -/
theorem Represents.rewrite {outcome : Bytes → Option Bytes}
    (change : Schema → Multiset Row → Multiset Row) (represents : Represents before relations)
    (tidy : Tidy before) (tidy' : Tidy after) (known : before.catalog.get table = some schema)
    (listed : before.tablePages.lookup table = some pageIds)
    (rewritten : Rewritten outcome pageIds before after)
    (changes : ((before.heap.live pageIds).filterMap fun entry =>
        (outcome entry.2).bind (decode schema) : Multiset Row) =
      change schema (before.rowsIn schema pageIds)) :
    Represents after (relations.alter table change) := by
  have rows : after.rowsIn schema pageIds =
      ((before.heap.live pageIds).filterMap fun entry =>
        (outcome entry.2).bind (decode schema)) := by
    rw [rowsIn, rewritten.filterMap_live schema]
  refine represents.alter change tidy tidy' rewritten.catalog known listed
    (by rw [rewritten.tablePages, listed]) (rows.trans changes)
    (fun other _ => by rw [rewritten.tablePages]) ?_
  intro rid outside
  rw [rewritten.get, if_neg outside]

theorem rows_delete {entries : List (Rid × Bytes)}
    (decodes : ∀ entry ∈ entries, ∃ row, schema.deserializeRow entry.2 = .ok row ∧
      decode schema entry.2 = some row) :
    (entries.filterMap fun entry => (deleteOutcome schema filter entry.2).bind (decode schema)) =
      (entries.filterMap fun entry => decode schema entry.2).filter fun row =>
        satisfies schema filter row = false := by
  induction entries with
  | nil => rfl
  | cons entry entries ih =>
      rcases decodes entry List.mem_cons_self with ⟨row, decoded, isRow⟩
      have rest := ih fun other inside => decodes other (List.mem_cons_of_mem _ inside)
      have outcome : (deleteOutcome schema filter entry.2).bind (decode schema) =
          if satisfies schema filter row then none else some row := by
        rw [deleteOutcome, Executor.selectRow, decoded, satisfies]
        simp only [bind, Except.bind]
        rcases Executor.selects schema filter row with failure | _ | _
        · exact isRow
        · exact isRow
        · rfl
      rw [List.filterMap_cons, List.filterMap_cons, isRow, outcome, rest]
      dsimp only
      rw [List.filter_cons]
      cases satisfies schema filter row with
      | false => rfl
      | true => rfl

theorem rows_update {entries : List (Rid × Bytes)}
    (decodes : ∀ entry ∈ entries, ∃ row, schema.deserializeRow entry.2 = .ok row ∧
      decode schema entry.2 = some row)
    (selects : ∀ entry ∈ entries, Executor.selectRow schema .star filter entry.2 = .ok none ∨
      ∃ oldRow row bytes, Executor.selectRow schema .star filter entry.2 = .ok (some oldRow) ∧
        Executor.applyAssignments schema assignments oldRow = .ok row ∧
        schema.serializeRow row = .ok bytes ∧ bytes.length ≤ entry.2.length)
    (short : ∀ entry ∈ entries, entry.2.length < 2 ^ 16) :
    (entries.filterMap fun entry =>
        (updateOutcome schema assignments filter entry.2).bind (decode schema)) =
      (entries.filterMap fun entry => decode schema entry.2).map fun row =>
        if satisfies schema filter row then assign schema assignments row else row := by
  induction entries with
  | nil => rfl
  | cons entry entries ih =>
      rcases decodes entry List.mem_cons_self with ⟨row, decoded, isRow⟩
      have rest := ih (fun other inside => decodes other (List.mem_cons_of_mem _ inside))
        (fun other inside => selects other (List.mem_cons_of_mem _ inside))
        (fun other inside => short other (List.mem_cons_of_mem _ inside))
      have outcome : (updateOutcome schema assignments filter entry.2).bind (decode schema) =
          some (if satisfies schema filter row then assign schema assignments row else row) := by
        rcases selects entry List.mem_cons_self with
          skipped | ⟨oldRow, newRow, bytes, chosen, applied, encoded, fits⟩
        · have dropped : satisfies schema filter row = false := by
            rw [Executor.selectRow, decoded] at skipped
            simp only [bind, Except.bind] at skipped
            rw [satisfies]
            rcases answer : Executor.selects schema filter row with failure | _ | _
            · rfl
            · rfl
            · simp [answer, pure, Except.pure, Executor.project] at skipped
          rw [updateOutcome, skipped, dropped]
          exact isRow
        · rcases selectRow_star chosen with ⟨decoded', selected⟩
          obtain rfl : row = oldRow := Except.ok.inj (decoded.symm.trans decoded')
          have isShort := short entry List.mem_cons_self
          have read := Schema.deserializeRow_of_serializeRow encoded (by omega)
            (entry.2.drop bytes.length)
          have taken : satisfies schema filter row = true := by rw [satisfies, selected]
          rw [updateOutcome, chosen, taken, if_pos rfl, assign_of_applyAssignments applied]
          simp only [applied, encoded, Option.bind_some, decode, read]
          rfl
      rw [List.filterMap_cons, List.filterMap_cons, isRow, outcome, rest]
      rfl

/-- Every statement that succeeds does what the relational model says. -/
theorem Represents.execute [Build] (represents : Represents logical relations)
    (sound : Sound none logical) (bounded : Bounded logical) (order : HashOrder) (stmt : Statement)
    (done : (logical.execute order stmt).result = .ok rows) :
    Represents (logical.execute order stmt).state (relations.apply stmt) := by
  have tidy := sound.tidy
  have tidy' : Tidy (logical.execute order stmt).state :=
    (sound.execute bounded order stmt (.inl ⟨rows, done⟩)).tidy
  cases stmt with
  | createTable table columns =>
      simp only [Logical.execute, execCreateTable] at done ⊢
      split_ifs at done ⊢ with taken
      · simp [fail] at done
      · exact represents.addTable columns order
  | insert table values =>
      rcases tidy.inserted bounded done with ⟨schema, rowBytes, rid, inserted⟩
      exact represents.insert tidy tidy' inserted
  | select table columns filter orderBy limit => exact represents
  | delete table filter =>
      rw [Logical.execute] at done tidy' ⊢
      rw [Relations.apply]
      rcases known : logical.catalog.get table with _ | schema
      · simp [execDelete, known, fail] at done
      · rcases listed : logical.tablePages.lookup table with _ | pageIds
        · simp [execDelete, known, listed, fail] at done
        · refine represents.rewrite _ tidy tidy' known listed
            (tidy.rewritten_delete known listed done) ?_
          rw [rows_delete fun entry inside => tidy.decode_of_live known listed inside]
          rfl
  | update table assignments filter =>
      rw [Logical.execute] at done tidy' ⊢
      rw [Relations.apply]
      rcases known : logical.catalog.get table with _ | schema
      · simp [execUpdate, known, fail] at done
      · rcases listed : logical.tablePages.lookup table with _ | pageIds
        · simp [execUpdate, known, listed, fail] at done
        · refine represents.rewrite _ tidy tidy' known listed
            (tidy.rewritten_update known listed done) ?_
          rw [rows_update (fun entry inside => tidy.decode_of_live known listed inside)
            (execUpdate_selects known listed done)]
          · rfl
          · intro entry inside
            rcases Heap.mem_live.mp inside with ⟨among, live⟩
            exact (tidy.typed.row known listed among live).2

end Statements

end Logical

namespace Executor

variable [Crc32] [Build] {executor : Executor} {stmts : List Statement}

/-- A session of statements that succeed ends with the tables of the relational model. -/
theorem Session.represents (session : Session Succeeds stmts executor) :
    ∃ logical, Rests executor logical ∧ Logical.Run Logical.Done logical ∧
      executor.Idle ∧ logical.Represents (Relations.run stmts) := by
  induction session with
  | @start order _ _ run =>
      rcases start_empty order with ⟨info, executor, same, rests, idle⟩
      obtain ⟨-, rfl⟩ := Prod.mk.inj (same.symm.trans run)
      exact ⟨_, rests, .start order, idle, fun table => rfl⟩
  | @execute order stmts stmt result executor executor' before run admitted ih =>
      rcases ih with ⟨logical, rests, follows, idle, represents⟩
      have sound := follows.sound .inl
      rcases result with failure | rows
      · simp [Succeeds, Except.isOk, Except.toBool] at admitted
      · rcases rests.execute_ok sound.usable run with ⟨ok, rests', -⟩
        refine ⟨_, rests', follows.execute rests.bounded order stmt ⟨rows, ok⟩,
          (ends_execute order stmt).ok idle run, ?_⟩
        rw [Relations.run_append]
        exact represents.execute sound rests.bounded order stmt ok

/-- `SELECT * FROM table` after a session of statements that all succeeded gives the rows of the
relational model, in some order. -/
theorem session_relational (session : Session Succeeds stmts executor) (table : String) :
    match Relations.run stmts table with
    | some (_, rows) => ∃ answer : List Row, executor.selectAll table = .ok answer ∧
        (answer : Multiset Row) = rows
    | none => executor.selectAll table = .error (.sql (.tableNotFound table)) := by
  rcases session.represents with ⟨logical, rests, follows, idle, represents⟩
  have sound := follows.sound .inl
  have answered := rests.reflects.selectAll_of_ready sound.usable idle.ready table
  rw [Logical.selectAll_eq] at answered
  rw [represents table]
  rcases known : logical.catalog.get table with _ | schema
  · rw [known] at answered
    exact answered
  · rcases listed : logical.tablePages.lookup table with _ | pageIds
    · have both := sound.filed.tables table
      simp [known, listed] at both
    · rw [known, listed] at answered
      rcases sound.tidy.selectRows_eq known listed with ⟨rows, selected, same⟩
      exact ⟨rows, answered.trans selected, same⟩

end Executor

namespace Sample

attribute [local instance] Crc32.ieee Build.debug

open Executor

theorem session_relational_insertedTwo :
    ∃ executor : Executor, Session Succeeds [create, insertSeven, insertNull] executor ∧
      ∃ answer, executor.selectAll "t" = .ok answer ∧
        (answer : Multiset Row) = {[.int 2, .null], [.int 1, .int 7]} := by
  rcases attains_insertedTwo with ⟨executor, session, -⟩
  exact ⟨executor, session, session_relational session "t"⟩

end Sample

end VenomDb
