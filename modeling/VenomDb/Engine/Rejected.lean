import VenomDb.Engine.IndexRouting
import VenomDb.Engine.OrderBy

/-!
# A rejected `CREATE TABLE`

The index of the primary key is made before the table is found to exist. When there was no such
index before, an empty one is left over, and later statements on the table are answered through
it.
-/

namespace VenomDb

namespace Executor

variable [Crc32] [Build] {order : HashOrder} {table : String} {columns : List ColumnDef}
  {executor executor' : Executor}

/-- The results of statements that are executed one after the other. -/
def outcomes : List (HashOrder × Statement) → Executor → List (Except Failure (List Row))
  | [], _ => []
  | (order, stmt) :: later, executor =>
      let ended := execute order stmt executor
      ended.1 :: outcomes later ended.2

/-- Nobody who executes statements can tell two states apart. -/
def Alike (executor executor' : Executor) : Prop :=
  ∀ later, outcomes later executor' = outcomes later executor

omit [Crc32] [Build] in
/-- The primary key in a `CREATE TABLE`, if it has one, is on a column with an index. -/
def Indexed (executor : Executor) (table : String) (columns : List ColumnDef) : Prop :=
  ∀ column, (Schema.new table columns).primaryKey = some column →
    (table, column) ∈ executor.indexManager.indexes

omit [Crc32] [Build] in
/-- All that is left of a rejected statement. -/
theorem execCreateTable_rejected
    (rejected : execCreateTable order table columns executor =
      (.error (.sql (.tableExists table)), executor')) :
    table ∈ executor.catalog.tables ∧
    executor' = { executor with
      indexManager := (Schema.new table columns).primaryKey.elim executor.indexManager
        fun column => executor.indexManager.createIndex table column } := by
  rw [execCreateTable, modifyIndexes, Fallible.modify_bind, Fallible.get_bind,
    Catalog.createTable] at rejected
  split_ifs at rejected with taken
  · rw [Fallible.ofExcept_error_bind] at rejected
    exact ⟨taken, (Prod.mk.inj rejected).2.symm⟩
  · rw [Fallible.ofExcept_ok_bind] at rejected
    cases (Prod.mk.inj rejected).1

omit [Crc32] [Build] in
theorem Indexed.unchanged (indexed : executor.Indexed table columns)
    (rejected : execCreateTable order table columns executor =
      (.error (.sql (.tableExists table)), executor')) : executor' = executor := by
  rw [(execCreateTable_rejected rejected).2]
  cases primary : (Schema.new table columns).primaryKey with
  | none => rfl
  | some column => simp [IndexManager.createIndex, indexed column primary]

/-- An empty index hides every row from a comparison with an integer. -/
theorem execSelect_leftover {schema : Schema} {pageIds : List UInt32} {column : String}
    (known : executor.catalog.get table = some schema)
    (listed : executor.tablePages.lookup table = some pageIds)
    (isExact : executor.indexManager.IsExact table column fun _ => none)
    (outputs : SelectColumns) (key : Int64) :
    (execSelect table outputs (some ⟨column, .eq, .int key⟩) none none executor).1 = .ok [] := by
  have routed : indexRids executor.indexManager table ⟨column, .eq, .int key⟩ = .ok (some []) := by
    let expr : Expr := ⟨column, .eq, .int key⟩
    have isExact : executor.indexManager.IsExact table expr.left fun _ => none := isExact
    rcases indexRids_empty isExact rfl trivial with ⟨overflows, -⟩ | ⟨-, routed⟩
    · simp [Overflows, expr] at overflows
    · exact routed
  have nothing : findRows table schema outputs (some ⟨column, .eq, .int key⟩) pageIds executor =
      (.ok [], executor) := by
    have selected : tryIndexSelect table schema ⟨column, .eq, .int key⟩ outputs pageIds executor =
        (.ok (some []), executor) := by
      rw [tryIndexSelect, Fallible.get_bind, routed]
      rfl
    rw [findRows, Fallible.bind_ok selected]
    rfl
  rw [execSelect_eq known listed, Fallible.bind_ok nothing]
  rfl

/-- A rejected `CREATE TABLE` is not seen by later statements if its primary key is on a column
with an index, and otherwise only if a scan for any value of that column finds nothing. -/
theorem rejected_create_alike
    (rejected : execCreateTable order table columns executor =
      (.error (.sql (.tableExists table)), executor')) :
    (executor.Indexed table columns → executor.Alike executor') ∧
    (executor.Alike executor' → executor.Indexed table columns ∨
      ∃ column, (Schema.new table columns).primaryKey = some column ∧
        ∀ schema pageIds, executor.catalog.get table = some schema →
          executor.tablePages.lookup table = some pageIds → ∀ outputs key,
          (seqScan schema outputs (some ⟨column, .eq, .int key⟩) pageIds executor).1 = .ok []) := by
  refine ⟨?_, ?_⟩
  · intro indexed later
    rw [indexed.unchanged rejected]
  · intro alike
    by_cases indexed : executor.Indexed table columns
    · exact .inl indexed
    right
    simp only [Indexed, not_forall] at indexed
    rcases indexed with ⟨column, primary, missing⟩
    refine ⟨column, primary, ?_⟩
    intro schema pageIds known listed outputs key
    obtain ⟨-, left⟩ := execCreateTable_rejected rejected
    rw [primary] at left
    have known' : executor'.catalog.get table = some schema := by rw [left]; exact known
    have listed' : executor'.tablePages.lookup table = some pageIds := by rw [left]; exact listed
    have empty : executor'.indexManager.IsExact table column fun _ => none := by
      rw [left]
      exact IndexManager.isExact_createIndex missing
    have hidden := execSelect_leftover known' listed' empty outputs key
    have same := alike [(order, .select table outputs (some ⟨column, .eq, .int key⟩) none none)]
    have same : (execSelect table outputs (some ⟨column, .eq, .int key⟩) none none executor').1 =
        (execSelect table outputs (some ⟨column, .eq, .int key⟩) none none executor).1 := by
      simpa [outcomes, execute] using same
    have unrouted : executor.Unrouted table (some ⟨column, .eq, .int key⟩) := by
      intro expr isExpr
      obtain rfl : ⟨column, .eq, .int key⟩ = expr := Option.some.inj isExpr
      have without : executor.indexManager.hasIndex table column = false := by
        simpa [IndexManager.hasIndex, AList.lookup_eq_none] using missing
      rw [indexRids, if_neg (by simp [without])]
      rfl
    rw [hidden, execSelect_eq known listed, Fallible.bind_apply, findRows_unrouted unrouted] at same
    rcases scanned : seqScan schema outputs (some ⟨column, .eq, .int key⟩) pageIds executor with
      ⟨failure | rows, executor''⟩
    · simp [scanned] at same
    · rw [scanned] at same
      obtain rfl : [] = rows := Except.ok.inj same
      rfl

end Executor

namespace Sample

attribute [local instance] Crc32.ieee Build.debug

open Executor

/-- `CREATE TABLE t (a INT PRIMARY KEY)` -/
def createAgain : Statement := .createTable "t" [⟨"a", .int, true⟩]

/-- `WHERE a = 7` -/
def equalsSeven : Expr := ⟨"a", .eq, .int 7⟩

/-- After the rejected statement the row is not found any more. -/
theorem rejected_create_seen :
    ∃ executor executor' : Executor, Reachable Succeeds executor ∧
      execCreateTable .ofInsertion "t" [⟨"a", .int, true⟩] executor =
        (.error (.sql (.tableExists "t")), executor') ∧
      (execSelect "t" .star (some equalsSeven) none none executor).1 = .ok [[.int 1, .int 7]] ∧
      (execSelect "t" .star (some equalsSeven) none none executor').1 = .ok [] ∧
      ¬executor.Alike executor' := by
  rcases attains_insertedTwo with ⟨executor, session, rests, follows, idle⟩
  have sound := follows.sound .inl
  rcases rests.execute_fails sound.usable ⟨by decide, by decide⟩ idle
    (show insertedTwo.execute .ofInsertion createAgain = ⟨.error (.sql (.tableExists "t")), false,
      (insertedTwo.execute .ofInsertion createAgain).state⟩ from rfl) (by decide) (.inl rfl) with
    ⟨failed, run, rests', ready⟩
  have before : (execSelect "t" .star (some equalsSeven) none none executor).1 =
      .ok [[.int 1, .int 7]] := by
    rw [rests.reflects.execSelect_of_ready sound.usable idle.ready]
    rfl
  have after : (execSelect "t" .star (some equalsSeven) none none failed).1 = .ok [] := by
    rw [rests'.reflects.execSelect_of_ready (sound.execute rests.bounded .ofInsertion
      createAgain (.inr rfl)).usable ready]
    rfl
  refine ⟨executor, failed, session.reachable, run, before, after, ?_⟩
  intro alike
  have same := alike [(.ofInsertion, .select "t" .star (some equalsSeven) none none)]
  simp [outcomes, execute, before, after] at same

/-- The same statement as before is rejected and leaves nothing. -/
theorem rejected_create_alike_create :
    ∃ executor executor' : Executor, Reachable Succeeds executor ∧
      execCreateTable .ofInsertion "t" [⟨"id", .int, true⟩, ⟨"a", .int, false⟩] executor =
        (.error (.sql (.tableExists "t")), executor') ∧ executor.Alike executor' := by
  rcases attains_insertedTwo with ⟨executor, session, rests, follows, idle⟩
  rcases rests.execute_fails (follows.sound .inl).usable ⟨by decide, by decide⟩ idle
    (show insertedTwo.execute .ofInsertion create = ⟨.error (.sql (.tableExists "t")), false,
      (insertedTwo.execute .ofInsertion create).state⟩ from rfl) (by decide) (.inl rfl) with
    ⟨failed, run, -⟩
  have indexed : executor.Indexed "t" [⟨"id", .int, true⟩, ⟨"a", .int, false⟩] := by
    intro column primary
    obtain rfl : "id" = column := Option.some.inj primary
    rw [rests.reflects.indexManager_eq]
    exact AList.lookup_isSome.mp rfl
  exact ⟨executor, failed, session.reachable, run, (rejected_create_alike run).1 indexed⟩

end Sample

end VenomDb
