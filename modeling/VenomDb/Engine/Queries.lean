import VenomDb.Engine.IndexRouting
import VenomDb.Engine.OrderBy
import VenomDb.Engine.Relational

/-!
# What a query answers

The relational model also says what a `SELECT` is for: the rows of the table that satisfy the
filter, projected, in the order asked for, and the first of them up to the limit. So does the
engine answer, over any number of sessions and whether or not it goes through the index, unless an
index on a key that it cannot hold is asked, or a bound of the range overflows.
-/

namespace VenomDb

variable {schema : Schema} {columns : SelectColumns} {filter : Option Expr} {table : String}
  {pageIds : List UInt32}

namespace Relations

/-- What a query makes of a row: nothing, if the row does not satisfy the filter. -/
def pick (schema : Schema) (columns : SelectColumns) (filter : Option Expr) (row : Row) :
    Except Failure (Option Row) := do
  if ← Executor.selects schema filter row then
    let projected ← Executor.project schema row columns
    return some projected
  else return none

/-- The rows that a query finds. It fails if a row cannot be compared or projected. -/
def query (schema : Schema) (columns : SelectColumns) (filter : Option Expr)
    (rows : Multiset Row) : Option (Multiset Row) :=
  if ∀ row ∈ rows, (pick schema columns filter row).isOk then
    some (rows.filterMap fun row => (pick schema columns filter row).toOption.join)
  else none

/-- A column of INT or TEXT in the output, by which its rows can be put in order. -/
structure Orderable (schema : Schema) (columns : SelectColumns) (column : String)
    (index : ℕ) : Prop where
  output : Executor.sortIndex schema columns column = .ok index
  typed : ∃ position definition, schema.colIndex column = some position ∧
    schema.columns[position]? = some definition ∧ (definition.ty = .int ∨ definition.ty = .text)

/-- A list of the rows found, in the order asked for, and cut at the limit. -/
def Answers (schema : Schema) (columns : SelectColumns) (orderBy : Option (String × OrderDir))
    (limit : Option UInt64) (found : Multiset Row) (answer : List Row) : Prop :=
  ∃ rows : List Row, (rows : Multiset Row) = found ∧ answer = Executor.limited limit rows ∧
    ∀ column direction index, orderBy = some (column, direction) →
      Executor.sortIndex schema columns column = .ok index →
        rows.Pairwise fun first second => Executor.inOrder index direction first second

/-- The reply to a query: an answer, or an error that is not a panic if the query fails. -/
def Replies (schema : Schema) (columns : SelectColumns) (orderBy : Option (String × OrderDir))
    (limit : Option UInt64) (reply : Except Failure (List Row)) : Option (Multiset Row) → Prop
  | some found => ∃ answer, reply = .ok answer ∧
      Answers schema columns orderBy limit found answer
  | none => ∃ failure, reply = .error failure ∧ ∀ panic, failure ≠ .panic panic

end Relations

namespace Logical

open Relations

variable {logical : Logical}

theorem selectRow_eq_pick {tuple : Bytes} {row : Row}
    (decoded : schema.deserializeRow tuple = .ok row) :
    Executor.selectRow schema columns filter tuple = pick schema columns filter row := by
  rw [Executor.selectRow, decoded]
  rfl

/-- What is found is what the query finds, and an error that is not a panic if it fails. -/
def Finds (outcome : Except Failure (List Row)) : Option (Multiset Row) → Prop
  | some found => ∃ rows : List Row, outcome = .ok rows ∧ (rows : Multiset Row) = found
  | none => ∃ failure, outcome = .error failure ∧ ∀ panic, failure ≠ .panic panic

theorem Finds.congr {outcome outcome' : Except Failure (List Row)} {found : Option (Multiset Row)}
    (finds : Finds outcome found) (same : SameAnswer outcome' outcome) : Finds outcome' found := by
  cases found with
  | some found =>
      rcases finds with ⟨rows, rfl, isFound⟩
      rcases outcome' with (error | error | panic) | rows'
      · exact same.elim
      · exact same.elim
      · exact same.elim
      · exact ⟨rows', rfl, (Multiset.coe_eq_coe.mpr same).trans isFound⟩
  | none =>
      rcases finds with ⟨failure, rfl, returned⟩
      rcases outcome' with failure' | rows'
      · refine ⟨failure', rfl, ?_⟩
        rintro panic rfl
        exact same.elim
      · rcases failure with error | error | panic
        · exact same.elim
        · exact same.elim
        · exact same.elim

/-- Selecting tuples is querying the rows in them. -/
theorem Tidy.finds_selectRows (tidy : Tidy logical)
    (known : logical.catalog.get table = some schema)
    (listed : logical.tablePages.lookup table = some pageIds) (columns : SelectColumns)
    (filter : Option Expr) :
    Finds (selectRows schema columns filter (logical.tuples pageIds))
      (query schema columns filter (logical.rowsIn schema pageIds)) := by
  have decodes (entry : Rid × Bytes) (inside : entry ∈ logical.heap.live pageIds) :
      ∃ row, decode schema entry.2 = some row ∧
        Executor.selectRow schema columns filter entry.2 = pick schema columns filter row := by
    rcases tidy.decode_of_live known listed inside with ⟨row, decoded, isRow⟩
    exact ⟨row, isRow, selectRow_eq_pick decoded⟩
  have picks : (∀ row ∈ logical.rowsIn schema pageIds, (pick schema columns filter row).isOk) ↔
      ∀ tuple ∈ logical.tuples pageIds, (Executor.selectRow schema columns filter tuple).isOk := by
    rw [rowsIn, tuples, List.forall_mem_map]
    constructor
    · intro picked entry inside
      rcases decodes entry inside with ⟨row, isRow, selected⟩
      rw [selected]
      exact picked row (List.mem_filterMap.mpr ⟨entry, inside, isRow⟩)
    · intro selects row isRow
      rcases List.mem_filterMap.mp isRow with ⟨entry, inside, decoded⟩
      rcases decodes entry inside with ⟨row', isRow', selected⟩
      obtain rfl : row' = row := Option.some.inj (isRow'.symm.trans decoded)
      rw [← selected]
      exact selects entry inside
  have calm := Executor.calm_tuples tidy known listed columns filter
  rcases selectRows_cases calm with ⟨allOk, rows⟩ | ⟨⟨tuple, inside, notOk⟩, failed⟩
  · rw [query, if_pos (picks.mpr allOk)]
    refine ⟨_, rows, Multiset.coe_eq_coe.mpr (List.Perm.of_eq ?_)⟩
    rw [tuples, List.filterMap_map, List.filterMap_filterMap]
    refine List.filterMap_congr fun entry inside => ?_
    rcases decodes entry inside with ⟨row, isRow, selected⟩
    rw [isRow, Option.bind_some, Function.comp_apply, selected]
  · rw [query, if_neg fun picked => ?_]
    · exact failed
    · rw [picks.mp picked tuple inside] at notOk
      simp at notOk

/-- What a query finds has cells of the type of the `ORDER BY` column in its place. -/
theorem Tidy.hasType_of_query {column : String} {index : ℕ} {found : Multiset Row} {row : Row}
    {position : ℕ} {definition : ColumnDef} (tidy : Tidy logical)
    (known : logical.catalog.get table = some schema)
    (listed : logical.tablePages.lookup table = some pageIds)
    (output : Executor.sortIndex schema columns column = .ok index)
    (here : schema.colIndex column = some position)
    (isDefinition : schema.columns[position]? = some definition)
    (isFound : query schema columns filter (logical.rowsIn schema pageIds) = some found)
    (inside : row ∈ found) : (row.getD index .null).HasType definition.ty := by
  rw [query] at isFound
  split_ifs at isFound with picked
  obtain rfl := Option.some.inj isFound
  rcases (Multiset.mem_filterMap _ _).mp inside with ⟨base, isBase, isRow⟩
  rcases List.mem_filterMap.mp isBase with ⟨entry, live, decoded⟩
  rcases tidy.decode_of_live known listed live with ⟨base', read, decoded'⟩
  obtain rfl : base' = base := Option.some.inj (decoded'.symm.trans decoded)
  have selected : Executor.selectRow schema columns filter entry.2 = .ok (some row) := by
    rw [selectRow_eq_pick read]
    rcases made : pick schema columns filter base' with failure | value
    · rw [made] at isRow
      simp [Except.toOption] at isRow
    · rw [made] at isRow
      simpa [Except.toOption] using isRow
  exact Executor.hasType_of_selectRow here isDefinition output selected

/-- A restart changes no table. -/
theorem Represents.restart {relations : Relations} (represents : Represents logical relations)
    (replayable : Replayable logical) {numPages : ℕ}
    (stored : ∀ {pageId}, (logical.heap pageId).isSome → pageId.toNat < numPages)
    (order : HashOrder) : Represents (logical.restart order numPages) relations := by
  intro table
  have catalog : (logical.restart order numPages).catalog.get table = logical.catalog.get table :=
    replayable.filed.loaded table
  have pages : (logical.restart order numPages).tablePages.lookup table =
      logical.tablePages.lookup table := lookup_reopened replayable numPages table
  have heap : (logical.restart order numPages).heap = logical.heap := Heap.below_eq stored
  rw [represents table, catalog, pages]
  simp only [rowsIn, heap]

end Logical

namespace Executor

section Routing

variable [Build] {manager : IndexManager} {logical : Logical} {expr : Expr}

/-- A comparison of the primary key with an integer is one that the index can answer: the key is
an INT, and the bound of the range does not overflow. -/
def Indexable (schema : Schema) (filter : Option Expr) : Prop :=
  ∀ expr ∈ filter, schema.primaryKey = some expr.left → Routable expr.op →
    (∃ rhs, expr.right = .int rhs) →
      ¬Overflows expr ∧ ∃ index column, schema.KeyColumn index column ∧ column.ty = .int

/-- Where nothing overflows all builds do the same. -/
theorem indexRids_release (fits : ¬Overflows expr) :
    indexRids manager table expr = @indexRids Build.release manager table expr := by
  rcases expr with ⟨left, op, literal⟩
  cases literal with
  | int rhs =>
      cases op with
      | gt =>
          have bound : successor rhs = @successor Build.release rhs := by
            have inside : ¬(Build.overflowChecks = true ∧ rhs = Int64.maxValue) := by
              simpa [Overflows] using fits
            simp [successor, inside]
          simp only [indexRids, bound]
      | lt =>
          have bound : predecessor rhs = @predecessor Build.release rhs := by
            have inside : ¬(Build.overflowChecks = true ∧ rhs = Int64.minValue) := by
              simpa [Overflows] using fits
            simp [predecessor, inside]
          simp only [indexRids, bound]
      | _ => rfl
  | _ => rfl

/-- The rows that `SELECT` finds are those of a scan. -/
theorem sameAnswer_indexable (keyed : logical.Keyed) (defined : logical.Defined)
    (tidy : logical.Tidy) (known : logical.catalog.get table = some schema)
    (listed : logical.tablePages.lookup table = some pageIds)
    (indexable : Indexable schema filter) (columns : SelectColumns) :
    Logical.SameAnswer (logical.findRows table schema columns filter pageIds)
      (Logical.selectRows schema columns filter (logical.tuples pageIds)) := by
  have calm := calm_tuples tidy known listed columns filter
  rcases filter with _ | expr
  · exact Logical.sameAnswer_of_perm calm (.refl _)
  have scanned (unrouted : indexRids logical.indexManager table expr = .ok none) :
      Logical.SameAnswer (logical.findRows table schema columns (some expr) pageIds)
        (Logical.selectRows schema columns (some expr) (logical.tuples pageIds)) := by
    simp only [Logical.findRows, Option.elim_some, unrouted, bind, Except.bind]
    exact Logical.sameAnswer_of_perm calm (.refl _)
  rcases has : logical.indexManager.hasIndex table expr.left with _ | _
  · apply scanned
    rw [indexRids, has]
    rfl
  · by_cases routed : Routable expr.op ∧ ∃ rhs, expr.right = .int rhs
    · rcases defined.defs.mp (defined.created (AList.lookup_isSome.mp has)) with
        ⟨schema', known', primary⟩
      obtain rfl : schema = schema' := by simpa using known.symm.trans known'
      rcases indexable expr rfl primary routed.1 routed.2 with
        ⟨fits, index, column, keyColumn, isInt⟩
      have same : logical.findRows table schema columns (some expr) pageIds =
          @Logical.findRows Build.release table schema columns (some expr) pageIds logical := by
        simp only [Logical.findRows, Option.elim_some, indexRids_release fits]
      rw [same]
      exact @sameAnswer_findRows Build.release _ _ _ _ _ _ rfl keyed defined tidy known listed
        keyColumn isInt columns expr
    · exact scanned (indexRids_unrouted routed)

end Routing

section Lifetimes

variable [Crc32] [Build] {stmts : List Statement} {executor : Executor} {logical : Logical}

/-- The states of any number of sessions on an empty directory, with all their statements, which
succeeded. -/
inductive Lifetime : List Statement → Executor → Prop
  | start {order : HashOrder} {info : RecoveryInfo} {executor : Executor}
      (run : start order Files.empty = (.ok info, executor)) : Lifetime [] executor
  | execute {order : HashOrder} {stmts : List Statement} {stmt : Statement} {rows : List Row}
      {executor executor' : Executor} (before : Lifetime stmts executor)
      (run : execute order stmt executor = (.ok rows, executor')) :
      Lifetime (stmts ++ [stmt]) executor'
  | restart {order : HashOrder} {stmts : List Statement} {info : RecoveryInfo}
      {executor executor' : Executor} (before : Lifetime stmts executor)
      (run : Executor.start order executor.files = (.ok info, executor')) :
      Lifetime stmts executor'

theorem Session.lifetime (session : Session Succeeds stmts executor) : Lifetime stmts executor := by
  induction session with
  | start run => exact .start run
  | @execute order stmts stmt result executor executor' before run admitted ih =>
      rcases result with failure | rows
      · simp [Succeeds, Except.isOk, Except.toBool] at admitted
      · exact .execute ih run

theorem Lifetime.represents (lifetime : Lifetime stmts executor) :
    ∃ logical, Rests executor logical ∧ Logical.Run Logical.Done logical ∧
      executor.Idle ∧ logical.Represents (Relations.run stmts) := by
  induction lifetime with
  | @start order _ _ run =>
      rcases start_empty order with ⟨info, executor, same, rests, idle⟩
      obtain ⟨-, rfl⟩ := Prod.mk.inj (same.symm.trans run)
      exact ⟨_, rests, .start order, idle, fun table => rfl⟩
  | @execute order stmts stmt rows executor executor' before run ih =>
      rcases ih with ⟨logical, rests, follows, idle, represents⟩
      have sound := follows.sound .inl
      rcases rests.execute_ok sound.usable run with ⟨ok, rests', -⟩
      refine ⟨_, rests', follows.execute rests.bounded order stmt ⟨rows, ok⟩,
        (ends_execute order stmt).ok idle run, ?_⟩
      rw [Relations.run_append]
      exact represents.execute sound rests.bounded order stmt ok
  | @restart order stmts _ executor _ before run ih =>
      rcases ih with ⟨logical, rests, follows, -, represents⟩
      have sound := follows.sound .inl
      rcases rests.restart sound order with ⟨info, executor', same, rests', idle⟩
      obtain ⟨-, rfl⟩ := Prod.mk.inj (same.symm.trans run)
      exact ⟨_, rests', follows.restart rests.inside order, idle,
        represents.restart sound.replayable rests.inside order⟩

omit [Crc32] [Build] in
/-- Sorting and cutting what was found, twice. -/
theorem answers_sortAndLimit {rows : List Row} {found : Multiset Row}
    {orderBy : Option (String × OrderDir)} (isFound : (rows : Multiset Row) = found)
    (orderable : ∀ column direction, orderBy = some (column, direction) →
      ∃ index definition, sortIndex schema columns column = .ok index ∧
        (definition = .int ∨ definition = .text) ∧
          ∀ row ∈ rows, (row.getD index .null).HasType definition) (limit : Option UInt64) :
    ∃ answer, (sortAndLimit schema columns orderBy limit rows).bind
        (sortAndLimit schema columns orderBy limit) = .ok answer ∧
      Relations.Answers schema columns orderBy limit found answer := by
  rcases orderBy with _ | ⟨column, direction⟩
  · have once (rows : List Row) :
        sortAndLimit schema columns none limit rows = .ok (limited limit rows) := by
      cases limit <;> rfl
    refine ⟨limited limit rows, ?_, rows, isFound, rfl, by simp⟩
    rw [once, Except.bind, once, limited_limited]
  · rcases orderable column direction rfl with ⟨index, ty, output, sortable, cells⟩
    have isSort : List.IsStableSort (inOrder index direction) rows _ :=
      isStableSort_inOrder sortable cells
    refine ⟨_, ?_, _, (Multiset.coe_eq_coe.mpr isSort.perm).trans isFound, rfl, ?_⟩
    · rw [sortAndLimit_eq output]
      exact sortAndLimit_again output isSort limit
    · rintro _ _ other ⟨⟩ output'
      obtain rfl : index = other := Except.ok.inj (output.symm.trans output')
      exact isSort.ordered

/-- Over any number of sessions of statements that succeeded, a query finds in the tables of the
relational model what it asks for. -/
theorem Lifetime.replies (lifetime : Lifetime stmts executor) (table : String)
    (columns : SelectColumns) (filter : Option Expr) (orderBy : Option (String × OrderDir))
    (limit : Option UInt64) :
    (Relations.run stmts table = none →
      (execSelect table columns filter orderBy limit executor).1 =
        .error (.sql (.tableNotFound table))) ∧
    ∀ schema rows, Relations.run stmts table = some (schema, rows) → Indexable schema filter →
      (∀ column direction, orderBy = some (column, direction) →
        ∃ index, Relations.Orderable schema columns column index) →
      Relations.Replies schema columns orderBy limit
        (execSelect table columns filter orderBy limit executor).1
        (Relations.query schema columns filter rows) := by
  rcases lifetime.represents with ⟨logical, rests, follows, idle, represents⟩
  have sound := follows.sound .inl
  have tidy := sound.tidy
  rw [rests.reflects.execSelect_of_ready sound.usable idle.ready, represents table,
    Logical.execSelect]
  rcases known : logical.catalog.get table with _ | schema
  · simp
  rcases listed : logical.tablePages.lookup table with _ | pageIds
  · have both := sound.filed.tables table
    simp [known, listed] at both
  refine ⟨by simp, ?_⟩
  rintro _ _ ⟨⟩ indexable orderable
  have finds := (tidy.finds_selectRows known listed columns filter).congr
    (sameAnswer_indexable follows.keyed.1 follows.keyed.2 tidy known listed indexable columns)
  dsimp only
  generalize logical.findRows table schema columns filter pageIds = outcome at finds ⊢
  rcases isFound : Relations.query schema columns filter (logical.rowsIn schema pageIds) with
    _ | found
  · rw [isFound] at finds
    rcases finds with ⟨failure, rfl, returned⟩
    exact ⟨failure, rfl, returned⟩
  · rw [isFound] at finds
    rcases finds with ⟨rows, rfl, same⟩
    refine answers_sortAndLimit same (fun column direction asked => ?_) limit
    rcases orderable column direction asked with
      ⟨index, output, position, definition, here, isDefinition, sortable⟩
    refine ⟨index, definition.ty, output, sortable, fun row inside => ?_⟩
    refine tidy.hasType_of_query known listed output here isDefinition isFound ?_
    rw [← same]
    exact inside

end Lifetimes

end Executor

namespace Sample

attribute [local instance] Crc32.ieee Build.debug

open Executor

/-- `SELECT * FROM t WHERE id > 0 ORDER BY a DESC LIMIT 1`, after a restart. -/
theorem replies_insertedTwo :
    ∃ executor : Executor, Lifetime [create, insertSeven, insertNull] executor ∧
      ∃ schema, Relations.Replies schema .star (some ("a", .desc)) (some 1)
        (execSelect "t" .star (some idAboveZero) (some ("a", .desc)) (some 1) executor).1
        (some {[.int 2, .null], [.int 1, .int 7]}) := by
  rcases attains_insertedTwo with ⟨executor, session, rests, follows, idle⟩
  rcases rests.restart (follows.sound .inl) .ofInsertion with ⟨info, executor', run, -⟩
  have lifetime := session.lifetime.restart run
  refine ⟨executor', lifetime, Schema.new "t" [⟨"id", .int, true⟩, ⟨"a", .int, false⟩], ?_⟩
  refine (lifetime.replies "t" .star (some idAboveZero) (some ("a", .desc)) (some 1)).2 _ _ rfl
    ?_ ?_
  · rintro _ ⟨⟩ - - -
    refine ⟨by simp [Overflows, idAboveZero]; decide, 0, ⟨"id", .int, true⟩, ?_, rfl⟩
    exact keyColumn_of_nodup (by decide) rfl rfl
  · rintro _ _ ⟨⟩
    exact ⟨1, rfl, 1, ⟨"a", .int, false⟩, rfl, rfl, .inl rfl⟩

end Sample

end VenomDb
