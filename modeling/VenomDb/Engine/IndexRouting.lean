import VenomDb.Engine.PrimaryKeys
import VenomDb.Engine.UnusedIndexes

/-!
# Answering through an index

A comparison with an integer is answered through the index on its column, if there is one.
On an INT primary key the index points to every row that the comparison does not drop, so
the answer is that of a scan. An index on a key of another type stays empty.
-/

namespace VenomDb

namespace Logical

variable {schema : Schema} {columns : SelectColumns} {filter : Option Expr}

section Answers

/-- Both answers are errors, or both have the same rows. A panic is no answer. -/
def SameAnswer : Except Failure (List Row) → Except Failure (List Row) → Prop
  | .ok rows, .ok rows' => rows.Perm rows'
  | .error (.panic _), _ => False
  | _, .error (.panic _) => False
  | .error _, .error _ => True
  | _, _ => False

/-- No tuple makes the selection panic. -/
def Calm (schema : Schema) (columns : SelectColumns) (filter : Option Expr)
    (tuples : List Bytes) : Prop :=
  ∀ tuple ∈ tuples, ∀ panic, Executor.selectRow schema columns filter tuple ≠ .error (.panic panic)

theorem sameAnswer_errors {failure failure' : Failure} (returned : ∀ panic, failure ≠ .panic panic)
    (returned' : ∀ panic, failure' ≠ .panic panic) :
    SameAnswer (.error failure) (.error failure') := by
  rcases failure with error | error | panic
  · rcases failure' with error' | error' | panic
    · trivial
    · trivial
    · exact absurd rfl (returned' panic)
  · rcases failure' with error' | error' | panic
    · trivial
    · trivial
    · exact absurd rfl (returned' panic)
  · exact absurd rfl (returned panic)

theorem SameAnswer.symm {answer answer' : Except Failure (List Row)}
    (same : SameAnswer answer answer') : SameAnswer answer' answer := by
  rcases answer with (error | error | panic) | rows
  · rcases answer' with (error' | error' | panic) | rows' <;> exact same
  · rcases answer' with (error' | error' | panic) | rows' <;> exact same
  · exact same.elim
  · rcases answer' with (error' | error' | panic) | rows'
    · exact same
    · exact same
    · exact same
    · exact List.Perm.symm same

/-- The rows of the tuples, if none of them fails. -/
theorem selectRows_cases {tuples : List Bytes} (calm : Calm schema columns filter tuples) :
    ((∀ tuple ∈ tuples, (Executor.selectRow schema columns filter tuple).isOk) ∧
      selectRows schema columns filter tuples = .ok (tuples.filterMap fun tuple =>
        (Executor.selectRow schema columns filter tuple).toOption.join)) ∨
    ((∃ tuple ∈ tuples, (Executor.selectRow schema columns filter tuple).isOk = false) ∧
      ∃ failure, selectRows schema columns filter tuples = .error failure ∧
        ∀ panic, failure ≠ .panic panic) := by
  induction tuples with
  | nil => exact .inl ⟨by simp, rfl⟩
  | cons tuple tuples ih =>
      have calmHere := calm tuple List.mem_cons_self
      rw [Executor.selectRows_cons]
      rcases selected : Executor.selectRow schema columns filter tuple with failure | row
      · refine .inr ⟨⟨tuple, List.mem_cons_self, by rw [selected]; rfl⟩, failure, rfl, ?_⟩
        rintro panic rfl
        exact calmHere panic selected
      · rcases ih fun other isOther => calm other (List.mem_cons_of_mem _ isOther) with
          ⟨allOk, rows⟩ | ⟨⟨other, isOther, notOk⟩, failure, failed, returned⟩
        · refine .inl ⟨?_, ?_⟩
          · intro other isOther
            rcases List.mem_cons.mp isOther with rfl | isOther
            · rw [selected]
              rfl
            · exact allOk other isOther
          · rw [rows, List.filterMap_cons, selected]
            cases row with
            | none => rfl
            | some row => rfl
        · refine .inr ⟨⟨other, List.mem_cons_of_mem _ isOther, notOk⟩, failure, ?_, returned⟩
          rw [failed]
          rfl

theorem sameAnswer_of_perm {tuples tuples' : List Bytes}
    (calm : Calm schema columns filter tuples) (perm : tuples.Perm tuples') :
    SameAnswer (selectRows schema columns filter tuples)
      (selectRows schema columns filter tuples') := by
  have calm' : Calm schema columns filter tuples' :=
    fun tuple inside => calm tuple (perm.mem_iff.mpr inside)
  rcases selectRows_cases calm with
    ⟨allOk, rows⟩ | ⟨⟨tuple, inside, notOk⟩, failure, failed, returned⟩
  · rcases selectRows_cases calm' with
      ⟨-, rows'⟩ | ⟨⟨tuple, inside, notOk⟩, -⟩
    · rw [rows, rows']
      exact perm.filterMap _
    · rw [allOk tuple (perm.mem_iff.mpr inside)] at notOk
      simp at notOk
  · rcases selectRows_cases calm' with
      ⟨allOk, -⟩ | ⟨-, failure', failed', returned'⟩
    · rw [allOk tuple (perm.mem_iff.mp inside)] at notOk
      simp at notOk
    · rw [failed, failed']
      exact sameAnswer_errors returned returned'

/-- Tuples that the filter drops make no difference. -/
theorem selectRows_append_dropped {tuples dropped : List Bytes}
    (drops : ∀ tuple ∈ dropped, Executor.selectRow schema columns filter tuple = .ok none) :
    selectRows schema columns filter (tuples ++ dropped) =
      selectRows schema columns filter tuples := by
  induction tuples with
  | nil =>
      induction dropped with
      | nil => rfl
      | cons tuple dropped ih =>
          have rest := ih fun other isOther => drops other (List.mem_cons_of_mem _ isOther)
          rw [List.nil_append] at rest ⊢
          rw [Executor.selectRows_cons, drops tuple List.mem_cons_self, rest]
          rfl
  | cons tuple tuples ih =>
      rw [List.cons_append, Executor.selectRows_cons, ih, Executor.selectRows_cons]

end Answers

section Pointed

variable {logical : Logical} {pageIds : List UInt32} {rids : List Rid}

/-- Following record ids gives the answer of a scan, if they are live rows of the table and the
filter drops all others. -/
theorem sameAnswer_pointedAt (nodupLive : ((logical.heap.live pageIds).map Prod.fst).Nodup)
    (calm : Calm schema columns filter (logical.tuples pageIds)) (nodup : rids.Nodup)
    (live : ∀ rid ∈ rids, ∃ tuple, (rid, tuple) ∈ logical.heap.live pageIds)
    (drops : ∀ entry ∈ logical.heap.live pageIds, entry.1 ∉ rids →
      Executor.selectRow schema columns filter entry.2 = .ok none) :
    SameAnswer (selectRows schema columns filter (logical.pointedAt pageIds rids))
      (selectRows schema columns filter (logical.tuples pageIds)) := by
  have pointed : logical.pointedAt pageIds rids =
      (rids.filterMap fun rid => (logical.heap.get rid).map fun tuple => (rid, tuple)).map
        Prod.snd := by
    have inside : (rids.filter fun rid => rid.pageId ∈ pageIds) = rids := by
      rw [List.filter_eq_self]
      intro rid isRid
      rcases live rid isRid with ⟨tuple, isLive⟩
      simpa using (Heap.mem_live.mp isLive).1
    rw [pointedAt, inside, List.map_filterMap]
    congr 1
    funext rid
    cases logical.heap.get rid with
    | none => rfl
    | some tuple => rfl
  have perm : (logical.heap.live pageIds).Perm
      ((rids.filterMap fun rid => (logical.heap.get rid).map fun tuple => (rid, tuple)) ++
        (logical.heap.live pageIds).filter fun entry => entry.1 ∉ rids) := by
    have split := List.filter_append_perm (fun entry => decide (entry.1 ∈ rids))
      (logical.heap.live pageIds)
    have others : (logical.heap.live pageIds).filter (fun entry => !decide (entry.1 ∈ rids)) =
        (logical.heap.live pageIds).filter fun entry => entry.1 ∉ rids := by
      simp
    rw [others] at split
    refine split.symm.trans (List.Perm.append_right _ ?_)
    rw [List.perm_ext_iff_of_nodup]
    · rintro ⟨rid, tuple⟩
      simp only [List.mem_filter, decide_eq_true_eq, List.mem_filterMap, Option.map_eq_some_iff,
        Prod.mk.injEq]
      constructor
      · rintro ⟨isLive, isRid⟩
        exact ⟨rid, isRid, tuple, (Heap.mem_live.mp isLive).2, rfl, rfl⟩
      · rintro ⟨_, isRid, _, found, rfl, rfl⟩
        rcases live _ isRid with ⟨tuple', isLive⟩
        exact ⟨Heap.mem_live.mpr ⟨(Heap.mem_live.mp isLive).1, found⟩, isRid⟩
    · exact (List.Nodup.of_map _ nodupLive).filter _
    · refine nodup.filterMap fun first second entry isFirst isSecond => ?_
      rcases Option.map_eq_some_iff.mp isFirst with ⟨_, -, rfl⟩
      rcases Option.map_eq_some_iff.mp isSecond with ⟨_, -, same⟩
      exact (Prod.mk.inj same).1.symm
  have same := (sameAnswer_of_perm calm (perm.map Prod.snd)).symm
  rw [List.map_append, selectRows_append_dropped] at same
  · rw [tuples, pointed]
    exact same
  · intro tuple inside
    rcases List.mem_map.mp inside with ⟨entry, isDropped, rfl⟩
    rw [List.mem_filter, decide_eq_true_eq] at isDropped
    exact drops entry isDropped.1 isDropped.2

end Pointed

end Logical

namespace Executor

section Panics

variable {schema : Schema} {row : Row}

theorem cell_of_colIndex {name : String} {index : ℕ} (length : row.length = schema.columns.length)
    (found : schema.colIndex name = some index) : ∃ value, Row.cell row index = .ok value := by
  rw [Schema.colIndex, List.findIdx?_eq_some_iff_getElem] at found
  rcases found with ⟨bound, -⟩
  rw [← length] at bound
  exact ⟨row[index], by rw [Row.cell, List.getElem?_eq_getElem bound]⟩

theorem evalFilter_ne_panic (length : row.length = schema.columns.length) (expr : Expr)
    (panic : Panic) : evalFilter schema row expr ≠ .error (.panic panic) := by
  rw [evalFilter]
  rcases found : schema.colIndex expr.left with _ | index
  · simp
  · rcases cell_of_colIndex length found with ⟨value, cell⟩
    simp only [cell, bind, Except.bind, pure, Except.pure]
    split
    · simp
    · simp
    · split_ifs
      · simp
      · split
        · simp
        · split <;> simp

theorem project_ne_panic (length : row.length = schema.columns.length) (columns : SelectColumns)
    (panic : Panic) : project schema row columns ≠ .error (.panic panic) := by
  cases columns with
  | star => simp [project]
  | named names =>
      rw [project]
      induction names with
      | nil => simp [pure, Except.pure]
      | cons name names ih =>
          rw [List.mapM_cons, projectColumn]
          rcases found : schema.colIndex name with _ | index
          · simp [bind, Except.bind]
          · rcases cell_of_colIndex length found with ⟨value, cell⟩
            simp only [cell, bind, Except.bind, pure, Except.pure]
            generalize names.mapM (projectColumn schema row) = others at ih ⊢
            cases others with
            | error failure => exact ih
            | ok values => simp

/-- A row that can be read makes no statement panic. -/
theorem selectRow_ne_panic {tuple : Bytes} (decoded : schema.deserializeRow tuple = .ok row)
    (columns : SelectColumns) (filter : Option Expr) (panic : Panic) :
    selectRow schema columns filter tuple ≠ .error (.panic panic) := by
  have length := Schema.length_of_deserializeFields decoded
  have filtered : selects schema filter row ≠ .error (.panic panic) := by
    cases filter with
    | none => simp [selects]
    | some expr => exact evalFilter_ne_panic length expr panic
  have projected := project_ne_panic length columns panic
  simp only [selectRow, decoded, bind, Except.bind]
  rcases selected : selects schema filter row with failure | _ | _
  · rw [selected] at filtered
    simpa using filtered
  · simp [pure, Except.pure]
  · rcases made : project schema row columns with failure | values
    · rw [made] at projected
      simpa using projected
    · simp [pure, Except.pure]

theorem calm_tuples {logical : Logical} {table : String} {pageIds : List UInt32}
    (tidy : logical.Tidy) (known : logical.catalog.get table = some schema)
    (listed : logical.tablePages.lookup table = some pageIds) (columns : SelectColumns)
    (filter : Option Expr) : Logical.Calm schema columns filter (logical.tuples pageIds) := by
  intro tuple inside
  rcases List.mem_map.mp inside with ⟨⟨rid, tuple⟩, isLive, rfl⟩
  rcases Heap.mem_live.mp isLive with ⟨among, live⟩
  rcases tidy.rowAt_of_live known listed among live with ⟨row, decoded, -⟩
  exact selectRow_ne_panic decoded columns filter

end Panics

section Routing

variable [Build] {manager : IndexManager} {table : String} {keyAt : Rid → Option Int64}
    {expr : Expr}
  {schema : Schema} {row : Row} {index : ℕ} {key rhs : Int64}

/-- The comparisons of two integers. -/
def holds : Op → ℤ → ℤ → Bool
  | .eq, key, rhs => key = rhs
  | .ne, key, rhs => key ≠ rhs
  | .lt, key, rhs => key < rhs
  | .gt, key, rhs => rhs < key
  | .le, key, rhs => key ≤ rhs
  | .ge, key, rhs => rhs ≤ key
  | _, _, _ => false

omit [Build] in
/-- A comparison of an integer cell with an integer. -/
theorem evalFilter_int {left : String} {op : Op} (found : schema.colIndex left = some index)
    (cell : row[index]? = some (.int key)) (notNull : op ≠ .isNull) (notNotNull : op ≠ .isNotNull) :
    evalFilter schema row ⟨left, op, .int rhs⟩ = .ok (holds op key.toInt rhs.toInt) := by
  have isCell : Row.cell row index = .ok (.int key) := by rw [Row.cell, cell]
  have atMost : key.toInt < rhs.toInt ∨ key.toInt = rhs.toInt ↔ key.toInt ≤ rhs.toInt := by omega
  have atLeast : rhs.toInt < key.toInt ∨ key.toInt = rhs.toInt ↔ rhs.toInt ≤ key.toInt := by omega
  cases op with
  | isNull => exact absurd rfl notNull
  | isNotNull => exact absurd rfl notNotNull
  | _ =>
      simp only [evalFilter, found, isCell, Value.partialCmp, holds, bind, Except.bind,
        reduceCtorEq,
        or_self, if_false, pure, Except.pure, compare_lt_iff_lt, compare_gt_iff_gt,
        compare_eq_iff_eq, ne_eq, atMost, atLeast]

omit [Build] in
theorem toInt_successor_le (less : rhs.toInt < key.toInt) : (rhs + 1).toInt ≤ key.toInt := by
  have upper := key.toInt_lt
  have lower := rhs.le_toInt
  have one : (1 : Int64).toInt = 1 := by decide
  rw [Int64.toInt_add, one, Int.bmod_eq_of_le (by omega) (by omega)]
  omega

omit [Build] in
theorem toInt_le_predecessor (less : key.toInt < rhs.toInt) : key.toInt ≤ (rhs - 1).toInt := by
  have upper := rhs.toInt_lt
  have lower := key.le_toInt
  have one : (1 : Int64).toInt = 1 := by decide
  rw [Int64.toInt_sub, one, Int.bmod_eq_of_le (by omega) (by omega)]
  omega

omit [Build] in
theorem selectRow_none_iff {columns : SelectColumns} {tuple : Bytes}
    (decoded : schema.deserializeRow tuple = .ok row) :
    selectRow schema columns (some expr) tuple = .ok none ↔
      evalFilter schema row expr = .ok false := by
  simp only [selectRow, decoded, selects, bind, Except.bind]
  rcases evalFilter schema row expr with failure | _ | _
  · simp
  · simp [pure, Except.pure]
  · rcases project schema row columns with failure | projected
    · simp
    · simp [pure, Except.pure]

/-- The operators that are answered through an index. -/
def Routable : Op → Prop
  | .eq | .lt | .gt | .le | .ge => True
  | _ => False

/-- The record ids for a comparison: different ones, all in the index, and all of them for
which the comparison holds. At the ends of the integer range the bound may wrap, and then the
index gives more. -/
structure Answers (keyAt : Rid → Option Int64) (op : Op) (rhs : Int64) (rids : List Rid) :
    Prop where
  nodup : rids.Nodup
  indexed : ∀ rid ∈ rids, (keyAt rid).isSome
  complete : ∀ rid key, keyAt rid = some key → holds op key.toInt rhs.toInt → rid ∈ rids

omit [Build] in
theorem answers_rangeScan {column : String} {op : Op} {first last : Int64}
    (isExact : manager.IsExact table column keyAt)
    (covers : ∀ key : Int64, holds op key.toInt rhs.toInt →
      first.toInt ≤ key.toInt ∧ key.toInt ≤ last.toInt) :
    Answers keyAt op rhs (manager.rangeScan table column first last) where
  nodup := isExact.nodup_rangeScan first last
  indexed := by
    intro rid inside
    rcases isExact.mem_rangeScan.mp inside with ⟨key, here, -⟩
    simp [here]
  complete := fun rid key here holds => isExact.mem_rangeScan.mpr ⟨key, here, covers key holds⟩

/-- In a release build an index answers every comparison with an integer that it is asked for. -/
theorem indexRids_cases (release : Build.overflowChecks = false)
    (isExact : manager.IsExact table expr.left keyAt) :
    (indexRids manager table expr = .ok none) ∨
    ∃ rids rhs, indexRids manager table expr = .ok (some rids) ∧ expr.right = .int rhs ∧
      Routable expr.op ∧ Answers keyAt expr.op rhs rids := by
  have has : manager.hasIndex table expr.left = true := AList.lookup_isSome.mpr isExact.mem
  have succ (key : Int64) : successor key = .ok (key + 1) := by simp [successor, release]
  have pred (key : Int64) : predecessor key = .ok (key - 1) := by simp [predecessor, release]
  have bounds (key : Int64) :
      Int64.minValue.toInt ≤ key.toInt ∧ key.toInt ≤ Int64.maxValue.toInt := by
    have upper := key.toInt_lt
    have lower := key.le_toInt
    rw [Int64.toInt_minValue, Int64.toInt_maxValue]
    omega
  rcases expr with ⟨left, op, right⟩
  dsimp only at isExact has ⊢
  rw [indexRids, if_pos has]
  rcases right with rhs | bits | text | _
  · cases op with
    | eq =>
        refine .inr ⟨_, rhs, rfl, rfl, trivial, ⟨?_, ?_, ?_⟩⟩
        · cases manager.search table left rhs with
          | none => exact List.nodup_nil
          | some rid => exact List.nodup_singleton rid
        · intro rid inside
          have here := isExact.search.mp (Option.mem_toList.mp inside)
          simp [here]
        · intro rid key here equal
          obtain rfl : key = rhs := Int64.toInt_inj.mp (by simpa [holds] using equal)
          exact Option.mem_toList.mpr (isExact.search.mpr here)
    | lt =>
        refine .inr ⟨_, rhs, by simp only [pred]; rfl, rfl, trivial, answers_rangeScan isExact ?_⟩
        intro key less
        exact ⟨(bounds key).1, toInt_le_predecessor (by simpa [holds] using less)⟩
    | gt =>
        refine .inr ⟨_, rhs, by simp only [succ]; rfl, rfl, trivial, answers_rangeScan isExact ?_⟩
        intro key greater
        exact ⟨toInt_successor_le (by simpa [holds] using greater), (bounds key).2⟩
    | le =>
        refine .inr ⟨_, rhs, rfl, rfl, trivial, answers_rangeScan isExact ?_⟩
        intro key atMost
        exact ⟨(bounds key).1, by simpa [holds] using atMost⟩
    | ge =>
        refine .inr ⟨_, rhs, rfl, rfl, trivial, answers_rangeScan isExact ?_⟩
        intro key atLeast
        exact ⟨by simpa [holds] using atLeast, (bounds key).2⟩
    | ne => exact .inl rfl
    | isNull => exact .inl rfl
    | isNotNull => exact .inl rfl
  · exact .inl rfl
  · exact .inl rfl
  · exact .inl rfl

/-- The bound that this comparison needs overflows, and the build checks it. -/
def Overflows (expr : Expr) : Prop :=
  Build.overflowChecks = true ∧
    (expr.op = .gt ∧ expr.right = .int Int64.maxValue ∨
      expr.op = .lt ∧ expr.right = .int Int64.minValue)

omit [Build] in
theorem rangeScan_empty {column : String} (isExact : manager.IsExact table column fun _ => none)
    (first last : Int64) : manager.rangeScan table column first last = [] := by
  rw [List.eq_nil_iff_forall_not_mem]
  intro rid inside
  rcases isExact.mem_rangeScan.mp inside with ⟨key, here, -⟩
  simp at here

/-- An empty index has no record ids for a comparison that is answered through it. -/
theorem indexRids_empty (isExact : manager.IsExact table expr.left fun _ => none)
    (right : expr.right = .int rhs) (routable : Routable expr.op) :
    (Overflows expr ∧ indexRids manager table expr = .error (.panic .overflow)) ∨
    (¬Overflows expr ∧ indexRids manager table expr = .ok (some [])) := by
  have has : manager.hasIndex table expr.left = true := AList.lookup_isSome.mpr isExact.mem
  have empty := rangeScan_empty isExact
  rcases expr with ⟨left, op, literal⟩
  dsimp only at right isExact has empty routable
  subst right
  rw [indexRids, if_pos has]
  cases op with
  | eq =>
      have missing : manager.search table left rhs = none := by
        rw [Option.eq_none_iff_forall_ne_some]
        intro rid found
        have here := isExact.search.mp found
        simp at here
      refine .inr ⟨by simp [Overflows], ?_⟩
      simp only [missing]
      rfl
  | gt =>
      by_cases overflow : Build.overflowChecks = true ∧ rhs = Int64.maxValue
      · refine .inl ⟨⟨overflow.1, .inl ⟨rfl, by rw [overflow.2]⟩⟩, ?_⟩
        simp only [successor, if_pos overflow]
        rfl
      · refine .inr ⟨by simpa [Overflows] using overflow, ?_⟩
        simp only [successor, if_neg overflow, empty, bind, Except.bind]
        rfl
  | lt =>
      by_cases overflow : Build.overflowChecks = true ∧ rhs = Int64.minValue
      · refine .inl ⟨⟨overflow.1, .inr ⟨rfl, by rw [overflow.2]⟩⟩, ?_⟩
        simp only [predecessor, if_pos overflow]
        rfl
      · refine .inr ⟨by simpa [Overflows] using overflow, ?_⟩
        simp only [predecessor, if_neg overflow, empty, bind, Except.bind]
        rfl
  | le =>
      refine .inr ⟨by simp [Overflows], ?_⟩
      simp only [empty]
      rfl
  | ge =>
      refine .inr ⟨by simp [Overflows], ?_⟩
      simp only [empty]
      rfl
  | _ => exact routable.elim

/-- Other comparisons are left to the scan. -/
theorem indexRids_unrouted (unrouted : ¬(Routable expr.op ∧ ∃ rhs, expr.right = .int rhs)) :
    indexRids manager table expr = .ok none := by
  rcases expr with ⟨left, op, literal⟩
  rw [indexRids]
  split_ifs
  · rcases literal with rhs | bits | text | _
    · cases op with
      | ne => rfl
      | isNull => rfl
      | isNotNull => rfl
      | _ => exact absurd ⟨trivial, rhs, rfl⟩ unrouted
    · rfl
    · rfl
    · rfl
  · rfl

end Routing

section IntKeys

variable [Crc32] [Build] {executor : Executor} {logical : Logical} {table : String}
    {schema : Schema}
  {index : ℕ} {column : ColumnDef} {pageIds : List UInt32}

omit [Crc32] in
/-- The rows that `SELECT` finds are those of a scan, whatever the comparison. -/
theorem sameAnswer_findRows (release : Build.overflowChecks = false) (keyed : logical.Keyed)
    (defined : logical.Defined) (tidy : logical.Tidy)
    (known : logical.catalog.get table = some schema)
    (listed : logical.tablePages.lookup table = some pageIds)
    (keyColumn : schema.KeyColumn index column) (ty : column.ty = .int)
    (columns : SelectColumns) (expr : Expr) :
    Logical.SameAnswer (logical.findRows table schema columns (some expr) pageIds)
      (Logical.selectRows schema columns (some expr) (logical.tuples pageIds)) := by
  have calm := calm_tuples tidy known listed columns (some expr)
  rcases has : logical.indexManager.hasIndex table expr.left with _ | _
  · have unrouted : indexRids logical.indexManager table expr = .ok none := by
      rw [indexRids, has]
      rfl
    simp only [Logical.findRows, Option.elim_some, unrouted, bind, Except.bind]
    exact Logical.sameAnswer_of_perm calm (.refl _)
  · -- there is no other index than that of the primary key
    have isKey : column.name = expr.left := by
      have created := defined.created (AList.lookup_isSome.mp has)
      rcases defined.defs.mp created with ⟨schema', known', primary⟩
      obtain rfl : schema = schema' := by simpa using known.symm.trans known'
      simpa using keyColumn.primary.symm.trans primary
    have isExact := keyed.indexed known listed keyColumn ty
    rw [isKey] at isExact
    rcases indexRids_cases release isExact with
      unrouted | ⟨rids, rhs, routed, right, routable, answers⟩
    · simp only [Logical.findRows, Option.elim_some, unrouted, bind, Except.bind]
      exact Logical.sameAnswer_of_perm calm (.refl _)
    · simp only [Logical.findRows, Option.elim_some, routed, bind, Except.bind]
      refine Logical.sameAnswer_pointedAt (tidy.nodup_live listed) calm answers.nodup ?_ ?_
      · intro rid inside
        rcases Option.isSome_iff_exists.mp (answers.indexed rid inside) with ⟨key, here⟩
        exact keyAt_of_live here
      · rintro ⟨rid, tuple⟩ inside unpointed
        rcases Heap.mem_live.mp inside with ⟨among, live⟩
        rcases tidy.rowAt_of_live known listed among live with ⟨row, decoded, here⟩
        rcases intKey_of_live keyed tidy known listed keyColumn ty inside with ⟨key, cell, keyed⟩
        rw [cellOf_of_rowAt decoded here, here, Option.bind_some] at cell
        rw [selectRow_none_iff decoded]
        rcases expr with ⟨left, op, literal⟩
        dsimp only at right routable answers isKey
        subst right isKey
        rw [evalFilter_int keyColumn.colIndex cell]
        · rw [Except.ok.injEq, Bool.eq_false_iff]
          exact fun satisfied => unpointed (answers.complete rid key keyed satisfied)
        · rintro rfl
          exact routable
        · rintro rfl
          exact routable

omit [Crc32] in
/-- Without `ORDER BY` and `LIMIT`, `SELECT` gives the rows that it finds. -/
theorem execSelect_plain (known : logical.catalog.get table = some schema)
    (listed : logical.tablePages.lookup table = some pageIds) (columns : SelectColumns)
    (filter : Option Expr) :
    logical.execSelect table columns filter none none =
      logical.findRows table schema columns filter pageIds := by
  rw [Logical.execSelect, known, listed]
  simp only [sortAndLimit]
  rcases logical.findRows table schema columns filter pageIds with failure | rows
  · rfl
  · rfl

/-- What a state reached by statements that succeed and clean restarts answers. -/
theorem Reachable.answers (reachable : Reachable Succeeds executor)
    (known : executor.catalog.get table = some schema) :
    ∃ logical pageIds, logical.Tidy ∧ Logical.Run Logical.Done logical ∧
      logical.catalog.get table = some schema ∧
      logical.tablePages.lookup table = some pageIds ∧
      executor.tablePages.lookup table = some pageIds ∧
      executor.entriesOf pageIds = logical.heap.live pageIds ∧
      ∀ columns filter,
        (execSelect table columns filter none none executor).1 =
          logical.findRows table schema columns filter pageIds ∧
        (seqScan schema columns filter pageIds executor).1 =
          Logical.selectRows schema columns filter (logical.tuples pageIds) := by
  rcases reachable.follows_done with ⟨logical, rests, follows, idle⟩
  have tidy := (follows.sound .inl).tidy
  have usable := (follows.sound .inl).usable
  have sameCatalog : executor.catalog = logical.catalog := rests.reflects.catalog_eq
  have samePages : executor.tablePages = logical.tablePages := rests.reflects.tablePages_eq
  rw [sameCatalog] at known
  have listed : (logical.tablePages.lookup table).isSome := by
    rw [← tidy.filed.tables, known]
    rfl
  rcases Option.isSome_iff_exists.mp listed with ⟨pageIds, listed⟩
  refine ⟨logical, pageIds, tidy, follows, known, listed, by rw [samePages, listed],
    rests.reflects.entriesOf (usable.present listed), ?_⟩
  intro columns filter
  constructor
  · rcases execSelect_ends table columns filter none none rests.reflects usable with
      ends | noFrame | overpins
    · rw [ends.1, execSelect_plain known listed]
    · exact absurd noFrame.full idle.ready.not_full
    · exact absurd overpins.overpinned idle.ready.not_overpinned
  · rcases seqScan_ends schema columns filter rests.reflects (tidy.filed.nodup listed)
      (usable.present listed) with ends | noFrame | overpins
    · exact ends.1
    · exact absurd noFrame.full idle.ready.not_full
    · exact absurd overpins.overpinned idle.ready.not_overpinned

/-- On a table with an INT primary key a `SELECT` that may go through the index fails exactly if
the scan of the table does, and gives the same rows otherwise. -/
theorem select_sameAnswer (release : Build.overflowChecks = false)
    (reachable : Reachable Succeeds executor) (known : executor.catalog.get table = some schema)
    (distinct : (schema.columns.map ColumnDef.name).Nodup)
    (here : schema.columns[index]? = some column) (primary : schema.primaryKey = some column.name)
    (ty : column.ty = .int) (columns : SelectColumns) (expr : Expr) :
    ∃ pageIds, executor.tablePages.lookup table = some pageIds ∧
      Logical.SameAnswer (execSelect table columns (some expr) none none executor).1
        (seqScan schema columns (some expr) pageIds executor).1 := by
  rcases reachable.answers known with
    ⟨logical, pageIds, tidy, follows, known, listed, isListed, -, answers⟩
  rcases answers columns (some expr) with ⟨selected, scanned⟩
  refine ⟨pageIds, isListed, ?_⟩
  rw [selected, scanned]
  exact sameAnswer_findRows release follows.keyed.1 follows.keyed.2 tidy known listed
    (keyColumn_of_nodup distinct here primary) ty columns expr

end IntKeys

section OtherKeys

variable {schema : Schema} {columns : SelectColumns} {expr : Expr}

/-- No row that is not there is missed exactly if the comparison holds for no row, and fails for
none. -/
theorem sameAnswer_nil_iff {tuples : List Bytes}
    (decodes : ∀ tuple ∈ tuples, ∃ row, schema.deserializeRow tuple = .ok row) :
    Logical.SameAnswer (.ok []) (Logical.selectRows schema columns (some expr) tuples) ↔
      ∀ tuple ∈ tuples, ∃ row, schema.deserializeRow tuple = .ok row ∧
        evalFilter schema row expr = .ok false := by
  have dropped (tuple : Bytes) (inside : tuple ∈ tuples) :
      selectRow schema columns (some expr) tuple = .ok none ↔
        ∃ row, schema.deserializeRow tuple = .ok row ∧ evalFilter schema row expr = .ok false := by
    rcases decodes tuple inside with ⟨row, decoded⟩
    rw [selectRow_none_iff decoded]
    simp [decoded]
  have calm : Logical.Calm schema columns (some expr) tuples := by
    intro tuple inside
    rcases decodes tuple inside with ⟨row, decoded⟩
    exact selectRow_ne_panic decoded columns (some expr)
  constructor
  · intro same tuple inside
    rw [← dropped tuple inside]
    rcases Logical.selectRows_cases calm with ⟨allOk, rows⟩ | ⟨-, failure, failed, returned⟩
    · rw [rows] at same
      have none_of := List.filterMap_eq_nil_iff.mp (List.nil_perm.mp same) tuple inside
      have isOk := allOk tuple inside
      rcases selected : selectRow schema columns (some expr) tuple with failure | row
      · rw [selected] at isOk
        exact absurd isOk Bool.false_ne_true
      · simp only [selected, Except.toOption, Option.join_some] at none_of
        rw [none_of]
    · rw [failed] at same
      rcases failure with error | error | panic
      · exact same.elim
      · exact same.elim
      · exact same.elim
  · intro drops
    have nothing : Logical.selectRows schema columns (some expr) ([] ++ tuples) = .ok [] :=
      Logical.selectRows_append_dropped fun tuple inside =>
        (dropped tuple inside).mpr (drops tuple inside)
    rw [List.nil_append] at nothing
    rw [nothing]
    exact List.Perm.refl []

variable [Crc32] [Build] {executor : Executor} {table : String}

/-- The index on a key of another type than INT is empty, but still asked. The answer is then
that of a scan exactly if the scan finds nothing. -/
theorem select_sameAnswer_iff (reachable : Reachable Succeeds executor)
    (known : executor.catalog.get table = some schema)
    (primary : schema.primaryKey = some expr.left) (noInt : schema.NoInt expr.left)
    (columns : SelectColumns) :
    ∃ pageIds, executor.tablePages.lookup table = some pageIds ∧
      (Logical.SameAnswer (execSelect table columns (some expr) none none executor).1
          (seqScan schema columns (some expr) pageIds executor).1 ↔
        ¬(Routable expr.op ∧ ∃ rhs, expr.right = .int rhs) ∨
        ¬Overflows expr ∧ ∀ entry ∈ executor.entriesOf pageIds,
          ∃ row, schema.deserializeRow entry.2 = .ok row ∧
            evalFilter schema row expr = .ok false) := by
  rcases reachable.answers known with
    ⟨logical, pageIds, tidy, follows, known, listed, isListed, entries, answers⟩
  rcases answers columns (some expr) with ⟨selected, scanned⟩
  refine ⟨pageIds, isListed, ?_⟩
  rw [selected, scanned, entries]
  have isExact := follows.unused known primary noInt
  have calm := calm_tuples tidy known listed columns (some expr)
  by_cases routed : Routable expr.op ∧ ∃ rhs, expr.right = .int rhs
  · rw [or_iff_right (not_not_intro routed)]
    rcases routed with ⟨routable, rhs, right⟩
    rcases indexRids_empty isExact right routable with
      ⟨overflows, panicked⟩ | ⟨fits, nothing⟩
    · simp only [Logical.findRows, Option.elim_some, panicked, bind, Except.bind]
      constructor
      · intro same
        exact same.elim
      · intro fits
        exact absurd overflows fits.1
    · have found : logical.findRows table schema columns (some expr) pageIds = .ok [] := by
        simp only [Logical.findRows, Option.elim_some, nothing, bind, Except.bind]
        rfl
      rw [found, and_iff_right fits, sameAnswer_nil_iff, Logical.tuples, List.forall_mem_map]
      intro tuple inside
      rcases List.mem_map.mp inside with ⟨⟨rid, tuple⟩, isLive, rfl⟩
      rcases Heap.mem_live.mp isLive with ⟨among, live⟩
      rcases tidy.rowAt_of_live known listed among live with ⟨row, decoded, -⟩
      exact ⟨row, decoded⟩
  · have unrouted : indexRids logical.indexManager table expr = .ok none :=
      indexRids_unrouted routed
    simp only [Logical.findRows, Option.elim_some, unrouted, bind, Except.bind]
    exact iff_of_true (Logical.sameAnswer_of_perm calm (.refl _)) (.inl routed)

end OtherKeys

end Executor

namespace Sample

open Executor

section Wrapping

attribute [local instance] Crc32.ieee Build.release

/-- `WHERE id > 9223372036854775807`, for which the bound of the range wraps. -/
def idAboveAll : Expr := ⟨"id", .gt, .int Int64.maxValue⟩

/-- The same rows as in a build with overflow checks. -/
theorem attains_wrapping :
    ∃ logical, Attains [create, insertSeven, insertNull] logical ∧
      logical.catalog.get "t" =
        some (Schema.new "t" [⟨"id", .int, true⟩, ⟨"a", .int, false⟩]) := by
  have started : Attains [] opened := attains_start .ofInsertion
  have first := started.execute .ofInsertion create ⟨by decide, by decide⟩ rfl
  have second := first.execute .ofInsertion insertSeven ⟨by decide, by decide⟩ rfl
  exact ⟨_, second.execute .ofInsertion insertNull ⟨by decide, by decide⟩ rfl, rfl⟩

theorem select_sameAnswer_insertedTwo :
    ∃ (executor : Executor) (schema : Schema) (column : ColumnDef),
      Reachable Succeeds executor ∧ executor.catalog.get "t" = some schema ∧
      (schema.columns.map ColumnDef.name).Nodup ∧ schema.columns[0]? = some column ∧
      schema.primaryKey = some column.name ∧ column.ty = .int ∧
      ∃ pageIds, executor.tablePages.lookup "t" = some pageIds ∧
        Logical.SameAnswer (execSelect "t" .star (some idAboveAll) none none executor).1
          (seqScan schema .star (some idAboveAll) pageIds executor).1 := by
  rcases attains_wrapping with ⟨logical, ⟨executor, session, rests, follows, idle⟩, known⟩
  rw [← rests.reflects.catalog_eq] at known
  have here : (Schema.new "t" [⟨"id", .int, true⟩, ⟨"a", .int, false⟩]).columns[0]? =
      some ⟨"id", .int, true⟩ := rfl
  exact ⟨executor, _, ⟨"id", .int, true⟩, session.reachable, known, by decide, here, rfl, rfl,
    select_sameAnswer rfl session.reachable known (by decide) here rfl rfl .star idAboveAll⟩

end Wrapping

attribute [local instance] Crc32.ieee Build.debug

/-- `CREATE TABLE t (x FLOAT PRIMARY KEY)` -/
def createNumbers : Statement := .createTable "t" [⟨"x", .float, true⟩]

/-- `INSERT INTO t VALUES (1.0)` -/
def insertOne : Statement := .insert "t" [.float 0x3FF0000000000000]

/-- `WHERE x = 1` -/
def equalsOne : Expr := ⟨"x", .eq, .int 1⟩

def numbers : Logical := (opened.execute .ofInsertion createNumbers).state

def numberedOne : Logical := (numbers.execute .ofInsertion insertOne).state

theorem attains_numberedOne : Attains [createNumbers, insertOne] numberedOne := by
  have started : Attains [] opened := attains_start .ofInsertion
  have first := started.execute .ofInsertion createNumbers ⟨by decide, by decide⟩ rfl
  exact first.execute .ofInsertion insertOne ⟨by decide, by decide⟩ rfl

theorem noInt_numbers : (Schema.new "t" [⟨"x", .float, true⟩]).NoInt "x" := by
  intro column inside named
  obtain rfl : column = ⟨"x", .float, true⟩ := List.mem_singleton.mp inside
  decide

theorem select_sameAnswer_iff_numberedOne :
    ∃ (executor : Executor) (schema : Schema),
      Reachable Succeeds executor ∧ executor.catalog.get "t" = some schema ∧
      schema.primaryKey = some equalsOne.left ∧ schema.NoInt equalsOne.left ∧
      ∃ pageIds, executor.tablePages.lookup "t" = some pageIds ∧
        (Logical.SameAnswer (execSelect "t" .star (some equalsOne) none none executor).1
            (seqScan schema .star (some equalsOne) pageIds executor).1 ↔
          ¬(Routable equalsOne.op ∧ ∃ rhs, equalsOne.right = .int rhs) ∨
          ¬Overflows equalsOne ∧ ∀ entry ∈ executor.entriesOf pageIds,
            ∃ row, schema.deserializeRow entry.2 = .ok row ∧
              evalFilter schema row equalsOne = .ok false) := by
  rcases attains_numberedOne with ⟨executor, session, rests, follows, idle⟩
  have known : executor.catalog.get "t" = some (Schema.new "t" [⟨"x", .float, true⟩]) := by
    rw [rests.reflects.catalog_eq]
    rfl
  exact ⟨executor, _, session.reachable, known, rfl, noInt_numbers,
    select_sameAnswer_iff session.reachable known rfl noInt_numbers .star⟩

/-- The row with 1.0 is there, but not found through the index. -/
theorem float_key_missed :
    ∃ (executor : Executor) (schema : Schema),
      Session Succeeds [createNumbers, insertOne] executor ∧
      executor.catalog.get "t" = some schema ∧ schema.primaryKey = some equalsOne.left ∧
      schema.NoInt equalsOne.left ∧
      ∃ pageIds, executor.tablePages.lookup "t" = some pageIds ∧
        (execSelect "t" .star (some equalsOne) none none executor).1 = .ok [] ∧
        (seqScan schema .star (some equalsOne) pageIds executor).1 =
          .ok [[.float 0x3FF0000000000000]] ∧
        ¬Logical.SameAnswer (execSelect "t" .star (some equalsOne) none none executor).1
          (seqScan schema .star (some equalsOne) pageIds executor).1 := by
  rcases attains_numberedOne with ⟨executor, session, rests, follows, idle⟩
  have known : numberedOne.catalog.get "t" = some (Schema.new "t" [⟨"x", .float, true⟩]) := rfl
  have listed : numberedOne.tablePages.lookup "t" = some [0] := rfl
  have tidy := (follows.sound .inl).tidy
  have usable := (follows.sound .inl).usable
  have selected : (execSelect "t" .star (some equalsOne) none none executor).1 = .ok [] := by
    rcases execSelect_ends "t" .star (some equalsOne) none none rests.reflects usable with
      ends | noFrame | overpins
    · rw [ends.1]
      rfl
    · exact absurd noFrame.full idle.ready.not_full
    · exact absurd overpins.overpinned idle.ready.not_overpinned
  have scanned : (seqScan (Schema.new "t" [⟨"x", .float, true⟩]) .star (some equalsOne) [0]
      executor).1 = .ok [[.float 0x3FF0000000000000]] := by
    rcases seqScan_ends (Schema.new "t" [⟨"x", .float, true⟩]) .star (some equalsOne)
      rests.reflects (tidy.filed.nodup listed) (usable.present listed) with
      ends | noFrame | overpins
    · rw [ends.1]
      rfl
    · exact absurd noFrame.full idle.ready.not_full
    · exact absurd overpins.overpinned idle.ready.not_overpinned
  refine ⟨executor, _, session, ?_, rfl, noInt_numbers, [0], ?_, selected, scanned, ?_⟩
  · rw [rests.reflects.catalog_eq]
    exact known
  · rw [rests.reflects.tablePages_eq]
    exact listed
  · rw [selected, scanned]
    intro same
    exact absurd (List.Perm.length_eq same) (by decide)

end Sample

end VenomDb
