import VenomDb.Engine.Catalog
import VenomDb.Engine.IndexManager

/-!
# Evaluating statements on one row

The parts of the executor that look at a single row: the `WHERE` clause, projection,
the order of values, and the checks and assignments of `UPDATE`.
-/

namespace VenomDb

/-- The build decides whether arithmetic on keys is checked. The `u32` counters are modelled as in a
build with checks: an overflow is a panic. -/
class Build where
  overflowChecks : Bool

/-- A release build. -/
@[reducible]
def Build.release : Build := ⟨false⟩

/-- A build with overflow checks. -/
@[reducible]
def Build.debug : Build := ⟨true⟩

/-- `row[index]`. -/
def Row.cell (row : Row) (index : ℕ) : Except Failure Value :=
  match row[index]? with
  | some value => .ok value
  | none => .error (.panic .outOfBounds)

/-- The key an index would hold for a cell: only integers are indexed. -/
def Value.intKey : Value → Option Int64
  | .int key => some key
  | _ => none

namespace Executor

/-- Does a row satisfy a `WHERE` clause? -/
def evalFilter (schema : Schema) (row : Row) (expr : Expr) : Except Failure Bool := do
  match schema.colIndex expr.left with
  | none => .error (.sql (.columnNotFound expr.left))
  | some index => do
      let cell ← row.cell index
      match expr.op with
      | .isNull => return decide (cell = .null)
      | .isNotNull => return decide (cell ≠ .null)
      | op =>
          -- any comparison with NULL is false
          if cell = .null ∨ expr.right = .null then return false
          else
            match cell.partialCmp expr.right with
            | none => .error (.sql (.filterTypeMismatch cell op expr.right))
            | some ordering =>
                match op with
                | .eq => return decide (ordering = .eq)
                | .ne => return decide (ordering ≠ .eq)
                | .lt => return decide (ordering = .lt)
                | .gt => return decide (ordering = .gt)
                | .le => return decide (ordering = .lt ∨ ordering = .eq)
                | .ge => return decide (ordering = .gt ∨ ordering = .eq)
                | op => .error (.sql (.unsupportedOperator op))

/-- An optional `WHERE` clause; a statement without one is about every row. -/
def selects (schema : Schema) (filter : Option Expr) (row : Row) : Except Failure Bool :=
  match filter with
  | none => .ok true
  | some expr => evalFilter schema row expr

/-- The order of `ORDER BY`: NULLs last, values that do not compare count as less. -/
def compareValues : Value → Value → Ordering
  | .null, .null => .eq
  | .null, _ => .gt
  | _, .null => .lt
  | left, right => (left.partialCmp right).getD .lt

/-- One column of a projection. -/
def projectColumn (schema : Schema) (row : Row) (name : String) : Except Failure Value :=
  match schema.colIndex name with
  | none => .error (.sql (.columnNotFound name))
  | some index => row.cell index

def project (schema : Schema) (row : Row) : SelectColumns → Except Failure Row
  | .star => .ok row
  | .named names => names.mapM (projectColumn schema row)

/-- What `SELECT` makes of a row: `none` if the `WHERE` clause drops it. -/
def selectRow (schema : Schema) (columns : SelectColumns) (filter : Option Expr) (tuple : Bytes) :
    Except Failure (Option Row) := do
  let row ← schema.deserializeRow tuple
  if ← selects schema filter row then
    let projected ← project schema row columns
    return some projected
  else return none

/-- `PRIMARY KEY` enforcement of `INSERT`. -/
def checkInsertKey (schema : Schema) (manager : IndexManager) (table : String)
    (values : List Value) : Except Failure Unit :=
  match schema.primaryKey, schema.pkColIndex with
  | some column, some index => do
      match ← Row.cell values index with
      | .null => .error (.sql (.primaryKeyNull column))
      | .int key =>
          if (manager.search table column key).isSome then
            .error (.sql (.duplicatePrimaryKey column key))
          else return ()
      | _ => return ()
  | _, _ => return ()

/-- `PRIMARY KEY` enforcement of `UPDATE`, assignment by assignment. -/
def checkUpdateKey (schema : Schema) (manager : IndexManager) (table : String) (oldRow : Row) :
    List Assignment → Except Failure Unit
  | [] => .ok ()
  | assignment :: assignments => do
      match schema.primaryKey with
      | none => return ()
      | some column =>
          if assignment.column = column then
            match assignment.value with
            | .null => .error (.sql (.primaryKeyNull column))
            | .int newKey =>
                match schema.pkColIndex with
                | none => .error (.panic .outOfBounds)
                | some index => do
                    let old ← oldRow.cell index
                    if old ≠ .int newKey ∧ (manager.search table column newKey).isSome then
                      .error (.sql (.duplicatePrimaryKey column newKey))
                    else checkUpdateKey schema manager table oldRow assignments
            | _ => checkUpdateKey schema manager table oldRow assignments
          else checkUpdateKey schema manager table oldRow assignments

/-- The type check of an assignment. No arm accepts a float, not even for a FLOAT column. -/
def assignable : Value → DataType → Bool
  | .null, _ => true
  | .int _, .int => true
  | .text _, .text => true
  | _, _ => false

/-- Apply the assignments of `UPDATE` in order. -/
def applyAssignments (schema : Schema) : List Assignment → Row → Except Failure Row
  | [], row => .ok row
  | assignment :: assignments, row =>
      match schema.colIndex assignment.column with
      | none => .error (.sql (.columnNotFound assignment.column))
      | some index =>
          match schema.columns[index]? with
          | none => .error (.panic .outOfBounds)
          | some column =>
              if assignable assignment.value column.ty then
                applyAssignments schema assignments (row.set index assignment.value)
              else .error (.sql (.assignTypeMismatch assignment.value assignment.column))

/-- What `UPDATE` makes of a row that it matches: the new row and its bytes. -/
def rewriteRow (schema : Schema) (manager : IndexManager) (table : String)
    (assignments : List Assignment) (oldRow : Row) : Except Failure (Row × Bytes) := do
  checkUpdateKey schema manager table oldRow assignments
  let row ← applyAssignments schema assignments oldRow
  let bytes ← schema.serializeRow row
  return (row, bytes)

/-- The keys of a row by column, as index maintenance sees them. -/
def indexCells (schema : Schema) (old new : Option Row) :
    List (String × Option Int64 × Option Int64) :=
  schema.columns.zipIdx.map fun (column, index) =>
    (column.name, (old.bind fun row => row[index]?).bind Value.intKey,
      (new.bind fun row => row[index]?).bind Value.intKey)

/-- `rhs + 1` and `rhs - 1`: checked or wrapping. -/
def successor [Build] (key : Int64) : Except Failure Int64 :=
  if Build.overflowChecks ∧ key = Int64.maxValue then .error (.panic .overflow) else .ok (key + 1)

def predecessor [Build] (key : Int64) : Except Failure Int64 :=
  if Build.overflowChecks ∧ key = Int64.minValue then .error (.panic .overflow) else .ok (key - 1)

/-- The record ids that answer a comparison through an index; `none` to scan instead. -/
def indexRids [Build] (manager : IndexManager) (table : String) (expr : Expr) :
    Except Failure (Option (List Rid)) :=
  if manager.hasIndex table expr.left then
    match expr.right with
    | .int rhs =>
        match expr.op with
        | .eq => return some (manager.search table expr.left rhs).toList
        | .gt => return some (manager.rangeScan table expr.left (← successor rhs) Int64.maxValue)
        | .ge => return some (manager.rangeScan table expr.left rhs Int64.maxValue)
        | .lt => return some (manager.rangeScan table expr.left Int64.minValue (← predecessor rhs))
        | .le => return some (manager.rangeScan table expr.left Int64.minValue rhs)
        | _ => return none
    | _ => return none
  else return none

section Avoids

variable {α β : Type} {schema : Schema}

/-- A failure that has to do with the place of a row: its slot is too small, or its page is not
to be had. -/
def IsOfPlace : Failure → Prop
  | .sql .updateLarger => True
  | .sql (.fetchPage _ _) => True
  | _ => False

/-- Computations on one row have no notion of the place that the row is in. -/
def Avoids (result : Except Failure α) : Prop :=
  ∀ failure, result = .error failure → ¬IsOfPlace failure

theorem Avoids.ne {result : Except Failure α} {failure : Failure} (avoids : Avoids result)
    (failed : result = .error failure) : failure ≠ .sql .updateLarger := by
  rintro rfl
  exact avoids _ failed trivial

theorem Avoids.bind {result : Except Failure α} {next : α → Except Failure β}
    (first : Avoids result) (second : ∀ value, Avoids (next value)) : Avoids (result >>= next) := by
  rcases result with failure | value
  · intro other same
    exact first other (congrArg Except.error (Except.error.inj same))
  · exact second value

theorem avoids_ok (value : α) : Avoids (.ok value : Except Failure α) := by rintro _ ⟨⟩

theorem avoids_cell (row : Row) (index : ℕ) : Avoids (row.cell index) := by
  rw [Row.cell]
  split <;> rintro _ ⟨⟩ ⟨⟩

theorem avoids_takeSlice (buffer : Bytes) (length : ℕ) :
    Avoids (Schema.takeSlice buffer length) := by
  rw [Schema.takeSlice]
  split_ifs <;> rintro _ ⟨⟩ ⟨⟩

theorem avoids_deserializeField (column : ColumnDef) (tag : UInt8) (buffer : Bytes) :
    Avoids (Schema.deserializeField column tag buffer) := by
  unfold Schema.deserializeField
  split_ifs
  · rintro _ ⟨⟩ ⟨⟩
  · exact (avoids_takeSlice buffer 8).bind fun _ => avoids_ok _
  · exact (avoids_takeSlice buffer 8).bind fun _ => avoids_ok _
  · refine (avoids_takeSlice buffer 4).bind fun first => ?_
    refine (avoids_takeSlice first.2 _).bind fun second => ?_
    dsimp only
    split <;> rintro _ ⟨⟩ ⟨⟩
  · rintro _ ⟨⟩ ⟨⟩

theorem avoids_deserializeRow (schema : Schema) (tuple : Bytes) :
    Avoids (schema.deserializeRow tuple) := by
  rw [Schema.deserializeRow]
  generalize schema.columns = columns
  induction columns generalizing tuple with
  | nil => exact avoids_ok _
  | cons column columns ih =>
      cases tuple with
      | nil => rintro _ ⟨⟩ ⟨⟩
      | cons tag buffer =>
          refine (avoids_deserializeField column tag buffer).bind fun field => ?_
          exact (ih field.2).bind fun _ => avoids_ok _

theorem avoids_evalFilter (schema : Schema) (row : Row) (expr : Expr) :
    Avoids (evalFilter schema row expr) := by
  unfold evalFilter
  split
  · rintro _ ⟨⟩ ⟨⟩
  · refine (avoids_cell row _).bind fun cell => ?_
    split
    · rintro _ ⟨⟩ ⟨⟩
    · rintro _ ⟨⟩ ⟨⟩
    · split_ifs
      · rintro _ ⟨⟩ ⟨⟩
      · split
        · rintro _ ⟨⟩ ⟨⟩
        · split <;> rintro _ ⟨⟩ ⟨⟩

theorem avoids_project (schema : Schema) (row : Row) (columns : SelectColumns) :
    Avoids (project schema row columns) := by
  cases columns with
  | star => exact avoids_ok _
  | named names =>
      rw [project]
      induction names with
      | nil => exact avoids_ok _
      | cons name names ih =>
          rw [List.mapM_cons]
          refine Avoids.bind ?_ fun _ => ih.bind fun _ => avoids_ok _
          rw [projectColumn]
          split
          · rintro _ ⟨⟩ ⟨⟩
          · exact avoids_cell row _

theorem avoids_selectRow (schema : Schema) (columns : SelectColumns) (filter : Option Expr)
    (tuple : Bytes) : Avoids (selectRow schema columns filter tuple) := by
  refine (avoids_deserializeRow schema tuple).bind fun row => ?_
  refine Avoids.bind ?_ fun selected => ?_
  · cases filter with
    | none => exact avoids_ok _
    | some expr => exact avoids_evalFilter schema row expr
  · split_ifs
    · exact (avoids_project schema row columns).bind fun _ => avoids_ok _
    · exact avoids_ok _

theorem avoids_checkUpdateKey (schema : Schema) (manager : IndexManager) (table : String)
    (oldRow : Row) (assignments : List Assignment) :
    Avoids (checkUpdateKey schema manager table oldRow assignments) := by
  induction assignments with
  | nil => exact avoids_ok _
  | cons assignment assignments ih =>
      unfold checkUpdateKey
      split
      · rintro _ ⟨⟩ ⟨⟩
      · split_ifs
        · split
          · rintro _ ⟨⟩ ⟨⟩
          · split
            · rintro _ ⟨⟩ ⟨⟩
            · refine (avoids_cell oldRow _).bind fun old => ?_
              split_ifs
              · rintro _ ⟨⟩ ⟨⟩
              · exact ih
          · exact ih
        · exact ih

theorem avoids_applyAssignments (schema : Schema) (assignments : List Assignment) (row : Row) :
    Avoids (applyAssignments schema assignments row) := by
  induction assignments generalizing row with
  | nil => exact avoids_ok _
  | cons assignment assignments ih =>
      unfold applyAssignments
      split
      · rintro _ ⟨⟩ ⟨⟩
      · split
        · rintro _ ⟨⟩ ⟨⟩
        · split_ifs
          · exact ih _
          · rintro _ ⟨⟩ ⟨⟩

theorem avoids_serializeFields (columns : List ColumnDef) (values : List Value) :
    Avoids (Schema.serializeFields columns values) := by
  induction columns generalizing values with
  | nil => exact avoids_ok _
  | cons column columns ih =>
      cases values with
      | nil => exact avoids_ok _
      | cons value values =>
          refine Avoids.bind ?_ fun _ => (ih values).bind fun _ => avoids_ok _
          unfold Schema.serializeField
          split
          · rintro _ ⟨⟩ ⟨⟩
          all_goals split_ifs <;> rintro _ ⟨⟩ ⟨⟩

theorem avoids_rewriteRow (schema : Schema) (manager : IndexManager) (table : String)
    (assignments : List Assignment) (oldRow : Row) :
    Avoids (rewriteRow schema manager table assignments oldRow) := by
  refine (avoids_checkUpdateKey schema manager table oldRow assignments).bind fun _ => ?_
  refine (avoids_applyAssignments schema assignments oldRow).bind fun row => ?_
  refine Avoids.bind ?_ fun _ => avoids_ok _
  rw [Schema.serializeRow]
  split_ifs
  · rintro _ ⟨⟩ ⟨⟩
  · exact avoids_serializeFields _ _

end Avoids

end Executor

end VenomDb
