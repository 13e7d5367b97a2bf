import VenomDb.Engine.Evaluate

/-!
# The primary key column

Columns are looked up by name, so a primary key means one column only if no other column
shares its name. What `INSERT` and `UPDATE` check of the key, and what assignments make
of it.
-/

namespace VenomDb

namespace Schema

/-- The primary key column and its position; no other column has its name. -/
structure KeyColumn (schema : Schema) (index : ℕ) (column : ColumnDef) : Prop where
  here : schema.columns[index]? = some column
  primary : schema.primaryKey = some column.name
  once : ∀ {other column'}, schema.columns[other]? = some column' → column'.name = column.name →
    other = index

variable {schema : Schema} {index : ℕ} {column : ColumnDef}

theorem KeyColumn.colIndex (keyColumn : schema.KeyColumn index column) :
    schema.colIndex column.name = some index := by
  rw [Schema.colIndex, List.findIdx?_eq_some_iff_getElem]
  rcases List.getElem?_eq_some_iff.mp keyColumn.here with ⟨bound, isColumn⟩
  refine ⟨bound, by simp [isColumn], ?_⟩
  intro other early same
  have found : schema.columns[other]? = some schema.columns[other] := List.getElem?_eq_getElem _
  exact absurd (keyColumn.once found (by simpa using same)) (by omega)

theorem KeyColumn.pkColIndex (keyColumn : schema.KeyColumn index column) :
    schema.pkColIndex = some index := by
  rw [Schema.pkColIndex, keyColumn.primary, Option.bind_some, keyColumn.colIndex]

/-- A column that another column index stands for has another name. -/
theorem KeyColumn.colIndex_eq (keyColumn : schema.KeyColumn index column) {name : String}
    (found : schema.colIndex name = some index) : name = column.name := by
  rw [Schema.colIndex, List.findIdx?_eq_some_iff_getElem] at found
  rcases found with ⟨bound, named, -⟩
  rcases List.getElem?_eq_some_iff.mp keyColumn.here with ⟨_, isColumn⟩
  rw [isColumn] at named
  exact (beq_iff_eq.mp named).symm

/-- The values that a column of a type can hold. -/
def Suits : Value → DataType → Prop
  | .null, _ => True
  | .int _, ty => ty = .int
  | .float _, ty => ty = .float
  | .text _, ty => ty = .text

theorem suits_of_serializeField {value : Value} {bytes : Bytes}
    (encoded : serializeField column value = .ok bytes) : Suits value column.ty := by
  cases value <;> rw [serializeField] at encoded
  · split_ifs at encoded with ty
    exact ty
  · split_ifs at encoded with ty
    exact ty
  · split_ifs at encoded with ty
    exact ty
  · trivial

theorem suits_of_serializeFields {columns : List ColumnDef} {values : List Value} {bytes : Bytes}
    (arity : values.length = columns.length) (encoded : serializeFields columns values = .ok bytes)
    (here : columns[index]? = some column) :
    ∃ value, values[index]? = some value ∧ Suits value column.ty := by
  induction columns generalizing values bytes index with
  | nil => simp at here
  | cons first columns ih =>
      cases values with
      | nil => simp at arity
      | cons value values =>
          rcases serializeFields_cons_eq_ok encoded with
            ⟨field, rest, fieldEncoded, restEncoded, -⟩
          cases index with
          | zero =>
              obtain rfl : first = column := by simpa using here
              exact ⟨value, rfl, suits_of_serializeField fieldEncoded⟩
          | succ index =>
              rw [List.getElem?_cons_succ] at here ⊢
              exact ih (by simpa using arity) restEncoded here

/-- A row that can be stored has a value of the right type in every column. -/
theorem suits_of_serializeRow {row : Row} {bytes : Bytes}
    (encoded : schema.serializeRow row = .ok bytes) (here : schema.columns[index]? = some column) :
    ∃ value, row[index]? = some value ∧ Suits value column.ty := by
  rw [serializeRow] at encoded
  split_ifs at encoded with arity
  exact suits_of_serializeFields (by simpa using arity) encoded here

end Schema

namespace Executor

variable {schema : Schema} {index : ℕ} {column : ColumnDef} {manager : IndexManager}
    {table : String}

/-- The checks that a key value passed. -/
def Admissible (manager : IndexManager) (table column : String) (value : Value) : Prop :=
  value ≠ .null ∧ ∀ key, value = .int key → (manager.search table column key).isSome = false

theorem admissible_of_checkInsertKey {values : List Value} {value : Value}
    (keyColumn : schema.KeyColumn index column) (here : values[index]? = some value)
    (checked : checkInsertKey schema manager table values = .ok ()) :
    Admissible manager table column.name value := by
  have cell : Row.cell values index = .ok value := by rw [Row.cell, here]
  simp only [checkInsertKey, keyColumn.primary, keyColumn.pkColIndex, cell, bind, Except.bind]
    at checked
  cases value with
  | null => simp at checked
  | int key =>
      refine ⟨by simp, ?_⟩
      intro key' same
      obtain rfl : key = key' := by simpa using same
      dsimp only at checked
      split_ifs at checked with taken
      simpa using taken
  | float bits => exact ⟨by simp, by simp⟩
  | text s => exact ⟨by simp, by simp⟩

/-- The value that the last assignment to a column gives it. -/
def assigned (name : String) : List Assignment → Option Value
  | [] => none
  | assignment :: assignments =>
      (assigned name assignments).or
        (if assignment.column = name then some assignment.value else none)

theorem checkUpdateKey_assigned {oldRow : Row} {assignments : List Assignment} {value : Value}
    (keyColumn : schema.KeyColumn index column)
    (checked : checkUpdateKey schema manager table oldRow assignments = .ok ())
    (given : assigned column.name assignments = some value) :
    value ≠ .null ∧ (oldRow[index]? = some value ∨ Admissible manager table column.name value) := by
  induction assignments with
  | nil => simp [assigned] at given
  | cons assignment assignments ih =>
      simp only [checkUpdateKey, keyColumn.primary, keyColumn.pkColIndex] at checked
      rw [assigned, Option.or_eq_some_iff] at given
      split_ifs at checked given with named
      · rcases assignment with ⟨name, given'⟩
        cases given' with
        | null => simp at checked
        | int newKey =>
            dsimp only [bind, Except.bind] at checked
            rcases cell : oldRow.cell index with failure | old
            · simp [cell] at checked
            · simp only [cell] at checked
              split_ifs at checked with taken
              rcases given with later | ⟨-, now⟩
              · exact ih checked later
              · obtain rfl : .int newKey = value := by simpa using now
                refine ⟨by simp, ?_⟩
                by_cases same : old = .int newKey
                · left
                  rw [Row.cell] at cell
                  cases found : oldRow[index]? with
                  | none => simp [found] at cell
                  | some value => simpa [found, same] using cell
                · right
                  refine ⟨by simp, ?_⟩
                  intro key isKey
                  obtain rfl : newKey = key := by simpa using isKey
                  simpa [same] using taken
        | float bits =>
            rcases given with later | ⟨-, now⟩
            · exact ih checked later
            · obtain rfl : .float bits = value := by simpa using now
              exact ⟨by simp, .inr ⟨by simp, by simp⟩⟩
        | text s =>
            rcases given with later | ⟨-, now⟩
            · exact ih checked later
            · obtain rfl : .text s = value := by simpa using now
              exact ⟨by simp, .inr ⟨by simp, by simp⟩⟩
      · rcases given with later | ⟨-, now⟩
        · exact ih checked later
        · simp at now

/-- What the assignments make of the key, and that its type allows it. -/
theorem applyAssignments_cell {oldRow row : Row} {assignments : List Assignment}
    (keyColumn : schema.KeyColumn index column)
    (applied : applyAssignments schema assignments oldRow = .ok row) :
    row[index]? = oldRow[index]?.map (fun old => (assigned column.name assignments).getD old) ∧
      ∀ value, assigned column.name assignments = some value → assignable value column.ty := by
  induction assignments generalizing oldRow with
  | nil =>
      obtain rfl : oldRow = row := by simpa [applyAssignments] using applied
      simp [assigned]
  | cons assignment assignments ih =>
      rw [applyAssignments] at applied
      cases found : schema.colIndex assignment.column with
      | none => simp [found] at applied
      | some position =>
          cases typed : schema.columns[position]? with
          | none => simp [found, typed] at applied
          | some target =>
              simp only [found, typed] at applied
              split_ifs at applied with fits
              rcases ih applied with ⟨cell, types⟩
              rw [cell, assigned]
              by_cases named : assignment.column = column.name
              · obtain rfl : position = index := by
                  simpa [named, keyColumn.colIndex] using found.symm
                obtain rfl : target = column := by
                  simpa using typed.symm.trans keyColumn.here
                rw [if_pos named]
                refine ⟨?_, ?_⟩
                · rw [List.getElem?_set_self']
                  cases oldRow[position]? <;>
                    cases assigned target.name assignments <;> rfl
                · intro value given
                  rcases Option.or_eq_some_iff.mp given with later | ⟨-, now⟩
                  · exact types value later
                  · obtain rfl : assignment.value = value := by simpa using now
                    exact fits
              · have apart : position ≠ index := by
                  rintro rfl
                  exact named (keyColumn.colIndex_eq found)
                rw [if_neg named, Option.or_none, List.getElem?_set_ne apart]
                exact ⟨rfl, types⟩

end Executor

end VenomDb
