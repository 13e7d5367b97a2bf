import VenomDb.Engine.KeyColumn

/-!
# Which rows have a stored form

`UPDATE` overwrites the front of a slot and leaves what stood behind it, so a row is read
from its bytes and an arbitrary tail. Writing a row is refused for its arity or for a value
in a column of another type, and for nothing else.
-/

namespace VenomDb

namespace Schema

variable {schema : Schema} {columns : List ColumnDef} {values : List Value}

/-- Some column gets a value of another type. -/
def Mismatched (columns : List ColumnDef) (values : List Value) : Prop :=
  ∃ pair ∈ columns.zip values, ¬ Suits pair.2 pair.1.ty

theorem mismatched_cons {column : ColumnDef} {value : Value} :
    Mismatched (column :: columns) (value :: values) ↔
      ¬ Suits value column.ty ∨ Mismatched columns values := by
  simp [Mismatched]

/-- A field is written, or its value has the wrong type and the message says so. -/
theorem serializeField_cases (column : ColumnDef) (value : Value) :
    (Suits value column.ty ∧ ∃ field, serializeField column value = .ok field) ∨
      (¬ Suits value column.ty ∧
        serializeField column value =
          .error (.sql (.columnTypeMismatch column.name column.ty value))) := by
  cases value with
  | null => exact .inl ⟨trivial, _, rfl⟩
  | int n =>
      by_cases ty : column.ty = .int
      · exact .inl ⟨ty, _, by rw [serializeField, if_pos ty]⟩
      · exact .inr ⟨ty, by rw [serializeField, if_neg ty]⟩
  | float bits =>
      by_cases ty : column.ty = .float
      · exact .inl ⟨ty, _, by rw [serializeField, if_pos ty]⟩
      · exact .inr ⟨ty, by rw [serializeField, if_neg ty]⟩
  | text s =>
      by_cases ty : column.ty = .text
      · exact .inl ⟨ty, _, by rw [serializeField, if_pos ty]⟩
      · exact .inr ⟨ty, by rw [serializeField, if_neg ty]⟩

/-- The loop over the columns stops at the first value of another type. -/
theorem serializeFields_cases (columns : List ColumnDef) (values : List Value) :
    (¬ Mismatched columns values ∧ ∃ bytes, serializeFields columns values = .ok bytes) ∨
      (Mismatched columns values ∧ ∃ error, serializeFields columns values =
        .error (.sql error)) := by
  induction columns generalizing values with
  | nil => exact .inl ⟨by simp [Mismatched], [], by simp [serializeFields]⟩
  | cons column columns ih =>
      cases values with
      | nil => exact .inl ⟨by simp [Mismatched], [], by simp [serializeFields]⟩
      | cons value values =>
          rw [mismatched_cons]
          rcases serializeField_cases column value with ⟨suits, field, written⟩ | ⟨misfit, refused⟩
          · rcases ih values with ⟨fine, bytes, rest⟩ | ⟨wrong, error, rest⟩
            · refine .inl ⟨by simp [suits, fine], field ++ bytes, ?_⟩
              simp [serializeFields, written, rest, bind, Except.bind, pure, Except.pure]
            · refine .inr ⟨.inr wrong, error, ?_⟩
              simp [serializeFields, written, rest, bind, Except.bind]
          · refine .inr ⟨.inl misfit, .columnTypeMismatch column.name column.ty value, ?_⟩
            simp [serializeFields, refused, bind, Except.bind]

/-- A row is written, or refused with a message for its arity or for a value's type. -/
theorem serializeRow_cases (schema : Schema) (values : List Value) :
    ((values.length = schema.columns.length ∧ ¬ Mismatched schema.columns values) ∧
        ∃ bytes, schema.serializeRow values = .ok bytes) ∨
      ((values.length ≠ schema.columns.length ∨ Mismatched schema.columns values) ∧
        ∃ error, schema.serializeRow values = .error (.sql error)) := by
  by_cases arity : values.length = schema.columns.length
  · have loop : schema.serializeRow values = serializeFields schema.columns values := by
      simp [serializeRow, arity]
    rw [loop]
    rcases serializeFields_cases schema.columns values with ⟨fine, written⟩ | ⟨wrong, refused⟩
    · exact .inl ⟨⟨arity, fine⟩, written⟩
    · exact .inr ⟨.inr wrong, refused⟩
  · exact .inr ⟨.inl arity, _, by rw [serializeRow, if_pos arity]⟩

/-- A stored row reads back from a slot with anything after it, and a row has no stored form
exactly when its arity or the type of one of its values is wrong. -/
theorem serializeRow_selfDelimiting (schema : Schema) (values : List Value) :
    (∀ bytes, schema.serializeRow values = .ok bytes → ShortTexts values →
        ∀ stale, schema.deserializeRow (bytes ++ stale) = .ok values) ∧
      ((∃ failure, schema.serializeRow values = .error failure) ↔
        values.length ≠ schema.columns.length ∨ Mismatched schema.columns values) ∧
      ∀ failure, schema.serializeRow values = .error failure → ∃ error, failure = .sql error := by
  refine ⟨?_, ?_⟩
  · intro bytes encoded short stale
    rcases serializeRow_eq_ok encoded with ⟨arity, fieldsEncoded⟩
    exact deserializeFields_of_serializeFields arity fieldsEncoded short stale
  · rcases serializeRow_cases schema values with
      ⟨⟨arity, fine⟩, bytes, written⟩ | ⟨wrong, error, refused⟩
    · simp [written, arity, fine]
    · simp [refused, wrong]

namespace Sample

/-- A row with a number, a text that got shorter and a missing value. -/
def mixed : Schema :=
  .new "t" [⟨"id", .int, true⟩, ⟨"note", .text, false⟩, ⟨"score", .float, false⟩]

end Sample

theorem serializeRow_selfDelimiting_mixed :
    Sample.mixed.deserializeRow
      ([0, 7, 0, 0, 0, 0, 0, 0, 0, 1, 2, 0, 0, 0, 104, 105, 2] ++ [116, 104, 101, 114, 101]) =
        .ok [.int 7, .text "hi", .null] := by
  have short : ShortTexts [.int 7, .text "hi", .null] := by
    intro text member
    obtain rfl : text = "hi" := by simpa using member
    decide
  exact (serializeRow_selfDelimiting Sample.mixed [.int 7, .text "hi", .null]).1 _ (by decide)
    short _

end Schema

end VenomDb
