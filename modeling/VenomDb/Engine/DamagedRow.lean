import VenomDb.Engine.RowFormat

/-!
# Reading a damaged row

`deserialize_row` compares the offset of a tag with the length of its input and no other offset,
so it panics on bytes that end inside a field. Bytes that end between two fields are refused, and
bytes that decode are a stored row with anything after it.
-/

namespace VenomDb

namespace Schema

/-- How many bytes a field takes after its tag; a text says so itself. -/
def payloadLength (column : ColumnDef) (tag : UInt8) (buffer : Bytes) : ℕ :=
  if tag = 0 ∧ column.ty = .int ∨ tag = 3 ∧ column.ty = .float then 8
  else if tag = 1 ∧ column.ty = .text then 4 + Bytes.ofLe (buffer.take 4)
  else 0

/-- The input is a stored row of the first columns, followed by the tag of the next field and fewer
bytes than that field takes. -/
def EndsInField (columns : List ColumnDef) (input : Bytes) : Prop :=
  ∃ front column back values stored tag rest, columns = front ++ column :: back ∧
    values.length = front.length ∧ ShortTexts values ∧ serializeFields front values = .ok stored ∧
    input = stored ++ tag :: rest ∧ rest.length < payloadLength column tag rest

/-- Decoding returns `Ok` or `Err`, and what it returns is a row of the schema that the input is
the stored form of, with anything after it. -/
structure DecodesSafely (schema : Schema) (input : Bytes) : Prop where
  returns : ∀ panic, schema.deserializeRow input ≠ .error (.panic panic)
  faithful : ∀ values, schema.deserializeRow input = .ok values →
    values.length = schema.columns.length ∧
    (∀ pair ∈ schema.columns.zip values, Suits pair.2 pair.1.ty) ∧
    ∃ stored, schema.serializeRow values = .ok stored ∧ stored <+: input

section Fields

variable {column : ColumnDef} {columns : List ColumnDef} {tag : UInt8} {buffer : Bytes}

theorem takeSlice_short {length : ℕ} (short : buffer.length < length) :
    takeSlice buffer length = .error (.panic .outOfBounds) := by
  rw [takeSlice, if_neg (by omega)]

theorem takeSlice_long {length : ℕ} (enough : length ≤ buffer.length) :
    takeSlice buffer length = .ok (buffer.take length, buffer.drop length) := by
  rw [takeSlice, if_pos enough]

/-- The bytes of a number are those it is written with. -/
theorem toLe_ofLe_take {length : ℕ} (enough : length ≤ buffer.length) :
    Bytes.toLe length (Bytes.ofLe (buffer.take length)) = buffer.take length := by
  have exact := Bytes.toLe_ofLe (buffer.take length)
  rwa [List.length_take_of_le enough] at exact

theorem ofLe_take_lt (buffer : Bytes) (length : ℕ) :
    Bytes.ofLe (buffer.take length) < 256 ^ length := by
  refine (Bytes.ofLe_lt _).trans_le (Nat.pow_le_pow_right (by decide) ?_)
  exact List.length_take_le length buffer

theorem toUTF8_of_fromUTF8 {bytes : Bytes} {s : String}
    (decoded : String.fromUTF8? ⟨bytes.toArray⟩ = some s) : s.toUTF8.data.toList = bytes := by
  rw [String.fromUTF8?] at decoded
  split_ifs at decoded with valid
  rw [← Option.some.inj decoded]
  rfl

/-- A number takes eight bytes. -/
theorem takeSlice_eight (buffer : Bytes) (make : Bytes → Value) :
    (buffer.length < 8 ∧ (do
        let (bytes, rest) ← takeSlice buffer 8
        return (make bytes, rest) : Except Failure (Value × Bytes)) =
          .error (.panic .outOfBounds)) ∨
    (8 ≤ buffer.length ∧ (do
        let (bytes, rest) ← takeSlice buffer 8
        return (make bytes, rest) : Except Failure (Value × Bytes)) =
          .ok (make (buffer.take 8), buffer.drop 8)) := by
  rcases Nat.lt_or_ge buffer.length 8 with short | enough
  · exact .inl ⟨short, by simp [takeSlice_short short, bind, Except.bind]⟩
  · exact .inr ⟨enough, by simp [takeSlice_long enough, bind, Except.bind, pure, Except.pure]⟩

theorem shortTexts_of_not_text {value : Value} (notText : ∀ text, value ≠ .text text) :
    ShortTexts [value] := by
  intro text isText
  exact absurd (List.mem_singleton.mp isText).symm (notText text)

/-- What decoding a field does is decided by the number of bytes left. -/
theorem deserializeField_cases (column : ColumnDef) (tag : UInt8) (buffer : Bytes) :
    (buffer.length < payloadLength column tag buffer ∧
      deserializeField column tag buffer = .error (.panic .outOfBounds)) ∨
    (payloadLength column tag buffer ≤ buffer.length ∧
      ((∃ error, deserializeField column tag buffer = .error (.sql error)) ∨
        ∃ value, deserializeField column tag buffer =
            .ok (value, buffer.drop (payloadLength column tag buffer)) ∧
          serializeField column value =
            .ok (tag :: buffer.take (payloadLength column tag buffer)) ∧
          ShortTexts [value])) := by
  by_cases isNull : tag = 2
  · subst isNull
    have length : payloadLength column 2 buffer = 0 := by simp [payloadLength]
    rw [length]
    refine .inr ⟨Nat.zero_le _, .inr ⟨.null, by simp [deserializeField], rfl, ?_⟩⟩
    exact shortTexts_of_not_text (by simp)
  by_cases isInt : tag = 0 ∧ column.ty = .int
  · rcases isInt with ⟨rfl, ty⟩
    have length : payloadLength column 0 buffer = 8 := by simp [payloadLength, ty]
    have reads : deserializeField column 0 buffer = (do
        let (bytes, rest) ← takeSlice buffer 8
        return (.int (Int64.ofBitVec (BitVec.ofNat 64 (Bytes.ofLe bytes))), rest)) := by
      simp [deserializeField, ty]
    rw [length, reads]
    rcases takeSlice_eight buffer fun bytes =>
      .int (Int64.ofBitVec (BitVec.ofNat 64 (Bytes.ofLe bytes))) with short | ⟨enough, run⟩
    · exact .inl short
    refine .inr ⟨enough, .inr ⟨_, run, ?_, ?_⟩⟩
    · have bound := ofLe_take_lt buffer 8
      rw [serializeField, if_pos ty, Int64.toBitVec_ofBitVec, BitVec.toNat_ofNat,
        Nat.mod_eq_of_lt (bound.trans_le (by decide)), toLe_ofLe_take enough]
    · exact shortTexts_of_not_text (by simp)
  by_cases isFloat : tag = 3 ∧ column.ty = .float
  · rcases isFloat with ⟨rfl, ty⟩
    have length : payloadLength column 3 buffer = 8 := by simp [payloadLength, ty]
    have reads : deserializeField column 3 buffer = (do
        let (bytes, rest) ← takeSlice buffer 8
        return (.float (UInt64.ofNat (Bytes.ofLe bytes)), rest)) := by
      simp [deserializeField, ty]
    rw [length, reads]
    rcases takeSlice_eight buffer fun bytes => .float (UInt64.ofNat (Bytes.ofLe bytes))
      with short | ⟨enough, run⟩
    · exact .inl short
    refine .inr ⟨enough, .inr ⟨_, run, ?_, ?_⟩⟩
    · have bound := ofLe_take_lt buffer 8
      rw [serializeField, if_pos ty, UInt64.toNat_ofNat_of_lt' (bound.trans_le (by decide)),
        toLe_ofLe_take enough]
    · exact shortTexts_of_not_text (by simp)
  by_cases isText : tag = 1 ∧ column.ty = .text
  · rcases isText with ⟨rfl, ty⟩
    have length : payloadLength column 1 buffer = 4 + Bytes.ofLe (buffer.take 4) := by
      simp [payloadLength, ty]
    have reads : deserializeField column 1 buffer = _ :=
      (if_neg isNull).trans ((if_neg isInt).trans ((if_neg isFloat).trans (if_pos ⟨rfl, ty⟩)))
    rw [length, reads]
    rcases Nat.lt_or_ge buffer.length 4 with short | prefixed
    · exact .inl ⟨by omega, by simp [takeSlice_short short, bind, Except.bind]⟩
    rw [takeSlice_long prefixed]
    rcases Nat.lt_or_ge (buffer.drop 4).length (Bytes.ofLe (buffer.take 4)) with short | enough
    · refine .inl ⟨?_, by simp [takeSlice_short short, bind, Except.bind]⟩
      rw [List.length_drop] at short
      omega
    have whole : 4 + Bytes.ofLe (buffer.take 4) ≤ buffer.length := by
      rw [List.length_drop] at enough
      omega
    refine .inr ⟨whole, ?_⟩
    simp only [bind, Except.bind, takeSlice_long enough]
    cases decoded : String.fromUTF8?
      ⟨((buffer.drop 4).take (Bytes.ofLe (buffer.take 4))).toArray⟩ with
    | none => exact .inl ⟨_, rfl⟩
    | some s =>
        have bytes := toUTF8_of_fromUTF8 decoded
        have size : s.toUTF8.data.toList.length = Bytes.ofLe (buffer.take 4) := by
          rw [bytes, List.length_take_of_le enough]
        refine .inr ⟨.text s, ?_, ?_, ?_⟩
        · simp [pure, Except.pure, List.drop_drop]
        · rw [serializeField, if_pos ty, size, toLe_ofLe_take prefixed, bytes, List.take_add,
            List.cons_append]
        · intro text isText
          obtain rfl : text = s := by simpa using isText
          rw [size]
          exact (ofLe_take_lt buffer 4).trans_le (by decide)
  · have length : payloadLength column tag buffer = 0 := by
      rw [payloadLength, if_neg (not_or.mpr ⟨isInt, isFloat⟩), if_neg isText]
    rw [length]
    refine .inr ⟨Nat.zero_le _, .inl ⟨.tagMismatch tag column.ty, ?_⟩⟩
    rw [deserializeField, if_neg isNull, if_neg isInt, if_neg isFloat, if_neg isText]

end Fields

section Rows

variable {column : ColumnDef} {columns : List ColumnDef} {input : Bytes}

/-- Decoding panics on a field that is cut off. -/
theorem EndsInField.panics (ends : EndsInField columns input) :
    deserializeFields columns input = .error (.panic .outOfBounds) := by
  rcases ends with ⟨front, column, back, values, stored, tag, rest, rfl, arity, short, written, rfl,
    cut⟩
  induction front generalizing values stored with
  | nil =>
      obtain rfl : values = [] := by simpa using arity
      obtain rfl : stored = [] := by simpa [serializeFields] using written.symm
      rcases deserializeField_cases column tag rest with ⟨-, panics⟩ | ⟨whole, -⟩
      · simp [deserializeFields, panics, bind, Except.bind]
      · omega
  | cons first front ih =>
      cases values with
      | nil => simp at arity
      | cons value values =>
          rcases serializeFields_cons_eq_ok written with
            ⟨field, others, fieldWritten, othersWritten, rfl⟩
          rcases deserializeField_of_serializeField fieldWritten short.head with
            ⟨firstTag, payload, rfl, fieldRead⟩
          have later := ih values others (by simpa using arity) short.tail othersWritten
          rw [List.append_assoc, List.cons_append, List.cons_append, deserializeFields, fieldRead]
          simp [later, bind, Except.bind]

/-- A field before those that are cut off. -/
theorem EndsInField.cons {value : Value} {field : Bytes}
    (written : serializeField column value = .ok field) (short : ShortTexts [value])
    (ends : EndsInField columns input) : EndsInField (column :: columns) (field ++ input) := by
  rcases ends with ⟨front, last, back, values, stored, tag, rest, rfl, arity, shorts, others, rfl,
    cut⟩
  refine ⟨column :: front, last, back, value :: values, field ++ stored, tag, rest, rfl,
    by simp [arity], ?_, ?_, by simp, cut⟩
  · intro text isText
    rcases List.mem_cons.mp isText with rfl | later
    · exact short text (List.mem_singleton_self _)
    · exact shorts text later
  · simp [serializeFields, written, others, bind, Except.bind, pure, Except.pure]

/-- What decoding does with any bytes. -/
theorem deserializeFields_cases (columns : List ColumnDef) (input : Bytes) :
    EndsInField columns input ∨
    (∃ error, deserializeFields columns input = .error (.sql error)) ∨
    ∃ values stored, deserializeFields columns input = .ok values ∧
      values.length = columns.length ∧ serializeFields columns values = .ok stored ∧
      stored <+: input := by
  induction columns generalizing input with
  | nil => exact .inr (.inr ⟨[], [], rfl, rfl, rfl, List.nil_prefix⟩)
  | cons column columns ih =>
      cases input with
      | nil => exact .inr (.inl ⟨_, rfl⟩)
      | cons tag buffer =>
          rcases deserializeField_cases column tag buffer with
            ⟨cut, -⟩ | ⟨whole, ⟨error, refused⟩ | ⟨value, read, written, short⟩⟩
          · exact .inl ⟨[], column, columns, [], [], tag, buffer, rfl, rfl, by simp [ShortTexts],
              rfl, rfl, cut⟩
          · exact .inr (.inl ⟨error, by simp [deserializeFields, refused, bind, Except.bind]⟩)
          · generalize size : payloadLength column tag buffer = length at whole read written
            have split : tag :: buffer = (tag :: buffer.take length) ++ buffer.drop length := by
              simp
            rcases ih (buffer.drop length) with
              ends | ⟨error, refused⟩ | ⟨values, stored, others, arity, othersWritten, isPrefix⟩
            · exact .inl (split ▸ ends.cons written short)
            · refine .inr (.inl ⟨error, ?_⟩)
              simp [deserializeFields, read, refused, bind, Except.bind]
            · refine .inr (.inr ⟨value :: values, (tag :: buffer.take length) ++ stored, ?_,
                by simp [arity], ?_, ?_⟩)
              · simp [deserializeFields, read, others, bind, Except.bind, pure, Except.pure]
              · simp [serializeFields, written, othersWritten, bind, Except.bind, pure, Except.pure]
              · rw [split]
                exact (List.prefix_append_right_inj _).mpr isPrefix

end Rows

/-- Decoding is safe on every input but one that ends inside a field. -/
theorem decodesSafely_iff (schema : Schema) (input : Bytes) :
    schema.DecodesSafely input ↔ ¬ EndsInField schema.columns input := by
  constructor
  · intro safely ends
    exact safely.returns .outOfBounds ends.panics
  · intro whole
    rcases (deserializeFields_cases schema.columns input).resolve_left whole with
      ⟨error, refused⟩ | ⟨values, stored, decoded, arity, written, isPrefix⟩
    · exact ⟨by simp [deserializeRow, refused], by simp [deserializeRow, refused]⟩
    · refine ⟨by simp [deserializeRow, decoded], fun other same => ?_⟩
      rw [deserializeRow, decoded] at same
      obtain rfl := Except.ok.inj same
      refine ⟨arity, ?_, stored, by simp [serializeRow, arity, written], isPrefix⟩
      rcases serializeFields_cases schema.columns values with ⟨fine, -⟩ | ⟨-, error, refused⟩
      · simpa [Mismatched] using fine
      · simp [written] at refused

namespace Sample

/-- A table with one number. -/
def single : Schema := .new "t" [⟨"id", .int, false⟩]

end Sample

/-- The tag of a number and one of its eight bytes. -/
theorem not_decodesSafely_single : ¬ Sample.single.DecodesSafely [0, 7] :=
  fun safely => safely.returns .outOfBounds (by decide)

end Schema

end VenomDb
