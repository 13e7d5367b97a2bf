import VenomDb.Failure
import VenomDb.Lib.Bytes
import Mathlib.Data.List.AList

/-!
# Schemas and the row format

A row is stored field by field: a tag byte, then eight bytes for a number or a
length-prefixed text. Decoding follows the schema and stops after its last column,
so bytes after the last field are never looked at; that is what lets a shorter row
overwrite the front of a longer one.
-/

namespace VenomDb

structure Schema where
  name : String
  columns : List ColumnDef
  /-- Name of the primary key column, if any. -/
  primaryKey : Option String
  deriving DecidableEq

namespace Schema

/-- `Schema::new`: the first column flagged `PRIMARY KEY` names the key. -/
def new (name : String) (columns : List ColumnDef) : Schema where
  name := name
  columns := columns
  primaryKey := (columns.find? fun column => column.primaryKey).map fun column => column.name

/-- Column index by name: the first column of that name. -/
def colIndex (schema : Schema) (name : String) : Option ℕ :=
  schema.columns.findIdx? fun column => column.name == name

/-- Primary key column index, if any. -/
def pkColIndex (schema : Schema) : Option ℕ :=
  schema.primaryKey.bind schema.colIndex

/-- One field of a row: tag byte and payload. -/
def serializeField (column : ColumnDef) : Value → Except Failure Bytes
  | .null => .ok [2]
  | .int n =>
      if column.ty = .int then .ok (0 :: Bytes.toLe 8 n.toBitVec.toNat)
      else .error (.sql (.columnTypeMismatch column.name column.ty (.int n)))
  | .float bits =>
      if column.ty = .float then .ok (3 :: Bytes.toLe 8 bits.toNat)
      else .error (.sql (.columnTypeMismatch column.name column.ty (.float bits)))
  | .text s =>
      if column.ty = .text then
        .ok (1 :: Bytes.toLe 4 s.toUTF8.data.toList.length ++ s.toUTF8.data.toList)
      else .error (.sql (.columnTypeMismatch column.name column.ty (.text s)))

/-- The loop of `serialize_row` over columns and values. -/
def serializeFields : List ColumnDef → List Value → Except Failure Bytes
  | column :: columns, value :: values => do
      let field ← serializeField column value
      let rest ← serializeFields columns values
      return field ++ rest
  | _, _ => .ok []

/-- Serialize a row of values into bytes for storage. -/
def serializeRow (schema : Schema) (values : List Value) : Except Failure Bytes :=
  if values.length ≠ schema.columns.length then
    .error (.sql (.arity schema.columns.length values.length))
  else serializeFields schema.columns values

/-- `&buf[off..off + n]` of the unread bytes, and what is left after it. -/
def takeSlice (buffer : Bytes) (length : ℕ) : Except Failure (Bytes × Bytes) :=
  if length ≤ buffer.length then .ok (buffer.take length, buffer.drop length)
  else .error (.panic .outOfBounds)

/-- One column of `deserialize_row`: `tag` is `buf[off]`, `buffer` the bytes after it. Gives the
value and the bytes left. -/
def deserializeField (column : ColumnDef) (tag : UInt8) (buffer : Bytes) :
    Except Failure (Value × Bytes) :=
  if tag = 2 then .ok (.null, buffer)
  else if tag = 0 ∧ column.ty = .int then do
    let (bytes, rest) ← takeSlice buffer 8
    return (.int (Int64.ofBitVec (BitVec.ofNat 64 (Bytes.ofLe bytes))), rest)
  else if tag = 3 ∧ column.ty = .float then do
    let (bytes, rest) ← takeSlice buffer 8
    return (.float (UInt64.ofNat (Bytes.ofLe bytes)), rest)
  else if tag = 1 ∧ column.ty = .text then do
    let (bytes, rest) ← takeSlice buffer 4
    let (text, rest) ← takeSlice rest (Bytes.ofLe bytes)
    match String.fromUTF8? ⟨text.toArray⟩ with
    | some s => return (.text s, rest)
    | none => .error (.sql .utf8)
  else .error (.sql (.tagMismatch tag column.ty))

/-- The loop of `deserialize_row`; `buffer` holds the bytes from `off` on. -/
def deserializeFields : List ColumnDef → Bytes → Except Failure (List Value)
  | [], _ => .ok []
  | _ :: _, [] => .error (.sql .unexpectedEnd)
  | column :: columns, tag :: buffer => do
      let (value, rest) ← deserializeField column tag buffer
      let values ← deserializeFields columns rest
      return value :: values

/-- Deserialize bytes back into a row of values. -/
def deserializeRow (schema : Schema) (buffer : Bytes) : Except Failure (List Value) :=
  deserializeFields schema.columns buffer

end Schema

/-- The catalog holds all table schemas. -/
structure Catalog where
  tables : AList (fun _ : String => Schema)
  indexDefs : List (String × String)

namespace Catalog

def new : Catalog where
  tables := ∅
  indexDefs := []

def get (catalog : Catalog) (name : String) : Option Schema :=
  catalog.tables.lookup name

def createTable (catalog : Catalog) (schema : Schema) : Except Failure Catalog :=
  if schema.name ∈ catalog.tables then .error (.sql (.tableExists schema.name))
  else .ok { catalog with tables := catalog.tables.insert schema.name schema }

end Catalog

namespace Schema

theorem serializeFields_cons_eq_ok {column : ColumnDef} {columns : List ColumnDef}
    {value : Value} {values : List Value} {bytes : Bytes}
    (encoded : serializeFields (column :: columns) (value :: values) = .ok bytes) :
    ∃ field rest, serializeField column value = .ok field ∧
      serializeFields columns values = .ok rest ∧ bytes = field ++ rest := by
  rw [serializeFields] at encoded
  cases fieldResult : serializeField column value with
  | error failure => simp [fieldResult, bind, Except.bind] at encoded
  | ok field =>
      cases restResult : serializeFields columns values with
      | error failure => simp [fieldResult, restResult, bind, Except.bind] at encoded
      | ok rest =>
          refine ⟨field, rest, rfl, rfl, ?_⟩
          simpa [fieldResult, restResult, bind, Except.bind, pure, Except.pure] using encoded.symm

/-- Decoding the bytes of a text gives the text back. -/
theorem fromUTF8_toUTF8 (s : String) :
    String.fromUTF8? ⟨s.toUTF8.data.toList.toArray⟩ = some s := by
  have bytes : (⟨s.toUTF8.data.toList.toArray⟩ : ByteArray) = s.toByteArray := by
    simp [String.toUTF8_eq_toByteArray]
  rw [bytes, String.fromUTF8?, dif_pos s.isValidUTF8]
  rfl

theorem takeSlice_append (front rest : Bytes) {length : ℕ} (eq : length = front.length) :
    takeSlice (front ++ rest) length = .ok (front, rest) := by
  subst eq
  simp [takeSlice]

/-- Every text is short enough for its 32-bit length field. -/
def ShortTexts (values : List Value) : Prop :=
  ∀ text, .text text ∈ values → text.toUTF8.data.toList.length < 2 ^ 32

theorem ShortTexts.head {value : Value} {values : List Value}
    (short : ShortTexts (value :: values)) : ShortTexts [value] := by
  intro text isText
  apply short
  simp_all

theorem ShortTexts.tail {value : Value} {values : List Value}
    (short : ShortTexts (value :: values)) : ShortTexts values := by
  intro text member
  apply short
  exact List.mem_cons_of_mem _ member

/-- Reading one column takes exactly the stored field off the buffer. -/
theorem deserializeField_of_serializeField {column : ColumnDef} {value : Value} {field : Bytes}
    (encoded : serializeField column value = .ok field) (short : ShortTexts [value]) :
    ∃ tag payload, field = tag :: payload ∧
      ∀ rest, deserializeField column tag (payload ++ rest) = .ok (value, rest) := by
  cases value with
  | null =>
      refine ⟨2, [], by simpa [serializeField] using encoded.symm, fun rest => ?_⟩
      simp [deserializeField]
  | int n =>
      by_cases ty : column.ty = .int
      · refine ⟨0, Bytes.toLe 8 n.toBitVec.toNat, ?_, fun rest => ?_⟩
        · simpa [serializeField, ty] using encoded.symm
        · have decoded : Bytes.ofLe (Bytes.toLe 8 n.toBitVec.toNat) = n.toBitVec.toNat :=
            Bytes.ofLe_toLe_of_lt (lt_of_lt_of_le n.toBitVec.isLt (by norm_num))
          simp [deserializeField, ty, takeSlice_append, decoded, bind, Except.bind, pure,
            Except.pure]
      · simp [serializeField, ty] at encoded
  | float bits =>
      by_cases ty : column.ty = .float
      · refine ⟨3, Bytes.toLe 8 bits.toNat, ?_, fun rest => ?_⟩
        · simpa [serializeField, ty] using encoded.symm
        · have decoded : Bytes.ofLe (Bytes.toLe 8 bits.toNat) = bits.toNat :=
            Bytes.ofLe_toLe_of_lt (lt_of_lt_of_le bits.toNat_lt (by norm_num))
          simp [deserializeField, ty, takeSlice_append, decoded, bind, Except.bind, pure,
            Except.pure]
      · simp [serializeField, ty] at encoded
  | text s =>
      by_cases ty : column.ty = .text
      · obtain rfl : field =
            1 :: (Bytes.toLe 4 s.toUTF8.data.toList.length ++ s.toUTF8.data.toList) := by
          simpa [serializeField, ty] using encoded.symm
        refine ⟨_, _, rfl, fun rest => ?_⟩
        have decoded : Bytes.ofLe (Bytes.toLe 4 s.toUTF8.data.toList.length) =
            s.toUTF8.data.toList.length := by
          apply Bytes.ofLe_toLe_of_lt
          exact lt_of_lt_of_le (short s (by simp)) (by norm_num)
        rw [List.append_assoc]
        simp only [deserializeField, ty, takeSlice_append _ _ (Bytes.length_toLe _ _).symm,
          bind, Except.bind, decoded, takeSlice_append _ _ rfl, fromUTF8_toUTF8]
        simp [pure, Except.pure]
      · simp [serializeField, ty] at encoded

theorem deserializeFields_of_serializeFields {columns : List ColumnDef} {values : List Value}
    {bytes : Bytes} (arity : values.length = columns.length)
    (encoded : serializeFields columns values = .ok bytes) (short : ShortTexts values)
    (rest : Bytes) : deserializeFields columns (bytes ++ rest) = .ok values := by
  induction columns generalizing values bytes with
  | nil =>
      obtain rfl : values = [] := by simpa using arity
      rfl
  | cons column columns ih =>
      cases values with
      | nil => simp at arity
      | cons value values =>
          rcases serializeFields_cons_eq_ok encoded with
            ⟨field, others, fieldEncoded, othersEncoded, rfl⟩
          rcases deserializeField_of_serializeField fieldEncoded short.head with
            ⟨tag, payload, rfl, fieldRead⟩
          have othersArity : values.length = columns.length := by simpa using arity
          have othersRead := ih othersArity othersEncoded short.tail
          simp [deserializeFields, fieldRead, othersRead, bind, Except.bind, pure, Except.pure]

theorem serializeRow_eq_ok {schema : Schema} {values : List Value} {bytes : Bytes}
    (encoded : schema.serializeRow values = .ok bytes) :
    values.length = schema.columns.length ∧ serializeFields schema.columns values = .ok bytes := by
  rw [serializeRow] at encoded
  split_ifs at encoded with arity
  exact ⟨by simpa using arity, encoded⟩

/-- A text is no longer than the row it is stored in. -/
theorem length_text_le {columns : List ColumnDef} {values : List Value} {bytes : Bytes}
    (arity : values.length = columns.length) (encoded : serializeFields columns values = .ok bytes)
    {text : String} (member : .text text ∈ values) :
    text.toUTF8.data.toList.length ≤ bytes.length := by
  induction columns generalizing values bytes with
  | nil =>
      obtain rfl : values = [] := by simpa using arity
      simp at member
  | cons column columns ih =>
      cases values with
      | nil => simp at member
      | cons value values =>
          rcases serializeFields_cons_eq_ok encoded with
            ⟨field, others, fieldEncoded, othersEncoded, rfl⟩
          simp only [List.length_append]
          rcases List.mem_cons.mp member with rfl | later
          · rw [serializeField] at fieldEncoded
            split_ifs at fieldEncoded
            simp only [Except.ok.injEq] at fieldEncoded
            subst fieldEncoded
            simp only [List.length_cons, List.length_append]
            omega
          · have bound := ih (by simpa using arity) othersEncoded later
            omega

/-- A stored row reads back, whatever bytes follow it in its slot. -/
theorem deserializeRow_of_serializeRow {schema : Schema} {values : List Value} {bytes : Bytes}
    (encoded : schema.serializeRow values = .ok bytes) (short : bytes.length < 2 ^ 32)
    (rest : Bytes) : schema.deserializeRow (bytes ++ rest) = .ok values := by
  rcases serializeRow_eq_ok encoded with ⟨arity, fieldsEncoded⟩
  apply deserializeFields_of_serializeFields arity fieldsEncoded
  intro text member
  exact lt_of_le_of_lt (length_text_le arity fieldsEncoded member) short

end Schema

end VenomDb
