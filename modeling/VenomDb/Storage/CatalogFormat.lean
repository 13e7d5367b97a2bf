import VenomDb.Storage.CatalogStore
import VenomDb.Lib.Fallible

/-!
# The bytes of the catalog file

Version 2 starts with `u32::MAX` where version 1 has its number of tables, flags the
primary key of every column and ends with the index definitions. Loading reads both;
what `save` writes is read back for any iteration order of the table map.
-/

namespace VenomDb

/-- The `std::io::Error`s of `CatalogStore::load`. -/
inductive CatalogError where
  /-- "catalog truncated" -/
  | truncated
  /-- "catalog string truncated" -/
  | stringTruncated
  /-- "invalid utf8 in catalog" -/
  | invalidUtf8
  /-- "catalog version missing" -/
  | versionMissing
  /-- "catalog col type missing" -/
  | columnTypeMissing
  /-- "unknown type tag {} in catalog" -/
  | unknownTypeTag (tag : UInt8)
  /-- "catalog pk flag missing" -/
  | primaryKeyFlagMissing
  deriving DecidableEq

namespace CatalogFile

/-- `u32::MAX`, which marks a file with a version byte. -/
def magic : ℕ := 2 ^ 32 - 1

def typeTag : DataType → UInt8
  | .int => 0
  | .text => 1
  | .float => 2

section Writing

def writeStr (s : String) : Bytes :=
  Bytes.toLe 4 s.toUTF8.data.toList.length ++ s.toUTF8.data.toList

/-- A column; the primary key flag is part of it from version 2 on. -/
def writeColumn (version : UInt8) (column : ColumnDef) : Bytes :=
  writeStr column.name ++
    typeTag column.ty :: if 2 ≤ version then [if column.primaryKey then 1 else 0] else []

def writeTable (version : UInt8) (table : String × List ColumnDef) : Bytes :=
  writeStr table.1 ++ (Bytes.toLe 4 table.2.length ++ table.2.flatMap (writeColumn version))

def writeIndexDef (indexDef : String × String) : Bytes :=
  writeStr indexDef.1 ++ writeStr indexDef.2

/-- What `save` writes. -/
def toBytes (file : CatalogFile) : Bytes :=
  Bytes.toLe 4 magic ++ 2 :: (Bytes.toLe 4 file.tables.length ++
    (file.tables.flatMap (writeTable 2) ++
      (Bytes.toLe 4 file.indexDefs.length ++ file.indexDefs.flatMap writeIndexDef)))

/-- The documented layout of version 1: tables only, and columns without flags. -/
def toBytesV1 (file : CatalogFile) : Bytes :=
  Bytes.toLe 4 file.tables.length ++ file.tables.flatMap (writeTable 1)

end Writing

section Reading

/-- `read_u32!`. -/
def readU32 : Fallible CatalogError Bytes ℕ := fun bytes =>
  if 4 ≤ bytes.length then (.ok (Bytes.ofLe (bytes.take 4)), bytes.drop 4)
  else (.error .truncated, bytes)

/-- `read_str!`. -/
def readStr : Fallible CatalogError Bytes String := do
  let length ← readU32
  let bytes ← Fallible.get
  if bytes.length < length then Fallible.throw .stringTruncated
  else
    match String.fromUTF8? ⟨(bytes.take length).toArray⟩ with
    | some s => do
        Fallible.modify fun bytes => bytes.drop length
        return s
    | none => Fallible.throw .invalidUtf8

/-- `buf[off]`, with the error for a file that ends there. -/
def readByte (missing : CatalogError) : Fallible CatalogError Bytes UInt8
  | [] => (.error missing, [])
  | byte :: bytes => (.ok byte, bytes)

def readType : Fallible CatalogError Bytes DataType := do
  let tag ← readByte .columnTypeMissing
  if tag = 0 then return .int
  else if tag = 1 then return .text
  else if tag = 2 then return .float
  else Fallible.throw (.unknownTypeTag tag)

def readPrimaryKey (version : UInt8) : Fallible CatalogError Bytes Bool :=
  if 2 ≤ version then do
    let flag ← readByte .primaryKeyFlagMissing
    return flag = 1
  else return false

def readColumn (version : UInt8) : Fallible CatalogError Bytes ColumnDef := do
  let name ← readStr
  let ty ← readType
  let primaryKey ← readPrimaryKey version
  return ⟨name, ty, primaryKey⟩

def readTable (version : UInt8) : Fallible CatalogError Bytes (String × List ColumnDef) := do
  let name ← readStr
  let numCols ← readU32
  let columns ← Fallible.times numCols (readColumn version)
  return (name, columns)

def readIndexDef : Fallible CatalogError Bytes (String × String) := do
  let table ← readStr
  let column ← readStr
  return (table, column)

/-- The version and the number of tables. -/
def readHeader : Fallible CatalogError Bytes (UInt8 × ℕ) := do
  let first ← readU32
  if first = magic then do
    let version ← readByte .versionMissing
    let numTables ← readU32
    return (version, numTables)
  else return (1, first)

/-- The index definitions, unless the file ends before them. -/
def readIndexDefs (version : UInt8) : Fallible CatalogError Bytes (List (String × String)) := do
  let bytes ← Fallible.get
  if 2 ≤ version ∧ bytes ≠ [] then do
    let numIndexes ← readU32
    Fallible.times numIndexes readIndexDef
  else return []

def readFile : Fallible CatalogError Bytes CatalogFile := do
  let (version, numTables) ← readHeader
  let tables ← Fallible.times numTables (readTable version)
  let indexDefs ← readIndexDefs version
  return ⟨tables, indexDefs⟩

end Reading

section RoundTrip

variable {rest : Bytes}

/-- A length or a count below `u32::MAX`. -/
abbrev Small (length : ℕ) : Prop := length < magic

theorem readU32_toLe {value : ℕ} (fits : value < 2 ^ 32) :
    readU32 (Bytes.toLe 4 value ++ rest) = (.ok value, rest) := by
  rw [readU32, if_pos (by simp), List.take_left' (by simp), List.drop_left' (by simp),
    Bytes.ofLe_toLe_of_lt fits]

theorem Small.fits {length : ℕ} (small : Small length) : length < 2 ^ 32 :=
  lt_trans small (by decide)

theorem readStr_writeStr {s : String} (small : Small s.toUTF8.data.toList.length) :
    readStr (writeStr s ++ rest) = (.ok s, rest) := by
  rw [readStr, writeStr, List.append_assoc, Fallible.bind_ok (readU32_toLe small.fits),
    Fallible.get_bind, if_neg (by simp), List.take_left' rfl, Schema.fromUTF8_toUTF8]
  simp

theorem readType_typeTag (ty : DataType) : readType (typeTag ty :: rest) = (.ok ty, rest) := by
  cases ty <;> rfl

/-- What a version keeps of a column. -/
def keptColumn (version : UInt8) (column : ColumnDef) : ColumnDef :=
  { column with primaryKey := 2 ≤ version && column.primaryKey }

theorem readColumn_writeColumn (version : UInt8) {column : ColumnDef}
    (small : Small column.name.toUTF8.data.toList.length) :
    readColumn version (writeColumn version column ++ rest) =
      (.ok (keptColumn version column), rest) := by
  rw [readColumn, writeColumn, List.append_assoc, Fallible.bind_ok (readStr_writeStr small),
    List.cons_append, Fallible.bind_ok (readType_typeTag column.ty), readPrimaryKey, keptColumn]
  by_cases flagged : 2 ≤ version
  · rw [if_pos flagged, if_pos flagged]
    cases column.primaryKey <;> simp [readByte, Fallible.bind_apply, flagged]
  · rw [if_neg flagged, if_neg flagged]
    simp [flagged]

/-- The lengths and counts of a table are small. -/
structure SmallTable (table : String × List ColumnDef) : Prop where
  name : Small table.1.toUTF8.data.toList.length
  columns : Small table.2.length
  columnNames : ∀ column ∈ table.2, Small column.name.toUTF8.data.toList.length

/-- What a version keeps of a table. -/
def keptTable (version : UInt8) (table : String × List ColumnDef) : String × List ColumnDef :=
  (table.1, table.2.map (keptColumn version))

theorem readTable_writeTable (version : UInt8) {table : String × List ColumnDef}
    (small : SmallTable table) :
    readTable version (writeTable version table ++ rest) =
      (.ok (keptTable version table), rest) := by
  rw [readTable, writeTable, List.append_assoc, List.append_assoc,
    Fallible.bind_ok (readStr_writeStr small.name),
    Fallible.bind_ok (readU32_toLe small.columns.fits),
    Fallible.bind_ok (Fallible.times_flatMap
      (fun column inside _ => readColumn_writeColumn version (small.columnNames column inside))
        rest)]
  rfl

theorem readIndexDef_writeIndexDef {indexDef : String × String}
    (table : Small indexDef.1.toUTF8.data.toList.length)
    (column : Small indexDef.2.toUTF8.data.toList.length) :
    readIndexDef (writeIndexDef indexDef ++ rest) = (.ok indexDef, rest) := by
  rw [readIndexDef, writeIndexDef, List.append_assoc, Fallible.bind_ok (readStr_writeStr table),
    Fallible.bind_ok (readStr_writeStr column)]
  rfl

/-- All lengths and counts of a catalog file are below `u32::MAX`. -/
structure SmallFile (file : CatalogFile) : Prop where
  count : Small file.tables.length
  tables : ∀ table ∈ file.tables, SmallTable table
  indexCount : Small file.indexDefs.length
  indexTables : ∀ indexDef ∈ file.indexDefs, Small indexDef.1.toUTF8.data.toList.length
  indexColumns : ∀ indexDef ∈ file.indexDefs, Small indexDef.2.toUTF8.data.toList.length

variable {file : CatalogFile}

theorem keptTable_two (table : String × List ColumnDef) : keptTable 2 table = table := by
  have same : keptColumn 2 = id := by
    funext column
    simp [keptColumn]
  rw [keptTable, same, List.map_id]

theorem readHeader_two {numTables : ℕ} (fits : numTables < 2 ^ 32) :
    readHeader (Bytes.toLe 4 magic ++ 2 :: (Bytes.toLe 4 numTables ++ rest)) =
      (.ok (2, numTables), rest) := by
  have version : readByte .versionMissing (2 :: (Bytes.toLe 4 numTables ++ rest)) =
      (.ok 2, Bytes.toLe 4 numTables ++ rest) := rfl
  rw [readHeader, Fallible.bind_ok (readU32_toLe (by decide)), if_pos rfl,
    Fallible.bind_ok version, Fallible.bind_ok (readU32_toLe fits)]
  rfl

theorem times_readTable (small : SmallFile file) (rest : Bytes) :
    Fallible.times file.tables.length (readTable 2) (file.tables.flatMap (writeTable 2) ++ rest) =
      (.ok file.tables, rest) := by
  rw [Fallible.times_flatMap
    (fun table inside _ => readTable_writeTable 2 (small.tables table inside)) rest,
    funext keptTable_two, List.map_id']

theorem times_readIndexDef (small : SmallFile file) (rest : Bytes) :
    Fallible.times file.indexDefs.length readIndexDef
        (file.indexDefs.flatMap writeIndexDef ++ rest) = (.ok file.indexDefs, rest) := by
  rw [Fallible.times_flatMap fun indexDef inside _ => readIndexDef_writeIndexDef
    (small.indexTables indexDef inside) (small.indexColumns indexDef inside), List.map_id']

theorem readFile_toBytes (small : SmallFile file) : readFile file.toBytes = (.ok file, []) := by
  have indexDefs : readIndexDefs 2 (Bytes.toLe 4 file.indexDefs.length ++
      (file.indexDefs.flatMap writeIndexDef ++ [])) = (.ok file.indexDefs, []) := by
    rw [readIndexDefs, Fallible.get_bind, if_pos ⟨by decide, by simp [Bytes.toLe]⟩,
      Fallible.bind_ok (readU32_toLe small.indexCount.fits), times_readIndexDef small []]
  rw [List.append_nil] at indexDefs
  rw [readFile, toBytes, Fallible.bind_ok (readHeader_two small.count.fits)]
  dsimp only
  rw [Fallible.bind_ok (times_readTable small _), Fallible.bind_ok indexDefs]
  rfl

theorem readFile_toBytesV1 (small : SmallFile file) :
    readFile file.toBytesV1 = (.ok ⟨file.tables.map (keptTable 1), []⟩, []) := by
  have header (bytes : Bytes) : readHeader (Bytes.toLe 4 file.tables.length ++ bytes) =
      (.ok (1, file.tables.length), bytes) := by
    rw [readHeader, Fallible.bind_ok (readU32_toLe small.count.fits), if_neg small.count.ne]
    rfl
  have tables := Fallible.times_flatMap
    (fun table inside _ => readTable_writeTable 1 (small.tables table inside)) []
  rw [List.append_nil] at tables
  rw [readFile, toBytesV1, Fallible.bind_ok (header _)]
  dsimp only
  rw [Fallible.bind_ok tables]
  rfl

end RoundTrip

end CatalogFile

namespace CatalogStore

open CatalogFile

/-- What `save` writes to `catalog.bin`. -/
def save (order : HashOrder) (catalog : Catalog) : Bytes := (CatalogFile.save order catalog).toBytes

/-- The version 1 file of the tables of a catalog. -/
def layoutV1 (order : HashOrder) (catalog : Catalog) : Bytes :=
  (CatalogFile.save order catalog).toBytesV1

/-- What `load` makes of the file, or of its absence. -/
def load : Option Bytes → Except CatalogError Catalog
  | none => .ok (CatalogFile.load none)
  | some bytes => (readFile bytes).1.map fun file => CatalogFile.load (some file)

/-- All lengths and counts of a catalog are below `u32::MAX`. -/
structure SmallCatalog (catalog : Catalog) : Prop where
  count : Small catalog.tables.keys.length
  tables : ∀ {table schema}, catalog.get table = some schema →
    SmallTable (table, schema.columns)
  indexCount : Small catalog.indexDefs.length
  indexTables : ∀ indexDef ∈ catalog.indexDefs, Small indexDef.1.toUTF8.data.toList.length
  indexColumns : ∀ indexDef ∈ catalog.indexDefs, Small indexDef.2.toUTF8.data.toList.length

/-- A schema without its primary key. -/
def withoutKey (schema : Schema) : Schema where
  name := schema.name
  columns := schema.columns.map fun column => { column with primaryKey := false }
  primaryKey := none

variable {catalog : Catalog} {order : HashOrder}

theorem smallFile_save (small : SmallCatalog catalog)
    (schemas : ∀ {table schema}, catalog.get table = some schema →
      schema = Schema.new table schema.columns) : SmallFile (CatalogFile.save order catalog) where
  count := by
    rw [tables_save schemas, List.length_map, (order.tables_perm _).length_eq]
    exact small.count
  tables := by
    rw [tables_save schemas]
    intro table inside
    rcases List.mem_map.mp inside with ⟨name, isKey, rfl⟩
    rcases Option.isSome_iff_exists.mp (mem_order_tables.mp isKey) with ⟨schema, found⟩
    have fits := small.tables found
    rwa [columnsOf, found]
  indexCount := small.indexCount
  indexTables := small.indexTables
  indexColumns := small.indexColumns

theorem new_keptColumn (table : String) (columns : List ColumnDef) :
    Schema.new table (columns.map (keptColumn 1)) = withoutKey (Schema.new table columns) := by
  have unflagged : keptColumn 1 = fun column => { column with primaryKey := false } := by
    funext column
    rfl
  rw [unflagged, Schema.new, withoutKey, List.find?_eq_none.mpr]
  · rfl
  · intro column inside
    rcases List.mem_map.mp inside with ⟨before, -, rfl⟩
    simp

/-- The catalog file is read back as it was saved, and a version 1 file as the same tables
without primary keys and index definitions. -/
theorem load_save (order : HashOrder) (catalog : Catalog)
    (schemas : ∀ {table schema}, catalog.get table = some schema →
      schema = Schema.new table schema.columns) (small : SmallCatalog catalog) :
    (∃ loaded, load (some (save order catalog)) = .ok loaded ∧
      (∀ table, loaded.get table = catalog.get table) ∧
      loaded.indexDefs = catalog.indexDefs) ∧
    ∃ loaded, load (some (layoutV1 order catalog)) = .ok loaded ∧
      (∀ table, loaded.get table = (catalog.get table).map withoutKey) ∧
      loaded.indexDefs = [] := by
  have fits : SmallFile (CatalogFile.save order catalog) := smallFile_save small schemas
  constructor
  · refine ⟨CatalogFile.load (some (CatalogFile.save order catalog)), ?_, ?_, rfl⟩
    · rw [load, save, readFile_toBytes fits]
      rfl
    · exact get_load_save order schemas
  · refine ⟨CatalogFile.load (some ⟨(CatalogFile.save order catalog).tables.map (keptTable 1), []⟩),
      ?_, ?_, rfl⟩
    · rw [load, layoutV1, readFile_toBytesV1 fits]
      rfl
    · intro table
      rw [tables_save schemas, List.map_map]
      refine (get_load_map _ (fun name => (columnsOf catalog name).map (keptColumn 1))
        [] table).trans ?_
      rw [new_keptColumn]
      split_ifs with inside
      · rcases Option.isSome_iff_exists.mp (mem_order_tables.mp inside) with ⟨schema, found⟩
        rw [columnsOf, found, Option.map_some, Option.getD_some, Option.map_some, ← schemas found]
      · cases found : catalog.get table with
        | none => rfl
        | some schema => exact absurd (mem_order_tables.mpr (by simp [found])) inside

end CatalogStore

namespace Sample

/-- A table with a primary key and its index. -/
def keyedCatalog : Catalog where
  tables := (∅ : AList fun _ : String => Schema).insert "t" (Schema.new "t" [⟨"id", .int, true⟩])
  indexDefs := [("t", "id")]

theorem get_keyedCatalog {table : String} {schema : Schema}
    (found : keyedCatalog.get table = some schema) :
    table = "t" ∧ schema = Schema.new "t" [⟨"id", .int, true⟩] := by
  rw [Catalog.get, keyedCatalog] at found
  by_cases isTable : table = "t"
  · subst isTable
    rw [AList.lookup_insert] at found
    exact ⟨rfl, (Option.some.inj found).symm⟩
  · rw [AList.lookup_insert_ne isTable] at found
    simp at found

theorem new_keyedCatalog {table : String} {schema : Schema}
    (found : keyedCatalog.get table = some schema) : schema = Schema.new table schema.columns := by
  rcases get_keyedCatalog found with ⟨rfl, rfl⟩
  rfl

theorem small_keyedCatalog : CatalogStore.SmallCatalog keyedCatalog := by
  refine ⟨by decide, ?_, by decide, ?_, ?_⟩
  · intro table schema found
    rcases get_keyedCatalog found with ⟨rfl, rfl⟩
    refine ⟨by decide, by decide, ?_⟩
    intro column inside
    rw [List.mem_singleton.mp inside]
    decide
  · intro indexDef inside
    rw [List.mem_singleton.mp inside]
    decide
  · intro indexDef inside
    rw [List.mem_singleton.mp inside]
    decide

theorem load_save_keyedCatalog :
    (∃ loaded, CatalogStore.load (some (CatalogStore.save .ofInsertion keyedCatalog)) = .ok loaded ∧
      (∀ table, loaded.get table = keyedCatalog.get table) ∧
      loaded.indexDefs = keyedCatalog.indexDefs) ∧
    ∃ loaded, CatalogStore.load (some (CatalogStore.layoutV1 .ofInsertion keyedCatalog)) =
        .ok loaded ∧
      (∀ table, loaded.get table = (keyedCatalog.get table).map CatalogStore.withoutKey) ∧
      loaded.indexDefs = [] :=
  CatalogStore.load_save .ofInsertion keyedCatalog new_keyedCatalog small_keyedCatalog

end Sample

end VenomDb
