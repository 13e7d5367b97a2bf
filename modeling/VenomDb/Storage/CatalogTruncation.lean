import VenomDb.Storage.CatalogFormat
import VenomDb.Lib.Readers

/-!
# A catalog file that ends too early

Every reader of the catalog refuses what ends before its last byte, except that the index
definitions are read only if bytes remain after the tables. A file cut exactly there is
taken for a catalog without indexes.
-/

namespace VenomDb

namespace CatalogFile

open Fallible

variable {file : CatalogFile}

section Readers

theorem delimited_readU32 : Delimited readU32 := by
  intro bytes value rest run more
  by_cases enough : 4 ≤ bytes.length
  · rw [readU32, if_pos enough] at run
    rcases Prod.mk.inj run with ⟨same, rfl⟩
    cases same
    rw [readU32, if_pos (by simp; omega), List.take_append_of_le_length enough,
      List.drop_append_of_le_length enough]
  · simp [readU32, enough] at run

theorem delimited_readByte (missing : CatalogError) : Delimited (readByte missing) := by
  intro bytes value rest run more
  cases bytes with
  | nil => simp [readByte] at run
  | cons byte bytes =>
      simp only [readByte, Prod.mk.injEq, Except.ok.injEq] at run
      simp [readByte, run.1, run.2]

theorem delimited_readStr : Delimited readStr := by
  apply delimited_readU32.bind
  intro length bytes value rest run more
  rw [get_bind] at run ⊢
  by_cases short : bytes.length < length
  · simp [short] at run
  · have enough : length ≤ bytes.length := by omega
    rw [if_neg short] at run
    rw [if_neg (by simp; omega), List.take_append_of_le_length enough]
    cases found : String.fromUTF8? ⟨(bytes.take length).toArray⟩ with
    | none => simp [found] at run
    | some s =>
        simp only [found, modify_bind, pure_apply, Prod.mk.injEq, Except.ok.injEq] at run ⊢
        rw [List.drop_append_of_le_length enough, run.2]
        exact ⟨run.1, rfl⟩

theorem delimited_readType : Delimited readType := by
  apply (delimited_readByte _).bind
  intro tag
  split_ifs
  · exact delimited_pure _
  · exact delimited_pure _
  · exact delimited_pure _
  · exact delimited_throw _

theorem delimited_readPrimaryKey (version : UInt8) : Delimited (readPrimaryKey version) := by
  unfold readPrimaryKey
  split_ifs
  · exact (delimited_readByte _).bind fun flag => delimited_pure _
  · exact delimited_pure _

theorem delimited_readColumn (version : UInt8) : Delimited (readColumn version) := by
  apply delimited_readStr.bind
  intro name
  apply delimited_readType.bind
  intro ty
  apply (delimited_readPrimaryKey version).bind
  intro primaryKey
  exact delimited_pure _

theorem delimited_readTable (version : UInt8) : Delimited (readTable version) := by
  apply delimited_readStr.bind
  intro name
  apply delimited_readU32.bind
  intro numCols
  apply ((delimited_readColumn version).times numCols).bind
  intro columns
  exact delimited_pure _

theorem delimited_readIndexDef : Delimited readIndexDef := by
  apply delimited_readStr.bind
  intro table
  apply delimited_readStr.bind
  intro column
  exact delimited_pure _

theorem delimited_readHeader : Delimited readHeader := by
  apply delimited_readU32.bind
  intro first
  split_ifs
  · apply (delimited_readByte _).bind
    intro version
    apply delimited_readU32.bind
    intro numTables
    exact delimited_pure _
  · exact delimited_pure _

end Readers

section Sections

/-- What `save` writes before the index definitions. -/
def tableSection (file : CatalogFile) : Bytes :=
  Bytes.toLe 4 magic ++ 2 :: (Bytes.toLe 4 file.tables.length ++ file.tables.flatMap (writeTable 2))

/-- The index definitions as `save` writes them. -/
def indexSection (file : CatalogFile) : Bytes :=
  Bytes.toLe 4 file.indexDefs.length ++ file.indexDefs.flatMap writeIndexDef

theorem toBytes_eq_sections (file : CatalogFile) :
    file.toBytes = file.tableSection ++ file.indexSection := by
  simp [toBytes, tableSection, indexSection]

/-- The part of `load` before the index definitions. -/
def readTables : Fallible CatalogError Bytes (UInt8 × List (String × List ColumnDef)) := do
  let (version, numTables) ← readHeader
  let tables ← Fallible.times numTables (readTable version)
  return (version, tables)

/-- The part of `load` after the test that bytes remain. -/
def readIndexList : Fallible CatalogError Bytes (List (String × String)) := do
  let numIndexes ← readU32
  Fallible.times numIndexes readIndexDef

theorem readFile_of_readTables {bytes rest : Bytes} {version : UInt8}
    {tables : List (String × List ColumnDef)}
    (run : readTables bytes = (.ok (version, tables), rest)) :
    readFile bytes = (do
      let indexDefs ← readIndexDefs version
      return (⟨tables, indexDefs⟩ : CatalogFile)) rest := by
  rcases bind_eq_ok run with ⟨⟨version', numTables⟩, between, header, run'⟩
  rcases bind_eq_ok run' with ⟨tables', after, list, last⟩
  simp only [pure_apply, Prod.mk.injEq, Except.ok.injEq] at last
  rcases last with ⟨⟨rfl, rfl⟩, rfl⟩
  rw [readFile, bind_ok header]
  dsimp only
  rw [bind_ok list]

theorem readFile_of_tables_refused {bytes rest : Bytes} {error : CatalogError}
    (run : readTables bytes = (.error error, rest)) :
    ∃ rest', readFile bytes = (.error error, rest') := by
  rcases header : readHeader bytes with ⟨_ | ⟨version, numTables⟩, between⟩
  · rw [readTables, bind_error header] at run
    rcases Prod.mk.inj run with ⟨same, rfl⟩
    cases same
    exact ⟨between, by rw [readFile, bind_error header]⟩
  · rw [readTables, bind_ok header] at run
    dsimp only at run
    rcases list : Fallible.times numTables (readTable version) between with ⟨_ | tables, after⟩
    · rw [bind_error list] at run
      rcases Prod.mk.inj run with ⟨same, rfl⟩
      cases same
      refine ⟨after, ?_⟩
      rw [readFile, bind_ok header]
      dsimp only
      rw [bind_error list]
    · rw [bind_ok list] at run
      simp at run

theorem delimited_readTables : Delimited readTables := by
  apply delimited_readHeader.bind
  rintro ⟨version, numTables⟩
  apply ((delimited_readTable version).times numTables).bind
  intro tables
  exact delimited_pure _

theorem delimited_readIndexList : Delimited readIndexList := by
  apply delimited_readU32.bind
  intro numIndexes
  exact delimited_readIndexDef.times numIndexes

theorem readTables_tableSection (small : SmallFile file) :
    readTables file.tableSection = (.ok (2, file.tables), []) := by
  have tables := times_readTable small []
  rw [List.append_nil] at tables
  rw [readTables, tableSection, bind_ok (readHeader_two small.count.fits)]
  dsimp only
  rw [bind_ok tables]
  rfl

theorem readIndexList_indexSection (small : SmallFile file) :
    readIndexList file.indexSection = (.ok file.indexDefs, []) := by
  have list := times_readIndexDef small []
  rw [List.append_nil] at list
  rw [readIndexList, indexSection, bind_ok (readU32_toLe small.indexCount.fits), list]

/-- Without the index definitions the file is read as one that has none. -/
theorem readFile_tableSection (small : SmallFile file) :
    readFile file.tableSection = (.ok ⟨file.tables, []⟩, []) := by
  rw [readFile_of_readTables (readTables_tableSection small), readIndexDefs]
  rfl

/-- A cut anywhere else is noticed by the field it falls in. -/
theorem readFile_cut (small : SmallFile file) {cut : ℕ} (short : cut < file.toBytes.length)
    (elsewhere : cut ≠ file.tableSection.length) :
    ∃ error rest, readFile (file.toBytes.take cut) = (.error error, rest) := by
  rw [toBytes_eq_sections] at short ⊢
  by_cases early : cut < file.tableSection.length
  · rw [List.take_append_of_le_length (by omega)]
    rcases delimited_readTables.refuses (readTables_tableSection small) early with
      ⟨error, rest, refused⟩
    rcases readFile_of_tables_refused refused with ⟨rest', fails⟩
    exact ⟨error, rest', fails⟩
  · obtain ⟨more, rfl⟩ : ∃ more, cut = file.tableSection.length + (more + 1) :=
      ⟨cut - file.tableSection.length - 1, by omega⟩
    rw [List.take_length_add_append]
    have tables := delimited_readTables _ _ _ (readTables_tableSection small)
      (file.indexSection.take (more + 1))
    have inside : more + 1 < file.indexSection.length := by
      simp only [List.length_append] at short
      omega
    rcases delimited_readIndexList.refuses (readIndexList_indexSection small) inside with
      ⟨error, rest, refused⟩
    refine ⟨error, rest, ?_⟩
    have remains : file.indexSection.take (more + 1) ≠ [] := by
      simp [indexSection, Bytes.toLe]
    rw [readFile_of_readTables tables, List.nil_append, readIndexDefs]
    have list : (do
        let bytes ← Fallible.get
        if 2 ≤ (2 : UInt8) ∧ bytes ≠ [] then do
          let numIndexes ← readU32
          Fallible.times numIndexes readIndexDef
        else return []) (file.indexSection.take (more + 1)) = (.error error, rest) := by
      rw [get_bind, if_pos ⟨by decide, remains⟩]
      exact refused
    exact bind_error list

end Sections

end CatalogFile

namespace CatalogStore

open CatalogFile

/-- A strict prefix of the saved file is refused exactly when it does not end between the tables
and the index definitions; there it loads as the same tables without any index. -/
theorem load_truncated_iff (order : HashOrder) (catalog : Catalog)
    (small : SmallFile (CatalogFile.save order catalog)) {cut : ℕ}
    (short : cut < (save order catalog).length) :
    ((∃ error, load (some ((save order catalog).take cut)) = .error error) ↔
        cut ≠ (CatalogFile.save order catalog).tableSection.length) ∧
      load (some (CatalogFile.save order catalog).tableSection) =
        .ok { CatalogFile.load (some (CatalogFile.save order catalog)) with indexDefs := [] } := by
  have boundary : load (some (CatalogFile.save order catalog).tableSection) =
      .ok { CatalogFile.load (some (CatalogFile.save order catalog)) with indexDefs := [] } := by
    rw [load, readFile_tableSection small]
    rfl
  refine ⟨⟨?_, ?_⟩, boundary⟩
  · rintro ⟨error, refused⟩ here
    rw [here, save, toBytes_eq_sections, List.take_left' rfl, boundary] at refused
    simp at refused
  · intro elsewhere
    rcases readFile_cut small short elsewhere with ⟨error, rest, refused⟩
    refine ⟨error, ?_⟩
    rw [load, save, refused]
    rfl

end CatalogStore

namespace Sample

open CatalogFile

theorem smallFile_keyedCatalog : SmallFile (CatalogFile.save .ofInsertion keyedCatalog) :=
  CatalogStore.smallFile_save small_keyedCatalog new_keyedCatalog

theorem load_truncated_iff_keyedCatalog :
    ((∃ error, CatalogStore.load
          (some ((CatalogStore.save .ofInsertion keyedCatalog).take 10)) = .error error) ↔
        10 ≠ (CatalogFile.save .ofInsertion keyedCatalog).tableSection.length) ∧
      CatalogStore.load (some (CatalogFile.save .ofInsertion keyedCatalog).tableSection) =
        .ok { CatalogFile.load (some (CatalogFile.save .ofInsertion keyedCatalog)) with
          indexDefs := [] } :=
  CatalogStore.load_truncated_iff .ofInsertion keyedCatalog smallFile_keyedCatalog (by decide)

/-- Cut before the index definitions, a catalog with a key loads without its index. -/
theorem load_keyedCatalog_unindexed :
    (CatalogFile.save .ofInsertion keyedCatalog).tableSection.length <
        (CatalogStore.save .ofInsertion keyedCatalog).length ∧
      ∃ loaded, CatalogStore.load (some ((CatalogStore.save .ofInsertion keyedCatalog).take
            (CatalogFile.save .ofInsertion keyedCatalog).tableSection.length)) = .ok loaded ∧
        loaded.indexDefs = [] ∧ keyedCatalog.indexDefs = [("t", "id")] := by
  refine ⟨by decide,
    CatalogFile.load (some ⟨(CatalogFile.save .ofInsertion keyedCatalog).tables, []⟩), ?_, rfl, rfl⟩
  rw [CatalogStore.save, toBytes_eq_sections, List.take_left' rfl, CatalogStore.load,
    readFile_tableSection smallFile_keyedCatalog]
  rfl

end Sample

end VenomDb
