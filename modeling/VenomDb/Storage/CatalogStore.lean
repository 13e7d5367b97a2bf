import VenomDb.Engine.Catalog
import VenomDb.Lib.Maps

/-!
# The catalog file

`catalog.bin` holds the tables, in the order in which the hash map gives them, and the
index definitions. The file is kept decoded: what `save` writes down of each schema,
and how `load` builds the schema again.
-/

namespace VenomDb

/-- The iteration order of hash maps: any permutation of the keys. -/
structure HashOrder where
  pages : List UInt32 → List UInt32
  tables : List String → List String
  pages_perm : ∀ keys, (pages keys).Perm keys
  tables_perm : ∀ keys, (tables keys).Perm keys

/-- The order in which the keys were inserted. -/
def HashOrder.ofInsertion : HashOrder where
  pages := id
  tables := id
  pages_perm := fun keys => .refl keys
  tables_perm := fun keys => .refl keys

structure CatalogFile where
  tables : List (String × List ColumnDef)
  indexDefs : List (String × String)

namespace CatalogFile

/-- The primary key is not written; the flags of the columns are. -/
def save (order : HashOrder) (catalog : Catalog) : CatalogFile where
  tables := (order.tables catalog.tables.keys).filterMap fun name =>
    (catalog.get name).map fun schema => (schema.name, schema.columns)
  indexDefs := catalog.indexDefs

/-- A directory without a catalog file has an empty catalog. -/
def load : Option CatalogFile → Catalog
  | none => Catalog.new
  | some file =>
      { tables := file.tables.foldl (fun tables (name, columns) =>
          tables.insert name (Schema.new name columns)) ∅
        indexDefs := file.indexDefs }

section Loading

variable {catalog : Catalog} {order : HashOrder}

theorem get_load_map (names : List String) (columns : String → List ColumnDef)
    (indexDefs : List (String × String)) (table : String) :
    (load (some ⟨names.map fun name => (name, columns name), indexDefs⟩)).get table =
      if table ∈ names then some (Schema.new table (columns table)) else none := by
  rw [load, Catalog.get, List.foldl_map,
    AList.lookup_foldl_insert fun name => Schema.new name (columns name)]
  simp

/-- The columns of a table, none where it is missing. -/
def columnsOf (catalog : Catalog) (name : String) : List ColumnDef :=
  ((catalog.get name).map Schema.columns).getD []

theorem mem_order_tables {name : String} :
    name ∈ order.tables catalog.tables.keys ↔ (catalog.get name).isSome := by
  rw [(order.tables_perm _).mem_iff, Catalog.get, AList.lookup_isSome, AList.mem_keys]

theorem tables_save
    (schemas : ∀ {table schema}, catalog.get table = some schema →
      schema = Schema.new table schema.columns) :
    (save order catalog).tables =
      (order.tables catalog.tables.keys).map fun name => (name, columnsOf catalog name) := by
  rw [save, ← List.filterMap_eq_map]
  apply List.filterMap_congr
  intro name inside
  rcases Option.isSome_iff_exists.mp (mem_order_tables.mp inside) with ⟨schema, found⟩
  have wellFormed := schemas found
  rw [found, Option.map_some, Function.comp, show schema.name = name by rw [wellFormed]; rfl]
  simp [columnsOf, found]

/-- Loading gives back the tables that were saved. -/
theorem get_load_save (order : HashOrder) {catalog : Catalog}
    (schemas : ∀ {table schema}, catalog.get table = some schema →
      schema = Schema.new table schema.columns) (table : String) :
    (load (some (save order catalog))).get table = catalog.get table := by
  have saved : save order catalog =
      ⟨(order.tables catalog.tables.keys).map fun name => (name, columnsOf catalog name),
        catalog.indexDefs⟩ := by
    rw [← tables_save schemas]
    rfl
  rw [saved, get_load_map]
  split_ifs with inside
  · rcases Option.isSome_iff_exists.mp (mem_order_tables.mp inside) with ⟨schema, found⟩
    rw [found, columnsOf, found, Option.map_some, Option.getD_some, ← schemas found]
  · cases found : catalog.get table with
    | none => rfl
    | some schema => exact absurd (mem_order_tables.mpr (by simp [found])) inside

end Loading

end CatalogFile

end VenomDb
