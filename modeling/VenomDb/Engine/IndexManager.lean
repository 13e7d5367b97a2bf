import VenomDb.Index.BTree

/-!
# The indexes of all tables

One B-tree for each indexed column, keyed by table and column name. The indexes
live in memory only.
-/

namespace VenomDb

open Index

/-- An index on one column. -/
abbrev ColumnIndex := BTree Int64 Rid

structure IndexManager where
  indexes : AList fun _ : String × String => ColumnIndex

namespace IndexManager

def new : IndexManager := ⟨∅⟩

/-- Create an index; nothing happens if there is one. -/
def createIndex (table column : String) (manager : IndexManager) : IndexManager :=
  if (table, column) ∈ manager.indexes then manager
  else ⟨manager.indexes.insert (table, column) BTree.new⟩

def hasIndex (manager : IndexManager) (table column : String) : Bool :=
  (manager.indexes.lookup (table, column)).isSome

/-- Change the index on a column, if there is one. -/
def onIndex (table column : String) (change : ColumnIndex → ColumnIndex)
    (manager : IndexManager) : IndexManager :=
  match manager.indexes.lookup (table, column) with
  | some tree => ⟨manager.indexes.insert (table, column) (change tree)⟩
  | none => manager

def insert (table column : String) (key : Int64) (rid : Rid) : IndexManager → IndexManager :=
  onIndex table column (BTree.insert key rid)

def delete (table column : String) (key : Int64) : IndexManager → IndexManager :=
  onIndex table column fun tree => (tree.delete key).2

/-- Exact-match lookup. -/
def search (manager : IndexManager) (table column : String) (key : Int64) : Option Rid :=
  (manager.indexes.lookup (table, column)).bind fun tree => tree.search key

/-- All record ids with a key from `first` to `last`. -/
def rangeScan (manager : IndexManager) (table column : String) (first last : Int64) : List Rid :=
  ((manager.indexes.lookup (table, column)).map fun tree => tree.rangeScan first last).getD []

/-- Index maintenance for one row, column by column: take the old key out, put the new key in.
An insert has no old keys and a delete no new ones. -/
def maintain (table : String) (rid : Rid) :
    List (String × Option Int64 × Option Int64) → IndexManager → IndexManager
  | [], manager => manager
  | (column, old, new) :: cells, manager =>
      maintain table rid cells
        (if manager.hasIndex table column then
          let manager := old.elim manager fun key => manager.delete table column key
          new.elim manager fun key => manager.insert table column key rid
        else manager)

end IndexManager

end VenomDb
