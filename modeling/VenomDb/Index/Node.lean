import Mathlib.Tactic
import Mathlib.Data.List.AList

/-!
# B-tree nodes

The nodes of the index, over any ordered type of keys and any type of values; the
database uses 64-bit keys and record ids. A node is addressed by a number.
-/

namespace VenomDb

/-- Points to where a row physically lives. -/
structure Rid where
  pageId : UInt32
  slotId : UInt16
  deriving DecidableEq

/-- `i64` in its signed order. -/
instance linearOrderInt64 : LinearOrder Int64 :=
  LinearOrder.lift' Int64.toInt fun _ _ => Int64.toInt.inj

namespace Index

/-- Each node holds fewer than `2 * order` keys between operations. -/
def order : ℕ := 4

structure InternalNode (Key : Type) where
  /-- Separator keys. -/
  keys : List Key
  /-- Child addresses, one more than keys. -/
  children : List ℕ

structure LeafNode (Key Value : Type) where
  keys : List Key
  rids : List Value
  /-- The right sibling, for range scans. -/
  nextLeaf : Option ℕ

inductive BTreeNode (Key Value : Type) where
  | internal (node : InternalNode Key)
  | leaf (leaf : LeafNode Key Value)

/-- `partition_point`: how many keys at the front satisfy a test. -/
def partitionPoint {Key : Type} (keys : List Key) (test : Key → Bool) : ℕ :=
  (keys.takeWhile test).length

variable {Key Value : Type}

namespace InternalNode

def isFull (node : InternalNode Key) : Bool := 2 * order ≤ node.keys.length

/-- Which child to follow for a search key. -/
def findChildIndex [LinearOrder Key] (node : InternalNode Key) (key : Key) : ℕ :=
  partitionPoint node.keys fun separator => separator ≤ key

end InternalNode

namespace LeafNode

def new : LeafNode Key Value where
  keys := []
  rids := []
  nextLeaf := none

def isFull (leaf : LeafNode Key Value) : Bool := 2 * order ≤ leaf.keys.length

def findKeyIndex [LinearOrder Key] (leaf : LeafNode Key Value) (key : Key) : Option ℕ :=
  leaf.keys.findIdx? fun candidate => candidate = key

end LeafNode

end Index

end VenomDb
