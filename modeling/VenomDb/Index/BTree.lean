import VenomDb.Index.Node

/-!
# The B-tree index

Nodes live in a map from addresses to nodes. The loops of the source that follow
child and sibling pointers run here on fuel, one unit per node of the map; an
address or an index that leads nowhere ends the walk. Addresses are unbounded here. The
source counts them in a `u32`, which overflows with the node after 2^32 others; in a build
with overflow checks no tree gets there.
-/

namespace VenomDb.Index

structure BTree (Key Value : Type) where
  nodes : AList fun _ : ℕ => BTreeNode Key Value
  nextPageId : ℕ
  rootId : ℕ

/-- What a split hands to the parent. -/
structure SplitResult (Key : Type) where
  promotedKey : Key
  newPageId : ℕ

namespace BTree

variable {Key Value : Type}

def allocPage (node : BTreeNode Key Value) (tree : BTree Key Value) : ℕ × BTree Key Value :=
  (tree.nextPageId,
    { tree with
      nodes := tree.nodes.insert tree.nextPageId node
      nextPageId := tree.nextPageId + 1 })

/-- An empty root leaf. -/
def new : BTree Key Value :=
  let (rootId, tree) := allocPage (.leaf LeafNode.new) ⟨∅, 0, 0⟩
  { tree with rootId := rootId }

def store (tree : BTree Key Value) (pageId : ℕ) (node : BTreeNode Key Value) : BTree Key Value :=
  { tree with nodes := tree.nodes.insert pageId node }

/-- Enough fuel for any walk through the nodes. -/
def fuel (tree : BTree Key Value) : ℕ := tree.nodes.keys.length + 1

/-- Split a full leaf. The right half goes to a new node, linked after the left half. -/
def splitLeaf (leftId : ℕ) (left : LeafNode Key Value) (tree : BTree Key Value) :
    Option (SplitResult Key) × BTree Key Value :=
  let mid := left.keys.length / 2
  let right : LeafNode Key Value :=
    { keys := left.keys.drop mid, rids := left.rids.drop mid, nextLeaf := left.nextLeaf }
  let (rightId, tree) := allocPage (.leaf right) tree
  let left : LeafNode Key Value :=
    { keys := left.keys.take mid, rids := left.rids.take mid, nextLeaf := some rightId }
  (right.keys.head?.map fun promotedKey => ⟨promotedKey, rightId⟩, tree.store leftId (.leaf left))

/-- Split a full internal node. The middle key moves up. -/
def splitInternal (leftId : ℕ) (left : InternalNode Key) (tree : BTree Key Value) :
    Option (SplitResult Key) × BTree Key Value :=
  let mid := left.keys.length / 2
  let right : InternalNode Key :=
    { keys := left.keys.drop (mid + 1), children := left.children.drop (mid + 1) }
  let (rightId, tree) := allocPage (.internal right) tree
  let left' : InternalNode Key :=
    { keys := left.keys.take mid, children := left.children.take (mid + 1) }
  (left.keys[mid]?.map fun promotedKey => ⟨promotedKey, rightId⟩,
    tree.store leftId (.internal left'))

variable [LinearOrder Key]

/-- Which leaf a key belongs in. -/
def findLeaf (tree : BTree Key Value) (key : Key) : ℕ → ℕ → ℕ
  | 0, pageId => pageId
  | fuel + 1, pageId =>
      match tree.nodes.lookup pageId with
      | some (.internal node) =>
          match node.children[node.findChildIndex key]? with
          | some child => findLeaf tree key fuel child
          | none => pageId
      | _ => pageId

/-- Search for a key. -/
def search (tree : BTree Key Value) (key : Key) : Option Value := do
  let leafId := tree.findLeaf key tree.fuel tree.rootId
  match ← tree.nodes.lookup leafId with
  | .leaf leaf =>
      let index ← leaf.findKeyIndex key
      leaf.rids[index]?
  | .internal _ => none

/-- Insert below a node. Gives a split result if the node split. -/
def insertRecursive (key : Key) (value : Value) :
    ℕ → ℕ → BTree Key Value → Option (SplitResult Key) × BTree Key Value
  | 0, _, tree => (none, tree)
  | fuel + 1, pageId, tree =>
      match tree.nodes.lookup pageId with
      | none => (none, tree)
      | some (.leaf leaf) =>
          let position := partitionPoint leaf.keys fun candidate => candidate < key
          let leaf : LeafNode Key Value :=
            { leaf with
              keys := leaf.keys.insertIdx position key
              rids := leaf.rids.insertIdx position value }
          if leaf.isFull then splitLeaf pageId leaf tree
          else (none, tree.store pageId (.leaf leaf))
      | some (.internal internal) =>
          let childIndex := internal.findChildIndex key
          match internal.children[childIndex]? with
          | none => (none, tree)
          | some child =>
              match insertRecursive key value fuel child tree with
              | (some split, tree) =>
                  let internal : InternalNode Key :=
                    { keys := internal.keys.insertIdx childIndex split.promotedKey
                      children := internal.children.insertIdx (childIndex + 1) split.newPageId }
                  if internal.isFull then splitInternal pageId internal tree
                  else (none, tree.store pageId (.internal internal))
              | (none, tree) => (none, tree.store pageId (.internal internal))

/-- Insert a key. A split of the root makes a new root above it. -/
def insert (key : Key) (value : Value) (tree : BTree Key Value) : BTree Key Value :=
  match insertRecursive key value tree.fuel tree.rootId tree with
  | (none, tree) => tree
  | (some split, tree) =>
      let root : InternalNode Key :=
        { keys := [split.promotedKey], children := [tree.rootId, split.newPageId] }
      let (rootId, tree) := allocPage (.internal root) tree
      { tree with rootId := rootId }

/-- Delete a key from its leaf; nodes are never merged. -/
def delete (key : Key) (tree : BTree Key Value) : Bool × BTree Key Value :=
  let leafId := tree.findLeaf key tree.fuel tree.rootId
  match tree.nodes.lookup leafId with
  | some (.leaf leaf) =>
      match leaf.findKeyIndex key with
      | some index =>
          (true, tree.store leafId (.leaf
            { leaf with keys := leaf.keys.eraseIdx index, rids := leaf.rids.eraseIdx index }))
      | none => (false, tree)
  | _ => (false, tree)

/-- The values of one leaf within bounds, and whether a key past the upper bound ended the
scan. -/
def scanLeaf (first last : Key) : List Key → List Value → List Value × Bool
  | key :: keys, value :: values =>
      if last < key then ([], true)
      else
        let (found, ended) := scanLeaf first last keys values
        (if first ≤ key then value :: found else found, ended)
  | _, _ => ([], false)

/-- The loop of `range_scan` along the leaves. -/
def scanLeaves (tree : BTree Key Value) (first last : Key) : ℕ → ℕ → List Value
  | 0, _ => []
  | fuel + 1, leafId =>
      match tree.nodes.lookup leafId with
      | some (.leaf leaf) =>
          let (found, ended) := scanLeaf first last leaf.keys leaf.rids
          if ended then found
          else
            match leaf.nextLeaf with
            | some next => found ++ scanLeaves tree first last fuel next
            | none => found
      | _ => []

/-- Range scan: the values of all keys from `first` to `last`. -/
def rangeScan (tree : BTree Key Value) (first last : Key) : List Value :=
  scanLeaves tree first last tree.fuel (tree.findLeaf first tree.fuel tree.rootId)

end BTree

end VenomDb.Index
