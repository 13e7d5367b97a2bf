import VenomDb.Index.Structure
import VenomDb.Lib.Fallible
import VenomDb.Storage.Page

/-!
# Stored B-tree nodes

A node is stored in one page: a type byte, the number of keys and then, for an internal node, its
children and its keys, or, for a leaf, its right sibling and its entries. `u32::MAX` stands for a
missing sibling. The keys are 64-bit numbers here and the values record ids.
-/

namespace VenomDb.Index

namespace BTreeNode

/-- `u32::MAX`. -/
def noSibling : ℕ := 2 ^ 32 - 1

def keyBytes (key : Int64) : Bytes := Bytes.toLe 8 key.toBitVec.toNat

section Writing

/-- `buf[off..off + n].copy_from_slice(..)` for one item after another. Gives the offset behind
the last one. -/
def putItems {α : Type} (write : α → Bytes) :
    List α → ℕ → PageData → Except Failure (ℕ × PageData)
  | [], offset, buffer => .ok (offset, buffer)
  | item :: items, offset, buffer => do
      let buffer ← buffer.copyFromSlice offset (write item)
      putItems write items (offset + (write item).length) buffer

/-- The loop over the keys of a leaf; `rids[i]` panics if there is no such record id. -/
def putEntries : List Int64 → List Rid → ℕ → PageData → Except Failure PageData
  | [], _, _, buffer => .ok buffer
  | key :: keys, rids, offset, buffer => do
      let buffer ← buffer.copyFromSlice offset (keyBytes key)
      match rids with
      | [] => .error (.panic .outOfBounds)
      | rid :: rids => do
          let buffer ← buffer.copyFromSlice (offset + 8) (Bytes.toLe 4 rid.pageId.toNat)
          let buffer ← buffer.copyFromSlice (offset + 12) (Bytes.toLe 2 rid.slotId.toNat)
          putEntries keys rids (offset + 14) buffer

/-- Serialize a node into `PAGE_SIZE` bytes. -/
def toBytes : BTreeNode Int64 Rid → Except Failure Bytes
  | .internal node => do
      let buffer ← PageData.copyFromSlice Memory.zeroed 0 [0]
      let buffer ← buffer.copyFromSlice 1 (Bytes.toLe 4 node.keys.length)
      let (offset, buffer) ← putItems (Bytes.toLe 4) node.children 5 buffer
      let (_, buffer) ← putItems keyBytes node.keys offset buffer
      return buffer.window 0 pageSize
  | .leaf node => do
      let buffer ← PageData.copyFromSlice Memory.zeroed 0 [1]
      let buffer ← buffer.copyFromSlice 1 (Bytes.toLe 4 node.keys.length)
      let buffer ← buffer.copyFromSlice 5 (Bytes.toLe 4 (node.nextLeaf.getD noSibling))
      let buffer ← putEntries node.keys node.rids 9 buffer
      return buffer.window 0 pageSize

end Writing

section Reading

/-- `data[off..off + n]`; the state holds the bytes from `off` on. -/
def readSlice (length : ℕ) : Fallible Failure Bytes Bytes := fun bytes =>
  if length ≤ bytes.length then (.ok (bytes.take length), bytes.drop length)
  else (.error (.panic .outOfBounds), bytes)

def readU32 : Fallible Failure Bytes ℕ := do
  let bytes ← readSlice 4
  return Bytes.ofLe bytes

def readKey : Fallible Failure Bytes Int64 := do
  let bytes ← readSlice 8
  return Int64.ofBitVec (BitVec.ofNat 64 (Bytes.ofLe bytes))

def readEntry : Fallible Failure Bytes (Int64 × Rid) := do
  let key ← readKey
  let pageId ← readU32
  let slotId ← readSlice 2
  return (key, ⟨UInt32.ofNat pageId, UInt16.ofNat (Bytes.ofLe slotId)⟩)

def readNode : Fallible Failure Bytes (BTreeNode Int64 Rid) := do
  let nodeType ← readSlice 1
  let count ← readU32
  if nodeType = [0] then do
    let children ← Fallible.times (count + 1) readU32
    let keys ← Fallible.times count readKey
    return .internal ⟨keys, children⟩
  else do
    let next ← readU32
    let entries ← Fallible.times count readEntry
    return .leaf ⟨entries.map Prod.fst, entries.map Prod.snd,
      if next = noSibling then none else some next⟩

/-- Deserialize a node from the bytes of a page. -/
def fromBytes (data : Bytes) : Except Failure (BTreeNode Int64 Rid) := (readNode data).1

end Reading

/-- A node is written into the bytes of one page, which read back as the node. -/
def RoundTrips (node : BTreeNode Int64 Rid) : Prop :=
  ∃ bytes, node.toBytes = .ok bytes ∧ bytes.length = pageSize ∧ fromBytes bytes = .ok node

section Layout

/-- The bytes of an entry of a leaf. -/
def entryBytes (entry : Int64 × Rid) : Bytes :=
  keyBytes entry.1 ++ (Bytes.toLe 4 entry.2.pageId.toNat ++ Bytes.toLe 2 entry.2.slotId.toNat)

/-- What stands at the front of the page of a node. -/
def layout : BTreeNode Int64 Rid → Bytes
  | .internal node =>
      [0] ++ Bytes.toLe 4 node.keys.length ++ node.children.flatMap (Bytes.toLe 4) ++
        node.keys.flatMap keyBytes
  | .leaf node =>
      [1] ++ Bytes.toLe 4 node.keys.length ++ Bytes.toLe 4 (node.nextLeaf.getD noSibling) ++
        (node.keys.zip node.rids).flatMap entryBytes

@[simp]
theorem length_keyBytes (key : Int64) : (keyBytes key).length = 8 := Bytes.length_toLe _ _

@[simp]
theorem length_entryBytes (entry : Int64 × Rid) : (entryBytes entry).length = 14 := by
  simp [entryBytes]

theorem length_flatMap_const {α : Type} {write : α → Bytes} {size : ℕ}
    (fixed : ∀ item, (write item).length = size) (items : List α) :
    (items.flatMap write).length = items.length * size := by
  simp [List.length_flatMap, fixed]

variable {front : Bytes} {offset : ℕ}

/-- A write right behind what has been written. -/
theorem copyFromSlice_next {item : Bytes} (behind : offset = front.length)
    (inside : front.length + item.length ≤ pageSize) :
    PageData.copyFromSlice (Memory.zeroed.put 0 front) offset item =
      .ok (Memory.zeroed.put 0 (front ++ item)) := by
  rw [PageData.copyFromSlice, if_pos (by omega), Memory.put_append, behind, Nat.zero_add]

theorem putItems_next {α : Type} {write : α → Bytes} {items : List α}
    (behind : offset = front.length)
    (inside : front.length + (items.flatMap write).length ≤ pageSize) :
    putItems write items offset (Memory.zeroed.put 0 front) =
      .ok ((front ++ items.flatMap write).length,
        Memory.zeroed.put 0 (front ++ items.flatMap write)) := by
  induction items generalizing front offset with
  | nil => simp [putItems, behind]
  | cons item items ih =>
      rw [List.flatMap_cons, List.length_append] at inside
      have rest : putItems write items (offset + (write item).length)
          (Memory.zeroed.put 0 (front ++ write item)) = _ :=
        ih (by rw [List.length_append, behind]) (by rw [List.length_append]; omega)
      rw [putItems, copyFromSlice_next behind (by omega), List.flatMap_cons, ← List.append_assoc]
      exact rest

theorem putEntries_next {keys : List Int64} {rids : List Rid} (lengths : rids.length = keys.length)
    (behind : offset = front.length) (inside : front.length + keys.length * 14 ≤ pageSize) :
    putEntries keys rids offset (Memory.zeroed.put 0 front) =
      .ok (Memory.zeroed.put 0 (front ++ (keys.zip rids).flatMap entryBytes)) := by
  induction keys generalizing rids front offset with
  | nil => simp [putEntries]
  | cons key keys ih =>
      cases rids with
      | nil => simp at lengths
      | cons rid rids =>
          rw [List.length_cons] at inside
          have rest : putEntries keys rids (offset + 14) (Memory.zeroed.put 0
              (front ++ keyBytes key ++ Bytes.toLe 4 rid.pageId.toNat ++
                Bytes.toLe 2 rid.slotId.toNat)) = _ :=
            ih (by simpa using lengths) (by simp [behind]) (by simp; omega)
          have entry : front ++ ((key, rid) :: keys.zip rids).flatMap entryBytes =
              front ++ keyBytes key ++ Bytes.toLe 4 rid.pageId.toNat ++
                Bytes.toLe 2 rid.slotId.toNat ++ (keys.zip rids).flatMap entryBytes := by
            simp [entryBytes]
          rw [putEntries, copyFromSlice_next behind (by simp; omega)]
          dsimp only [bind, Except.bind]
          rw [copyFromSlice_next (by simp [behind]) (by simp; omega)]
          dsimp only
          rw [copyFromSlice_next (by simp [behind]) (by simp; omega), List.zip_cons_cons, entry]
          exact rest

/-- How many bytes a node takes. -/
def size : BTreeNode Int64 Rid → ℕ
  | .internal node => 5 + node.children.length * 4 + node.keys.length * 8
  | .leaf node => 9 + node.keys.length * 14

/-- The counts and the addresses of a node that can be stored. -/
def Storable : BTreeNode Int64 Rid → Prop
  | .internal node =>
      node.children.length = node.keys.length + 1 ∧ ∀ child ∈ node.children, child < 2 ^ 32
  | .leaf node =>
      node.rids.length = node.keys.length ∧ ∀ next ∈ node.nextLeaf, next < noSibling

/-- Writing a node that fits a page writes its layout and zeros. -/
theorem toBytes_eq {node : BTreeNode Int64 Rid} (storable : node.Storable)
    (fits : node.size ≤ pageSize) :
    node.toBytes = .ok ((Memory.zeroed.put 0 node.layout : PageData).window 0 pageSize) := by
  have marker (byte : UInt8) : PageData.copyFromSlice Memory.zeroed 0 [byte] =
      .ok (Memory.zeroed.put 0 [byte]) := if_pos (show 0 + 1 ≤ 4096 by decide)
  have count (byte : UInt8) (number : ℕ) :
      PageData.copyFromSlice (Memory.zeroed.put 0 [byte]) 1 (Bytes.toLe 4 number) =
        .ok (Memory.zeroed.put 0 ([byte] ++ Bytes.toLe 4 number)) :=
    copyFromSlice_next rfl (by simp [pageSize])
  cases node with
  | internal node =>
      have children := length_flatMap_const (Bytes.length_toLe 4) node.children
      have keys := length_flatMap_const length_keyBytes node.keys
      rw [size] at fits
      rw [toBytes, marker]
      dsimp only [bind, Except.bind]
      rw [count]
      dsimp only
      rw [putItems_next (by simp) (by simp [children]; omega)]
      dsimp only
      rw [putItems_next rfl (by simp [children, keys]; omega)]
      rfl
  | leaf node =>
      rw [size] at fits
      rw [toBytes, marker]
      dsimp only [bind, Except.bind]
      rw [count]
      dsimp only
      rw [copyFromSlice_next (by simp) (by simp; omega)]
      dsimp only
      rw [putEntries_next storable.1 (by simp) (by simp; omega)]
      rfl

theorem readSlice_append {length : ℕ} (whole : front.length = length) (rest : Bytes) :
    readSlice length (front ++ rest) = (.ok front, rest) := by
  subst whole
  simp [readSlice]

theorem readU32_append {number : ℕ} (fits : number < 2 ^ 32) (rest : Bytes) :
    readU32 (Bytes.toLe 4 number ++ rest) = (.ok number, rest) := by
  rw [readU32, Fallible.bind_ok (readSlice_append (Bytes.length_toLe _ _) rest)]
  rw [Bytes.ofLe_toLe_of_lt fits]
  rfl

theorem readKey_append (key : Int64) (rest : Bytes) :
    readKey (keyBytes key ++ rest) = (.ok key, rest) := by
  have decoded : Bytes.ofLe (keyBytes key) = key.toBitVec.toNat :=
    Bytes.ofLe_toLe_of_lt (lt_of_lt_of_le key.toBitVec.isLt (by norm_num))
  rw [readKey, Fallible.bind_ok (readSlice_append (length_keyBytes key) rest), decoded]
  simp

theorem readEntry_append (entry : Int64 × Rid) (rest : Bytes) :
    readEntry (entryBytes entry ++ rest) = (.ok entry, rest) := by
  rw [entryBytes, List.append_assoc, List.append_assoc, readEntry,
    Fallible.bind_ok (readKey_append entry.1 _),
    Fallible.bind_ok (readU32_append entry.2.pageId.toNat_lt _),
    Fallible.bind_ok (readSlice_append (Bytes.length_toLe _ _) _), UInt32.ofNat_toNat,
    ofLe_toLe_uint16]
  rfl

/-- The layout of a node reads back with anything after it. -/
theorem readNode_layout {node : BTreeNode Int64 Rid} (storable : node.Storable)
    (fits : node.size ≤ pageSize) (rest : Bytes) :
    readNode (node.layout ++ rest) = (.ok node, rest) := by
  have marker (byte : UInt8) (rest : Bytes) :
      readSlice 1 ([byte] ++ rest) = (.ok [byte], rest) := by
    simp [readSlice]
  cases node with
  | internal node =>
      have small : node.keys.length < 2 ^ 32 := by
        simp only [size, pageSize] at fits
        omega
      have children := Fallible.times_flatMap (fun child isChild rest =>
        readU32_append (storable.2 child isChild) rest) (node.keys.flatMap keyBytes ++ rest)
      have keys := Fallible.times_flatMap (fun key (_ : key ∈ node.keys) rest =>
        readKey_append key rest) rest
      rw [List.map_id'] at children keys
      rw [layout, List.append_assoc, List.append_assoc, List.append_assoc, readNode,
        Fallible.bind_ok (marker 0 _), Fallible.bind_ok (readU32_append small _), if_pos rfl,
        ← storable.1, Fallible.bind_ok children, Fallible.bind_ok keys]
      rfl
  | leaf node =>
      have small : node.keys.length < 2 ^ 32 := by
        simp only [size, pageSize] at fits
        omega
      have paired : (node.keys.zip node.rids).length = node.keys.length := by
        rw [List.length_zip, storable.1, Nat.min_self]
      have entries := Fallible.times_flatMap
        (fun entry (_ : entry ∈ node.keys.zip node.rids) rest =>
        readEntry_append entry rest) rest
      rw [List.map_id', paired] at entries
      have sibling : node.nextLeaf.getD noSibling < 2 ^ 32 := by
        cases next : node.nextLeaf with
        | none => decide
        | some next' => exact (storable.2 next' next).trans (by decide)
      have same : (if node.nextLeaf.getD noSibling = noSibling then none
          else some (node.nextLeaf.getD noSibling)) = node.nextLeaf := by
        cases next : node.nextLeaf with
        | none => rfl
        | some next' => exact if_neg (storable.2 next' next).ne
      rw [layout, List.append_assoc, List.append_assoc, List.append_assoc, readNode,
        Fallible.bind_ok (marker 1 _), Fallible.bind_ok (readU32_append small _),
        if_neg (by decide), Fallible.bind_ok (readU32_append sibling _), Fallible.bind_ok entries,
        same, List.map_fst_zip storable.1.ge, List.map_snd_zip storable.1.le]
      rfl

theorem length_layout {node : BTreeNode Int64 Rid} (storable : node.Storable) :
    node.layout.length = node.size := by
  cases node with
  | internal node =>
      have children := length_flatMap_const (Bytes.length_toLe 4) node.children
      have keys := length_flatMap_const length_keyBytes node.keys
      simp only [layout, size, List.length_append, List.length_singleton, Bytes.length_toLe,
        children, keys]
  | leaf node =>
      have entries := length_flatMap_const length_entryBytes (node.keys.zip node.rids)
      rw [List.length_zip, storable.1, Nat.min_self] at entries
      simp only [layout, size, List.length_append, List.length_singleton, Bytes.length_toLe,
        entries]

theorem Storable.roundTrips {node : BTreeNode Int64 Rid} (storable : node.Storable)
    (fits : node.size ≤ pageSize) : node.RoundTrips := by
  refine ⟨_, toBytes_eq storable fits, Memory.length_window _ _ _, ?_⟩
  have shorter : node.layout.length ≤ pageSize := (length_layout storable).trans_le fits
  rw [Memory.window_put_front _ (by simp) shorter, fromBytes, readNode_layout storable fits]

end Layout

end BTreeNode

namespace BTree

variable {Key Value : Type} {tree : BTree Key Value}

section Dense

/-- The addresses in use are those below the next one. -/
def Dense (tree : BTree Key Value) : Prop := ∀ id, id ∈ tree.nodes ↔ id < tree.nextPageId

theorem dense_new : (new : BTree Key Value).Dense := by
  intro id
  rw [new, mem_allocPage]
  simp [allocPage]

theorem Dense.allocPage (dense : tree.Dense) (node : BTreeNode Key Value) :
    (allocPage node tree).2.Dense := by
  intro id
  rw [mem_allocPage, dense id]
  simp only [BTree.allocPage]
  omega

theorem Dense.store (dense : tree.Dense) {pageId : ℕ} (inside : pageId < tree.nextPageId)
    (node : BTreeNode Key Value) : (tree.store pageId node).Dense := by
  intro id
  rw [mem_store, dense id]
  simp only [BTree.store]
  omega

/-- What a call below the root leaves behind. -/
structure Grown (tree tree' : BTree Key Value) : Prop where
  dense : tree'.Dense
  nextPageId : tree.nextPageId ≤ tree'.nextPageId

theorem Grown.store {tree' : BTree Key Value} (grown : Grown tree tree') {pageId : ℕ}
    (inside : pageId < tree.nextPageId) (node : BTreeNode Key Value) :
    Grown tree (tree'.store pageId node) :=
  ⟨grown.dense.store (inside.trans_le grown.nextPageId) node, grown.nextPageId⟩

theorem Grown.allocPage {tree' : BTree Key Value} (grown : Grown tree tree')
    (node : BTreeNode Key Value) : Grown tree (BTree.allocPage node tree').2 :=
  ⟨grown.dense.allocPage node, grown.nextPageId.trans (Nat.le_succ _)⟩

variable [LinearOrder Key]

theorem Dense.insertRecursive (dense : tree.Dense) (key : Key) (value : Value) (fuel id : ℕ) :
    Grown tree (insertRecursive key value fuel id tree).2 := by
  have same : Grown tree tree := ⟨dense, le_refl _⟩
  induction fuel generalizing id with
  | zero => exact same
  | succ fuel ih =>
      rw [BTree.insertRecursive]
      rcases found : tree.nodes.lookup id with _ | internal | leaf
      · exact same
      · have inside : id < tree.nextPageId :=
          (dense id).mp (AList.lookup_isSome.mp (by simp [found]))
        dsimp only
        split
        · exact same
        · next child _ =>
          have below := ih child
          generalize BTree.insertRecursive key value fuel child tree = outcome at below ⊢
          rcases outcome with ⟨_ | split, tree'⟩
          · exact below.store inside _
          · dsimp only
            split
            · exact (below.allocPage _).store inside _
            · exact below.store inside _
      · have inside : id < tree.nextPageId :=
          (dense id).mp (AList.lookup_isSome.mp (by simp [found]))
        dsimp only
        split
        · exact (same.allocPage _).store inside _
        · exact same.store inside _

theorem Dense.apply (dense : tree.Dense) (operation : Operation Key Value) :
    (operation.apply tree).Dense := by
  cases operation with
  | insert key value =>
      have grown := dense.insertRecursive key value tree.fuel tree.rootId
      rw [Operation.apply, BTree.insert]
      generalize BTree.insertRecursive key value tree.fuel tree.rootId tree = outcome at grown ⊢
      rcases outcome with ⟨_ | split, tree'⟩
      · exact grown.dense
      · exact grown.dense.allocPage _
  | delete key =>
      rw [Operation.apply, BTree.delete]
      split
      · next leaf found =>
        have inside : tree.findLeaf key tree.fuel tree.rootId < tree.nextPageId :=
          (dense _).mp (AList.lookup_isSome.mp (by simp [found]))
        split
        · exact dense.store inside _
        · exact dense
      · exact dense

theorem dense_foldl_apply (operations : List (Operation Key Value)) :
    (operations.foldl Operation.apply new).Dense :=
  List.foldlRecOn operations _ (motive := Dense) dense_new fun _ dense operation _ =>
    dense.apply operation

omit [LinearOrder Key] in
/-- A tree has handed out no more addresses than it has nodes. -/
theorem Dense.nextPageId_le (dense : tree.Dense) : tree.nextPageId ≤ tree.nodes.keys.length := by
  have inside : List.range tree.nextPageId ⊆ tree.nodes.keys := fun id isBelow =>
    (dense id).mpr (List.mem_range.mp isBelow)
  simpa using (List.nodup_range.subperm inside).length_le

end Dense

/-- Every node of a tree that insertions and deletions have made, with fewer than `2^32 - 1` nodes,
is stored in a page and read back. -/
theorem roundTrips_foldl_apply (operations : List (Operation Int64 Rid)) {id : ℕ}
    {node : BTreeNode Int64 Rid}
    (few : (operations.foldl Operation.apply new).nodes.keys.length < 2 ^ 32 - 1)
    (found : (operations.foldl Operation.apply new).nodes.lookup id = some node) :
    node.RoundTrips := by
  have wellFormed := wellFormed_foldl_apply operations
  have dense := dense_foldl_apply operations
  generalize operations.foldl Operation.apply new = tree at few found wellFormed dense
  have address {other : ℕ} (isNode : other ∈ tree.nodes) : other < BTreeNode.noSibling :=
    ((dense other).mp isNode).trans (dense.nextPageId_le.trans_lt few)
  have small := wellFormed.small id node found
  rw [show 2 * order - 1 = 7 from rfl] at small
  cases node with
  | internal node =>
      have arity := (wellFormed.internal id node found).2
      refine BTreeNode.Storable.roundTrips ⟨arity, fun child isChild => ?_⟩ ?_
      · have listed : child ∈ childrenOf tree.nodes id := by
          simpa [childrenOf, found, BTreeNode.children] using isChild
        exact (address (wellFormed.present id child listed)).trans (by decide)
      · simp only [BTreeNode.keys] at small
        simp only [BTreeNode.size, pageSize, arity]
        omega
  | leaf node =>
      refine BTreeNode.Storable.roundTrips ⟨wellFormed.leaf id node found, fun next isNext => ?_⟩ ?_
      · rcases List.mem_iff_getElem?.mp ((wellFormed.leaves id).mpr ⟨node, found⟩) with
          ⟨index, isAt⟩
        rcases wellFormed.chained index id isAt with ⟨leaf, found', follows⟩
        obtain rfl : node = leaf := by simpa [found] using found'
        have listed := List.mem_of_getElem? (follows.symm.trans isNext)
        rcases (wellFormed.leaves next).mp listed with ⟨leaf, isLeaf⟩
        exact address (AList.lookup_isSome.mp (by simp [isLeaf]))
      · simp only [BTreeNode.keys] at small
        simp only [BTreeNode.size, pageSize]
        omega

namespace Sample

/-- Eight insertions split the first leaf. -/
def split : List (Operation Int64 Rid) :=
  [3, 1, 4, 8, 5, 9, 2, 6].map fun key => .insert key ⟨0, key.toUInt64.toUInt16⟩

end Sample

/-- The root above the two leaves. -/
theorem roundTrips_split : (BTreeNode.internal ⟨[5], [0, 1]⟩).RoundTrips :=
  roundTrips_foldl_apply Sample.split (by decide +kernel)
    (show (Sample.split.foldl Operation.apply new).nodes.lookup 2 = some _ from rfl)

end BTree

end VenomDb.Index
