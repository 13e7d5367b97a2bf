import VenomDb.Index.Shape

/-!
# Inserting into a B-tree

`Inserted` is what `insert_recursive` does to a subtree: one more entry, either in a
subtree of the same range or, after a split, in two subtrees around the promoted
key, with the sibling links and all other nodes as they were.
-/

namespace VenomDb.Index

variable {Key Value : Type}

section Nodes

variable {tree : BTree Key Value} {id other : ℕ} {node : BTreeNode Key Value}

@[simp]
theorem lookup_store_self : (tree.store id node).nodes.lookup id = some node := by
  simp [BTree.store]

theorem lookup_store_of_ne (ne : other ≠ id) :
    (tree.store id node).nodes.lookup other = tree.nodes.lookup other := by
  simp [BTree.store, AList.lookup_insert_ne ne]

theorem mem_store : other ∈ (tree.store id node).nodes ↔ other = id ∨ other ∈ tree.nodes :=
  AList.mem_insert tree.nodes

theorem mem_allocPage :
    other ∈ (BTree.allocPage node tree).2.nodes ↔ other = tree.nextPageId ∨ other ∈ tree.nodes :=
  AList.mem_insert tree.nodes

/-- Storing a node at a new address and then one at an old address. -/
theorem lookup_store_allocPage {leftId : ℕ} (node right : BTreeNode Key Value)
    (old : leftId < tree.nextPageId) :
    let tree' := (BTree.allocPage right tree).2.store leftId node
    tree'.nodes.lookup leftId = some node ∧ tree'.nodes.lookup tree.nextPageId = some right ∧
      ∀ other, other ≠ leftId → other ≠ tree.nextPageId →
        tree'.nodes.lookup other = tree.nodes.lookup other := by
  refine ⟨lookup_store_self, ?_, fun other ne fresh => ?_⟩
  · rw [lookup_store_of_ne (by omega)]
    simp [BTree.allocPage]
  · rw [lookup_store_of_ne ne]
    simp [BTree.allocPage, AList.lookup_insert_ne fresh]

end Nodes

section Leaf

theorem zip_insertIdx (position : ℕ) {key : Key} {value : Value} {keys : List Key}
    {values : List Value} (lengths : keys.length = values.length) :
    (keys.insertIdx position key).zip (values.insertIdx position value) =
      (keys.zip values).insertIdx position (key, value) := by
  induction position generalizing keys values with
  | zero => simp
  | succ position ih =>
      cases keys with
      | nil =>
          obtain rfl : values = [] := by simpa using lengths.symm
          simp
      | cons first keys =>
          cases values with
          | nil => simp at lengths
          | cons firstValue values =>
              simp only [List.insertIdx_succ_cons, List.zip_cons_cons]
              rw [ih (by simpa using lengths)]

theorem partitionPoint_le (keys : List Key) (test : Key → Bool) :
    partitionPoint keys test ≤ keys.length := (List.takeWhile_prefix test).length_le

variable [LinearOrder Key] {precedes : Key → Key → Prop} [Ascending precedes]

/-- A new key goes to the place that keeps the keys sorted. -/
theorem sorted_insertIdx {keys : List Key} {key : Key} (sorted : keys.Pairwise precedes)
    (fits : ∀ other ∈ keys, key ≤ other → precedes key other) :
    (keys.insertIdx (partitionPoint keys fun candidate => candidate < key) key).Pairwise
      precedes := by
  induction keys with
  | nil => simp [partitionPoint]
  | cons first keys ih =>
      rw [List.pairwise_cons] at sorted
      by_cases lt : first < key
      · have index : (partitionPoint (first :: keys) fun candidate => candidate < key) =
            (partitionPoint keys fun candidate => candidate < key) + 1 := by
          simp [partitionPoint, lt]
        rw [index, List.insertIdx_succ_cons, List.pairwise_cons]
        refine ⟨fun other inside => ?_,
          ih sorted.2 fun other inside => fits other (List.mem_cons_of_mem _ inside)⟩
        rcases List.eq_or_mem_of_mem_insertIdx inside with rfl | old
        · exact Ascending.of_lt lt
        · exact sorted.1 other old
      · have index : (partitionPoint (first :: keys) fun candidate => candidate < key) = 0 := by
          simp [partitionPoint, lt]
        have above : precedes key first := fits first List.mem_cons_self (not_lt.mp lt)
        rw [index, List.insertIdx_zero, List.pairwise_cons, List.pairwise_cons]
        refine ⟨fun other inside => ?_, sorted⟩
        rcases List.mem_cons.mp inside with rfl | old
        · exact above
        · exact Ascending.trans above (sorted.1 other old)

variable {leaf : LeafNode Key Value} {low high : Option Key} {key : Key}

/-- A leaf with one more entry. -/
def LeafNode.insert (leaf : LeafNode Key Value) (key : Key) (value : Value) : LeafNode Key Value :=
  let position := partitionPoint leaf.keys fun candidate => candidate < key
  { leaf with
    keys := leaf.keys.insertIdx position key
    rids := leaf.rids.insertIdx position value }

omit [Ascending precedes] in
theorem LeafNode.length_insert (leaf : LeafNode Key Value) (key : Key) (value : Value) :
    (leaf.insert key value).keys.length = leaf.keys.length + 1 :=
  List.length_insertIdx_of_le_length (partitionPoint_le _ _) _

theorem LeafNode.Valid.insert (valid : leaf.Valid precedes low high) (value : Value)
    (within : Within precedes low high key)
    (fits : ∀ other ∈ leaf.keys, key ≤ other → precedes key other) :
    (leaf.insert key value).Valid precedes low high where
  lengths := by
    have bound := partitionPoint_le leaf.keys fun candidate => candidate < key
    rw [LeafNode.insert, List.length_insertIdx_of_le_length bound,
      List.length_insertIdx_of_le_length (valid.lengths ▸ bound), valid.lengths]
  sorted := sorted_insertIdx valid.sorted fits
  within := by
    intro other inside
    rcases List.eq_or_mem_of_mem_insertIdx inside with rfl | old
    · exact within
    · exact valid.within other old

omit [Ascending precedes] in
theorem LeafNode.Valid.entries_insert (valid : leaf.Valid precedes low high) (key : Key)
    (value : Value) :
    (leaf.insert key value).entries.Perm ((key, value) :: leaf.entries) := by
  rw [LeafNode.entries, LeafNode.insert, zip_insertIdx _ valid.lengths]
  apply List.perm_insertIdx
  rw [List.length_zip, ← valid.lengths, min_self]
  exact partitionPoint_le _ _

omit [Ascending precedes] in
theorem LeafNode.mem_keys (valid : leaf.Valid precedes low high) :
    key ∈ leaf.keys ↔ ∃ value, (key, value) ∈ leaf.entries := by
  have keys : leaf.entries.map Prod.fst = leaf.keys := List.map_fst_zip (by rw [valid.lengths])
  rw [← keys]
  simp

/-- The two halves of a full leaf. -/
theorem LeafNode.Valid.halves (valid : leaf.Valid precedes low high) (full : leaf.isFull = true)
    (next next' : Option ℕ) :
    ∃ separator, (leaf.keys.drop (leaf.keys.length / 2)).head? = some separator ∧
      Separates precedes low high separator ∧
      LeafNode.Valid precedes ⟨leaf.keys.take (leaf.keys.length / 2),
        leaf.rids.take (leaf.keys.length / 2),
        next⟩ low (some separator) ∧
      LeafNode.Valid precedes ⟨leaf.keys.drop (leaf.keys.length / 2),
        leaf.rids.drop (leaf.keys.length / 2),
        next'⟩ (some separator) high := by
  have size : 8 ≤ leaf.keys.length := by
    have bound : 2 * order ≤ leaf.keys.length := of_decide_eq_true full
    simpa [order] using bound
  set mid := leaf.keys.length / 2 with midEq
  have bound : mid < leaf.keys.length := by omega
  have parts : (leaf.keys.take mid ++ leaf.keys.drop mid).Pairwise precedes := by
    rw [List.take_append_drop]
    exact valid.sorted
  rw [List.pairwise_append] at parts
  rcases parts with ⟨leftSorted, rightSorted, across⟩
  obtain ⟨separator, rest, right⟩ : ∃ separator rest, leaf.keys.drop mid = separator :: rest :=
    ⟨_, _, List.drop_eq_getElem_cons bound⟩
  have isRight : separator ∈ leaf.keys.drop mid := by simp [right]
  have isKey : separator ∈ leaf.keys := List.mem_of_mem_drop isRight
  refine ⟨separator, by simp [right], ⟨fun least isLow => ?_, (valid.within _ isKey).2⟩,
    ⟨by simp [valid.lengths], leftSorted, fun key inside => ?_⟩,
    ⟨by simp [valid.lengths], rightSorted, fun key inside => ?_⟩⟩
  · -- the left half is not empty, so the promoted key is above the lower bound
    obtain ⟨first, isFirst⟩ : ∃ first, first ∈ leaf.keys.take mid := by
      apply List.exists_mem_of_length_pos
      rw [List.length_take]
      omega
    exact Ascending.le_trans ((valid.within first (List.mem_of_mem_take isFirst)).1 least isLow)
      (across first isFirst separator isRight)
  · refine ⟨(valid.within key (List.mem_of_mem_take inside)).1, fun bound isHigh => ?_⟩
    obtain rfl : separator = bound := by simpa using isHigh
    exact across key inside separator isRight
  · refine ⟨fun bound isLow => ?_, (valid.within key (List.mem_of_mem_drop inside)).2⟩
    obtain rfl : separator = bound := by simpa using isLow
    rw [right] at inside rightSorted
    rcases List.mem_cons.mp inside with rfl | later
    · exact le_refl _
    · exact Ascending.le ((List.pairwise_cons.mp rightSorted).1 key later)

end Leaf

section Insert

variable [LinearOrder Key] {precedes : Key → Key → Prop}

/-- What an insertion changes outside of a subtree with the addresses `ids`: nothing but that new
nodes appear. -/
structure Extends (tree tree' : BTree Key Value) (ids ids' : List ℕ) : Prop where
  rootId : tree'.rootId = tree.rootId
  nextPageId : tree.nextPageId ≤ tree'.nextPageId
  frame : ∀ id, id ∉ ids → id < tree.nextPageId → tree'.nodes.lookup id = tree.nodes.lookup id
  addresses : ∀ id ∈ ids', id ∈ ids ∨ tree.nextPageId ≤ id
  bounded : ∀ id ∈ ids', id < tree'.nextPageId
  nodup : ids'.Nodup
  covered : ∀ id ∈ tree'.nodes, id ∈ tree.nodes ∨ id ∈ ids'

variable (precedes) in
/-- The outcome of an insertion into a subtree. -/
structure Inserted (tree tree' : BTree Key Value) (split : Option (SplitResult Key)) (key : Key)
    (value : Value) (depth : ℕ) (low high : Option Key) (id : ℕ) (leaves : List (Leaf Key Value))
    (ids : List ℕ) (leaves' : List (Leaf Key Value)) (ids' : List ℕ) : Prop where
  extension : Extends tree tree' ids ids'
  kept : ∀ id ∈ ids, id ∈ ids'
  content : (entries leaves').Perm ((key, value) :: entries leaves)
  linked : ∀ after, Linked tree.nodes leaves after → Linked tree'.nodes leaves' after
  first : ∀ after, firstLeaf leaves' after = firstLeaf leaves after
  shape : match split with
    | none => Shape precedes tree'.nodes depth low high id leaves' ids'
    | some split => ∃ left right leftIds rightIds, leaves' = left ++ right ∧
        ids' = leftIds ++ rightIds ∧ Separates precedes low high split.promotedKey ∧
        Shape precedes tree'.nodes depth low (some split.promotedKey) id left leftIds ∧
        Shape precedes tree'.nodes depth (some split.promotedKey) high split.newPageId right
          rightIds

variable [Ascending precedes] {tree : BTree Key Value} {key : Key} {low high : Option Key} {id : ℕ}

omit [Ascending precedes] in
theorem insertRecursive_of_leaf (value : Value) {leaf : LeafNode Key Value} (fuel : ℕ)
    (found : tree.nodes.lookup id = some (.leaf leaf)) :
    BTree.insertRecursive key value (fuel + 1) id tree =
      if (leaf.insert key value).isFull then BTree.splitLeaf id (leaf.insert key value) tree
      else (none, tree.store id (.leaf (leaf.insert key value))) := by
  simp only [BTree.insertRecursive, found]
  rfl

/-- Insertion into a leaf. -/
theorem insertRecursive_leaf (value : Value) {leaf : LeafNode Key Value} (fuel : ℕ)
    (found : tree.nodes.lookup id = some (.leaf leaf)) (valid : leaf.Valid precedes low high)
    (small : leaf.keys.length < 2 * order) (bounded : id < tree.nextPageId)
    (within : Within precedes low high key)
    (fits : ∀ entry ∈ leaf.entries, key ≤ entry.1 → precedes key entry.1) :
    ∃ split tree' leaves' ids',
      BTree.insertRecursive key value (fuel + 1) id tree = (split, tree') ∧
      Inserted precedes tree tree' split key value 0 low high id [(id, leaf.entries)]
        [id] leaves' ids' := by
  have valid' : (leaf.insert key value).Valid precedes low high := by
    refine valid.insert value within fun other inside => ?_
    rcases (LeafNode.mem_keys valid).mp inside with ⟨otherValue, isEntry⟩
    exact fits _ isEntry
  have longer := leaf.length_insert key value
  have content := valid.entries_insert key value
  by_cases full : (leaf.insert key value).isFull = true
  · let leaf' := leaf.insert key value
    let mid := leaf'.keys.length / 2
    let left : LeafNode Key Value :=
      ⟨leaf'.keys.take mid, leaf'.rids.take mid, some tree.nextPageId⟩
    let right : LeafNode Key Value := ⟨leaf'.keys.drop mid, leaf'.rids.drop mid, leaf.nextLeaf⟩
    let tree' := (BTree.allocPage (.leaf right) tree).2.store id (.leaf left)
    rcases valid'.halves full (some tree.nextPageId) leaf.nextLeaf with
      ⟨separator, promoted, separates, leftValid, rightValid⟩
    rcases lookup_store_allocPage (.leaf left) (.leaf right) bounded with
      ⟨foundLeft, foundRight, frame⟩
    have smallLeft : left.keys.length < 2 * order := by
      simp only [order, left, mid, leaf', List.length_take] at small ⊢
      omega
    have smallRight : right.keys.length < 2 * order := by
      simp only [order, right, mid, leaf', List.length_drop] at small ⊢
      omega
    have halves : left.entries ++ right.entries = leaf'.entries := by
      simp only [LeafNode.entries, left, right, List.zip, ← List.take_zipWith, ← List.drop_zipWith,
        List.take_append_drop]
    refine ⟨some ⟨separator, tree.nextPageId⟩, tree',
      [(id, left.entries), (tree.nextPageId, right.entries)], [id, tree.nextPageId], ?_,
      ⟨rfl, ?_, ?_, ?_, ?_, ?_, ?_⟩, ?_, ?_, ?_, ?_, ?_⟩
    · rw [insertRecursive_of_leaf value fuel found, if_pos full]
      simp only [BTree.splitLeaf, promoted, Option.map_some]
      rfl
    · simp [tree', BTree.store, BTree.allocPage]
    · intro other outside old
      exact frame other (by simpa using outside) (by omega)
    · simp
    · simp [tree', BTree.store, BTree.allocPage]
      omega
    · simp
      omega
    · intro other inside
      rw [mem_store, mem_allocPage] at inside
      simp only [List.mem_cons, List.not_mem_nil, or_false]
      tauto
    · simp
    · simpa [halves] using content
    · rintro after ⟨⟨node, nodeFound, -, next⟩, -⟩
      obtain rfl : leaf = node := by simpa [found] using nodeFound
      exact ⟨⟨left, foundLeft, rfl, rfl⟩, ⟨right, foundRight, rfl, next⟩, trivial⟩
    · intro after
      rfl
    · exact ⟨[(id, left.entries)], [(tree.nextPageId, right.entries)], [id], [tree.nextPageId], rfl,
        rfl, separates, ⟨left, foundLeft, leftValid, smallLeft, rfl, rfl⟩,
        ⟨right, foundRight, rightValid, smallRight, rfl, rfl⟩⟩
  · have notFull : (leaf.insert key value).keys.length < 2 * order := by
      simpa [LeafNode.isFull] using full
    refine ⟨none, tree.store id (.leaf (leaf.insert key value)),
      [(id, (leaf.insert key value).entries)], [id], ?_,
      ⟨rfl, le_refl _, ?_, ?_, ?_, ?_, ?_⟩, ?_, ?_, ?_, ?_, ?_⟩
    · rw [insertRecursive_of_leaf value fuel found, if_neg full]
    · intro other outside _
      exact lookup_store_of_ne (by simpa using outside)
    · simp
    · simpa [BTree.store] using bounded
    · simp
    · intro other inside
      rw [mem_store] at inside
      simp only [List.mem_singleton]
      tauto
    · simp
    · simpa using content
    · rintro after ⟨⟨node, nodeFound, -, next⟩, -⟩
      obtain rfl : leaf = node := by simpa [found] using nodeFound
      exact ⟨⟨leaf.insert key value, lookup_store_self, rfl, next⟩, trivial⟩
    · intro after
      rfl
    · exact ⟨leaf.insert key value, lookup_store_self, valid', notFull, rfl, rfl⟩

omit [LinearOrder Key] [Ascending precedes] in
/-- The addresses of a row after an insertion into one of its children. -/
theorem Extends.row {tree' : BTree Key Value} {beforeIds middleIds afterIds middleIds' : List ℕ}
    (extension : Extends tree tree' middleIds middleIds')
    (nodup : (id :: (beforeIds ++ (middleIds ++ afterIds))).Nodup)
    (bounded : ∀ other ∈ id :: (beforeIds ++ (middleIds ++ afterIds)), other < tree.nextPageId) :
    Extends tree tree' (id :: (beforeIds ++ (middleIds ++ afterIds)))
        (beforeIds ++ (middleIds' ++ afterIds)) ∧
      id ∉ beforeIds ++ (middleIds' ++ afterIds) := by
  simp only [List.nodup_cons, List.nodup_append, List.mem_append, List.mem_cons, not_or, ne_eq]
    at nodup bounded
  rcases nodup with ⟨⟨notBefore, notMiddle, notAfter⟩, beforeNodup, ⟨-, afterNodup, middleAfter⟩,
    beforeOthers⟩
  have notFresh : ∀ other, other < tree.nextPageId → other ∉ middleIds → other ∉ middleIds' := by
    intro other old outside inside
    rcases extension.addresses other inside with isMiddle | fresh
    · exact outside isMiddle
    · omega
  refine ⟨⟨extension.rootId, extension.nextPageId, fun other outside old => ?_,
    fun other inside => ?_, fun other inside => ?_, ?_, fun other inside => ?_⟩, ?_⟩
  · simp only [List.mem_cons, List.mem_append, not_or] at outside
    exact extension.frame other outside.2.2.1 old
  · simp only [List.mem_append] at inside
    rcases inside with isBefore | isMiddle | isAfter
    · simp [isBefore]
    · rcases extension.addresses other isMiddle with old | fresh
      · simp [old]
      · exact .inr fresh
    · simp [isAfter]
  · simp only [List.mem_append] at inside
    rcases inside with isBefore | isMiddle | isAfter
    · exact lt_of_lt_of_le (bounded other (by simp [isBefore])) extension.nextPageId
    · exact extension.bounded other isMiddle
    · exact lt_of_lt_of_le (bounded other (by simp [isAfter])) extension.nextPageId
  · simp only [List.nodup_append, List.mem_append, ne_eq]
    refine ⟨beforeNodup, ⟨extension.nodup, afterNodup, ?_⟩, ?_⟩
    · rintro left isMiddle right isAfter rfl
      exact notFresh left (bounded left (by simp [isAfter]))
        (fun old => middleAfter left old left isAfter rfl) isMiddle
    · rintro left isBefore right (isMiddle | isAfter) rfl
      · exact notFresh left (bounded left (by simp [isBefore]))
          (fun old => beforeOthers left isBefore left (.inl old) rfl) isMiddle
      · exact beforeOthers left isBefore left (.inr isAfter) rfl
  · exact (extension.covered other inside).imp_right fun isMiddle => by simp [isMiddle]
  · simp only [List.mem_append, not_or]
    exact ⟨notBefore, notFresh id (bounded id (by simp)) notMiddle, notAfter⟩

/-- The children of a node after an insertion into one of them, before the node is written. -/
structure Rebuilt (precedes : Key → Key → Prop) (tree tree' : BTree Key Value) (key : Key)
    (value : Value) (depth : ℕ)
    (low high : Option Key) (id : ℕ) (leaves : List (Leaf Key Value)) (ids : List ℕ)
    (keys : List Key) (children : List ℕ) (leaves' : List (Leaf Key Value)) (ids' : List ℕ) :
    Prop where
  extension : Extends tree tree' ids ids'
  self : id ∈ ids ∧ id ∉ ids' ∧ id < tree.nextPageId
  kept : ∀ other ∈ ids, other = id ∨ other ∈ ids'
  content : (entries leaves').Perm ((key, value) :: entries leaves)
  linked : ∀ after, Linked tree.nodes leaves after → Linked tree'.nodes leaves' after
  first : ∀ after, firstLeaf leaves' after = firstLeaf leaves after
  sized : 1 ≤ keys.length ∧ keys.length ≤ 2 * order
  row : Row precedes (Shape precedes tree'.nodes depth) low high keys children leaves' ids'

section Rebuilt

variable {tree' : BTree Key Value} {value : Value} {depth : ℕ}
    {leaves leaves' : List (Leaf Key Value)}
  {ids ids' : List ℕ} {keys : List Key} {children : List ℕ}

omit [Ascending precedes] in
/-- Writing the node gives the subtree back. -/
theorem Rebuilt.store
    (rebuilt : Rebuilt precedes tree tree' key value depth low high id leaves ids keys children
      leaves' ids')
    (notFull : ¬(⟨keys, children⟩ : InternalNode Key).isFull = true) :
    Inserted precedes tree (tree'.store id (.internal ⟨keys, children⟩)) none key value (depth + 1)
      low high
      id leaves ids leaves' (id :: ids') := by
  rcases rebuilt.self with ⟨inside, outside, old⟩
  have same : ∀ other ∈ ids', (tree'.store id (.internal ⟨keys, children⟩)).nodes.lookup other =
      tree'.nodes.lookup other := by
    intro other isNew
    exact lookup_store_of_ne fun eq => outside (eq ▸ isNew)
  have leafMem := rebuilt.row.leaf_mem fun shape => shape.leaf_mem
  have small : keys.length < 2 * order := by simpa [InternalNode.isFull] using notFull
  refine ⟨⟨rebuilt.extension.rootId, rebuilt.extension.nextPageId, ?_, ?_, ?_, ?_, ?_⟩, ?_,
    rebuilt.content, fun after links => ?_, rebuilt.first, ?_⟩
  · intro other notOld bound
    have ne : other ≠ id := fun eq => notOld (eq ▸ inside)
    rw [lookup_store_of_ne ne]
    exact rebuilt.extension.frame other notOld bound
  · intro other isNew
    rcases List.mem_cons.mp isNew with rfl | isChild
    · exact .inl inside
    · exact rebuilt.extension.addresses other isChild
  · intro other isNew
    rcases List.mem_cons.mp isNew with rfl | isChild
    · exact lt_of_lt_of_le old rebuilt.extension.nextPageId
    · exact rebuilt.extension.bounded other isChild
  · exact List.nodup_cons.mpr ⟨outside, rebuilt.extension.nodup⟩
  · intro other isNode
    rw [List.mem_cons]
    rcases mem_store.mp isNode with rfl | isNode
    · exact .inr (.inl rfl)
    · exact (rebuilt.extension.covered other isNode).imp_right .inr
  · exact fun other isOld => List.mem_cons.mpr (rebuilt.kept other isOld)
  · exact (rebuilt.linked after links).congr fun leaf isLeaf => same _ (leafMem leaf isLeaf)
  · refine ⟨⟨keys, children⟩, ids', lookup_store_self, ⟨rebuilt.sized.1, small⟩,
      rebuilt.row.imp ?_, rfl⟩
    intro low high child leaves childIds isChild shape
    exact shape.congr fun other isOther => same other (isChild other isOther)

/-- Writing the two halves of a node that has become full. -/
theorem Rebuilt.split
    (rebuilt : Rebuilt precedes tree tree' key value depth low high id leaves ids keys children
      leaves' ids')
    (full : (⟨keys, children⟩ : InternalNode Key).isFull = true) :
    ∃ split tree'' ids'', BTree.splitInternal id ⟨keys, children⟩ tree' = (some split, tree'') ∧
      Inserted precedes tree tree'' (some split) key value (depth + 1) low high id leaves ids
        leaves'
        ids'' := by
  rcases rebuilt.self with ⟨inside, outside, old⟩
  have size : 8 ≤ keys.length := by
    have bound : 2 * order ≤ keys.length := of_decide_eq_true full
    simpa [order] using bound
  have mid : keys.length / 2 < keys.length := by omega
  have division : keys = keys.take (keys.length / 2) ++
      keys[keys.length / 2] :: keys.drop (keys.length / 2 + 1) := by simp
  have row := rebuilt.row
  rw [division] at row
  rcases row.cut with ⟨leftChildren, rightChildren, left, right, leftIds, rightIds, rfl, count, rfl,
    rfl, separates, leftRow, rightRow⟩
  have cut : leftChildren.length = keys.length / 2 + 1 := by
    rw [count, List.length_take]
    omega
  let leftNode : InternalNode Key := ⟨keys.take (keys.length / 2), leftChildren⟩
  let rightNode : InternalNode Key := ⟨keys.drop (keys.length / 2 + 1), rightChildren⟩
  have atMost : keys.length ≤ 8 := rebuilt.sized.2
  have smallLeft : 1 ≤ leftNode.keys.length ∧ leftNode.keys.length < 2 * order := by
    simp only [leftNode, List.length_take, order]
    omega
  have smallRight : 1 ≤ rightNode.keys.length ∧ rightNode.keys.length < 2 * order := by
    simp only [rightNode, List.length_drop, order]
    omega
  rcases lookup_store_allocPage (.internal leftNode) (.internal rightNode)
    (lt_of_lt_of_le old rebuilt.extension.nextPageId) with ⟨foundLeft, foundRight, frame⟩
  let tree'' := (BTree.allocPage (.internal rightNode) tree').2.store id (.internal leftNode)
  have fresh : ∀ other ∈ leftIds ++ rightIds, other ≠ tree'.nextPageId := fun other isNew =>
    ne_of_lt (rebuilt.extension.bounded other isNew)
  have same : ∀ other ∈ leftIds ++ rightIds,
      tree''.nodes.lookup other = tree'.nodes.lookup other := fun other isNew =>
    frame other (fun eq => outside (eq ▸ isNew)) (fresh other isNew)
  have leafMem := rebuilt.row.leaf_mem fun shape => shape.leaf_mem
  refine ⟨⟨keys[keys.length / 2], tree'.nextPageId⟩, tree'',
    (id :: leftIds) ++ (tree'.nextPageId :: rightIds), ?_, ⟨rebuilt.extension.rootId, ?_, ?_, ?_,
      ?_, ?_, ?_⟩, ?_, rebuilt.content, fun after links => ?_, rebuilt.first, ?_⟩
  · simp only [BTree.splitInternal, List.getElem?_eq_getElem mid, Option.map_some, ← cut,
      List.drop_left, List.take_left]
    simp only [cut]
    rfl
  · exact Nat.le_succ_of_le rebuilt.extension.nextPageId
  · intro other notOld bound
    have next := rebuilt.extension.nextPageId
    rw [show tree''.nodes.lookup other = tree'.nodes.lookup other from
      frame other (fun eq => notOld (eq ▸ inside)) (by omega)]
    exact rebuilt.extension.frame other notOld bound
  · intro other isNew
    have next := rebuilt.extension.nextPageId
    simp only [List.cons_append, List.mem_cons, List.mem_append] at isNew
    rcases isNew with rfl | isLeft | rfl | isRight
    · exact .inl inside
    · exact rebuilt.extension.addresses other (List.mem_append_left _ isLeft)
    · exact .inr next
    · exact rebuilt.extension.addresses other (List.mem_append_right _ isRight)
  · intro other isNew
    have next := rebuilt.extension.nextPageId
    show other < tree'.nextPageId + 1
    simp only [List.cons_append, List.mem_cons, List.mem_append] at isNew
    rcases isNew with rfl | isLeft | rfl | isRight
    · omega
    · exact Nat.lt_succ_of_lt (rebuilt.extension.bounded other (List.mem_append_left _ isLeft))
    · omega
    · exact Nat.lt_succ_of_lt (rebuilt.extension.bounded other (List.mem_append_right _ isRight))
  · have next := rebuilt.extension.nextPageId
    have distinct : (tree'.nextPageId :: id :: (leftIds ++ rightIds)).Nodup := by
      refine List.nodup_cons.mpr ⟨?_, List.nodup_cons.mpr ⟨outside, rebuilt.extension.nodup⟩⟩
      rw [List.mem_cons, not_or]
      exact ⟨by omega, fun isNew => fresh _ isNew rfl⟩
    have moved : (id :: leftIds ++ tree'.nextPageId :: rightIds).Perm
        (tree'.nextPageId :: (id :: leftIds ++ rightIds)) := List.perm_middle
    exact moved.nodup_iff.mpr distinct
  · intro other isNode
    simp only [List.cons_append, List.mem_cons, List.mem_append]
    rcases mem_store.mp isNode with rfl | isNode
    · exact .inr (.inl rfl)
    · rcases mem_allocPage.mp isNode with rfl | isNode
      · exact .inr (.inr (.inr (.inl rfl)))
      · rcases rebuilt.extension.covered other isNode with isOld | isNew
        · exact .inl isOld
        · rcases List.mem_append.mp isNew with isLeft | isRight
          · exact .inr (.inr (.inl isLeft))
          · exact .inr (.inr (.inr (.inr isRight)))
  · intro other isOld
    have := rebuilt.kept other isOld
    simp only [List.cons_append, List.mem_cons, List.mem_append] at this ⊢
    tauto
  · exact (rebuilt.linked after links).congr fun leaf isLeaf => same _ (leafMem leaf isLeaf)
  · refine ⟨left, right, id :: leftIds, tree'.nextPageId :: rightIds, rfl, rfl, separates,
      ⟨leftNode, leftIds, foundLeft, smallLeft, leftRow.imp ?_, rfl⟩,
      ⟨rightNode, rightIds, foundRight, smallRight, rightRow.imp ?_, rfl⟩⟩
    · intro low high child leaves childIds isChild shape
      exact shape.congr fun other isOther =>
        same other (List.mem_append_left _ (isChild other isOther))
    · intro low high child leaves childIds isChild shape
      exact shape.congr fun other isOther =>
        same other (List.mem_append_right _ (isChild other isOther))

end Rebuilt

/-- Insertion into a subtree of any depth, by induction on the depth: the child that takes the
key is replaced, or divided around the promoted key. -/
theorem insertRecursive_spec (value : Value) (depth : ℕ) {fuel : ℕ} (enough : depth < fuel)
    {leaves : List (Leaf Key Value)} {ids : List ℕ}
    (shape : Shape precedes tree.nodes depth low high id leaves ids) (nodup : ids.Nodup)
    (bounded : ∀ other ∈ ids, other < tree.nextPageId) (within : Within precedes low high key)
    (fits : ∀ entry ∈ entries leaves, key ≤ entry.1 → precedes key entry.1) :
    ∃ split tree' leaves' ids', BTree.insertRecursive key value fuel id tree = (split, tree') ∧
      Inserted precedes tree tree' split key value depth low high id leaves ids leaves' ids' := by
  induction depth generalizing fuel low high id leaves ids with
  | zero =>
      obtain ⟨fuel, rfl⟩ : ∃ rest, fuel = rest + 1 := ⟨fuel - 1, by omega⟩
      rcases shape with ⟨leaf, found, valid, small, rfl, rfl⟩
      exact insertRecursive_leaf value fuel found valid small (bounded id (by simp)) within
        (fun entry inside => fits entry (by simpa using inside))
  | succ depth ih =>
      obtain ⟨fuel, rfl⟩ : ∃ rest, fuel = rest + 1 := ⟨fuel - 1, by omega⟩
      rcases shape with ⟨node, childIds, found, small, row, rfl⟩
      rcases row.focus within (fun shape => shape.within) (fun shape => shape.leaf_mem) with
        ⟨child, low', high', before, middle, after, beforeIds, middleIds, afterIds, childFound,
          childShape, childWithin, rfl, rfl, -, -, beforeMem, afterMem, rebuild⟩
      have childNodup : middleIds.Nodup := by
        simp only [List.nodup_cons, List.nodup_append] at nodup
        exact nodup.2.2.1.1
      have enough' : depth < fuel := by omega
      rcases ih enough' childShape childNodup
          (fun other inside => bounded other (by simp [inside])) childWithin
          (fun entry inside => fits entry (by simp [inside])) with
        ⟨split, tree₁, middle', middleIds', run, inserted⟩
      rcases inserted.extension.row nodup bounded with ⟨extension, notSelf⟩
      -- the other children are as before
      have others : ∀ other, other ∈ beforeIds ∨ other ∈ afterIds →
          tree₁.nodes.lookup other = tree.nodes.lookup other := by
        intro other outside
        apply inserted.extension.frame other
        · simp only [List.nodup_cons, List.nodup_append, List.mem_append, ne_eq] at nodup
          intro isMiddle
          rcases outside with isBefore | isAfter
          · exact nodup.2.2.2 other isBefore other (.inl isMiddle) rfl
          · exact nodup.2.2.1.2.2 other isMiddle other isAfter rfl
        · rcases outside with isBefore | isAfter
          · exact bounded other (by simp [isBefore])
          · exact bounded other (by simp [isAfter])
      rcases rebuild (Shape precedes tree₁.nodes depth)
        fun low high other leaves otherIds outside shape =>
        shape.congr fun id isOther => others id (outside id isOther) with ⟨replace, divide⟩
      have content : (entries (before ++ (middle' ++ after))).Perm
          ((key, value) :: entries (before ++ (middle ++ after))) := by
        simp only [entries_append]
        refine ((inserted.content.append_right (entries after)).append_left
          (entries before)).trans ?_
        exact List.perm_middle
      have first : ∀ last, firstLeaf (before ++ (middle' ++ after)) last =
          firstLeaf (before ++ (middle ++ after)) last := by
        intro last
        simp only [firstLeaf_append, inserted.first]
      have linked : ∀ last, Linked tree.nodes (before ++ (middle ++ after)) last →
          Linked tree₁.nodes (before ++ (middle' ++ after)) last := by
        intro last links
        simp only [linked_append, firstLeaf_append, inserted.first] at links ⊢
        exact ⟨links.1.congr fun leaf inside => others _ (.inl (beforeMem leaf inside)),
          inserted.linked _ links.2.1,
          links.2.2.congr fun leaf inside => others _ (.inr (afterMem leaf inside))⟩
      have self : id ∈ id :: (beforeIds ++ (middleIds ++ afterIds)) ∧
          id ∉ beforeIds ++ (middleIds' ++ afterIds) ∧ id < tree.nextPageId :=
        ⟨by simp, notSelf, bounded id (by simp)⟩
      have kept : ∀ other ∈ id :: (beforeIds ++ (middleIds ++ afterIds)),
          other = id ∨ other ∈ beforeIds ++ (middleIds' ++ afterIds) := by
        intro other isOld
        have := inserted.kept other
        simp only [List.mem_cons, List.mem_append] at isOld ⊢
        tauto
      have child : node.children[node.findChildIndex key]? = some child := childFound
      cases split with
      | none =>
          have rebuilt : Rebuilt precedes tree tree₁ key value depth low high id _ _ node.keys
            node.children
              _ _ := ⟨extension, self, kept, content, linked, first, ⟨small.1, small.2.le⟩,
            replace _ _ inserted.shape⟩
          have notFull : ¬node.isFull = true := by simpa [InternalNode.isFull] using small.2
          refine ⟨none, _, _, _, ?_, rebuilt.store notFull⟩
          simp only [BTree.insertRecursive, found, child, run]
      | some split =>
          rcases inserted.shape with
            ⟨left, right, leftIds, rightIds, rfl, rfl, separates, leftShape,
            rightShape⟩
          have longer : 1 ≤ (node.keys.insertIdx (node.findChildIndex key)
            split.promotedKey).length ∧
              (node.keys.insertIdx (node.findChildIndex key) split.promotedKey).length ≤
                2 * order := by
            have position : node.findChildIndex key ≤ node.keys.length := partitionPoint_le _ _
            rw [List.length_insertIdx_of_le_length position]
            exact ⟨by omega, small.2⟩
          have rebuilt : Rebuilt precedes tree tree₁ key value depth low high id _ _
              (node.keys.insertIdx (node.findChildIndex key) split.promotedKey)
              (node.children.insertIdx (node.findChildIndex key + 1) split.newPageId) _ _ :=
            ⟨extension, self, kept, content, linked, first, longer,
              divide _ _ _ _ _ _ separates leftShape rightShape⟩
          by_cases full : (⟨node.keys.insertIdx (node.findChildIndex key) split.promotedKey,
              node.children.insertIdx (node.findChildIndex key + 1) split.newPageId⟩ :
                InternalNode Key).isFull = true
          · rcases rebuilt.split full with ⟨split', tree', ids', halves, done⟩
            refine ⟨some split', tree', _, ids', ?_, done⟩
            simp only [BTree.insertRecursive, found, child, run, if_pos full, halves]
          · refine ⟨none, _, _, _, ?_, rebuilt.store full⟩
            simp only [BTree.insertRecursive, found, child, run, if_neg full]

end Insert

end VenomDb.Index
