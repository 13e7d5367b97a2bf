import VenomDb.Index.Arranged

/-!
# The structure of every B-tree

What insertions, with repeated keys or without, and deletions keep: all leaves have the same
depth, the nodes have as many keys and children as they should, the keys below a child lie
between the separators next to it, every node but the root has one parent, and the links
between the leaves lead through all of them from left to right.
-/

namespace VenomDb.Index

variable {Key Value : Type}

namespace BTreeNode

def keys : BTreeNode Key Value → List Key
  | .internal node => node.keys
  | .leaf node => node.keys

def children : BTreeNode Key Value → List ℕ
  | .internal node => node.children
  | .leaf _ => []

end BTreeNode

section Paths

/-- The children of the node at an address. -/
def childrenOf (nodes : AList fun _ : ℕ => BTreeNode Key Value) (id : ℕ) : List ℕ :=
  ((nodes.lookup id).map BTreeNode.children).getD []

/-- A number of steps from parent to child. -/
inductive Path (nodes : AList fun _ : ℕ => BTreeNode Key Value) : ℕ → ℕ → ℕ → Prop
  | here (id : ℕ) : Path nodes 0 id id
  | down {steps id child other : ℕ} (isChild : child ∈ childrenOf nodes id)
      (rest : Path nodes steps child other) : Path nodes (steps + 1) id other

/-- A key of a node or of one below it. -/
def KeyBelow (nodes : AList fun _ : ℕ => BTreeNode Key Value) (id : ℕ) (key : Key) : Prop :=
  ∃ steps other node, Path nodes steps id other ∧ nodes.lookup other = some node ∧
    key ∈ node.keys

end Paths

namespace BTree

/-- The leaves below a node, from left to right. -/
def leafIds (tree : BTree Key Value) : ℕ → ℕ → List ℕ
  | 0, _ => []
  | fuel + 1, id =>
      match tree.nodes.lookup id with
      | some (.leaf _) => [id]
      | some (.internal node) => node.children.flatMap (leafIds tree fuel)
      | none => []

/-- A well-formed B-tree. -/
structure WellFormed [LinearOrder Key] (tree : BTree Key Value) : Prop where
  level : ∃ depth, ∀ steps id leaf, Path tree.nodes steps tree.rootId id →
    tree.nodes.lookup id = some (.leaf leaf) → steps = depth
  small : ∀ id node, tree.nodes.lookup id = some node → node.keys.length ≤ 2 * order - 1
  internal : ∀ id node, tree.nodes.lookup id = some (.internal node) →
    1 ≤ node.keys.length ∧ node.children.length = node.keys.length + 1
  leaf : ∀ id leaf, tree.nodes.lookup id = some (.leaf leaf) →
    leaf.rids.length = leaf.keys.length
  sorted : ∀ id node, tree.nodes.lookup id = some node → node.keys.Pairwise (· ≤ ·)
  separated : ∀ id node index separator, tree.nodes.lookup id = some (.internal node) →
    node.keys[index]? = some separator →
      (∀ child ∈ node.children[index]?, ∀ key, KeyBelow tree.nodes child key → key ≤ separator) ∧
      ∀ child ∈ node.children[index + 1]?, ∀ key, KeyBelow tree.nodes child key → separator ≤ key
  /-- Every node but the root is one child of one node. -/
  parent : ∀ id ∈ tree.nodes, id ≠ tree.rootId →
    ∃! place : ℕ × ℕ, (childrenOf tree.nodes place.1)[place.2]? = some id
  root : tree.rootId ∈ tree.nodes ∧ ∀ id, tree.rootId ∉ childrenOf tree.nodes id
  present : ∀ id, ∀ child ∈ childrenOf tree.nodes id, child ∈ tree.nodes
  leaves : ∀ id, id ∈ tree.leafIds tree.fuel tree.rootId ↔
    ∃ leaf, tree.nodes.lookup id = some (.leaf leaf)
  distinct : (tree.leafIds tree.fuel tree.rootId).Nodup
  /-- Each leaf points to the next one, and the last one to none. -/
  chained : ∀ index id, (tree.leafIds tree.fuel tree.rootId)[index]? = some id →
    ∃ leaf, tree.nodes.lookup id = some (.leaf leaf) ∧
      leaf.nextLeaf = (tree.leafIds tree.fuel tree.rootId)[index + 1]?

end BTree

section Rows

variable [LinearOrder Key] {precedes : Key → Key → Prop} [Ascending precedes]
  {shape : Option Key → Option Key → ℕ → List (Leaf Key Value) → List ℕ → Prop}
  {low high : Option Key} {keys : List Key} {children : List ℕ} {leaves : List (Leaf Key Value)}
  {ids : List ℕ}

omit [Ascending precedes] in
theorem Row.length_children (row : Row precedes shape low high keys children leaves ids) :
    children.length = keys.length + 1 := by
  induction row with
  | last _ => rfl
  | cons _ _ _ ih => simp [ih]

theorem Row.separates (row : Row precedes shape low high keys children leaves ids) :
    ∀ key ∈ keys, Separates precedes low high key := by
  induction row with
  | last _ => simp
  | @cons low high separator keys child children left right leftIds rightIds separates first rest
      ih =>
      intro key isKey
      rcases List.mem_cons.mp isKey with rfl | isLater
      · exact separates
      · have later := ih key isLater
        exact ⟨fun bound isLow => Ascending.trans (separates.1 bound isLow) (later.1 separator rfl),
          later.2⟩

theorem Row.keys_sorted (row : Row precedes shape low high keys children leaves ids) :
    keys.Pairwise precedes := by
  induction row with
  | last _ => exact List.Pairwise.nil
  | cons _ _ rest ih =>
      exact List.pairwise_cons.mpr ⟨fun key isLater => (rest.separates key isLater).1 _ rfl, ih⟩

/-- A child has the range between the separators next to it. -/
theorem Row.child (row : Row precedes shape low high keys children leaves ids) {index child : ℕ}
    (found : children[index]? = some child) :
    ∃ low' high' leaves' ids', shape low' high' child leaves' ids' ∧
      (∀ key, Within precedes low' high' key → Within precedes low high key) ∧
      (∀ separator, keys[index]? = some separator → high' = some separator) ∧
      (index = 0 → low' = low) ∧
      ∀ before, index = before + 1 → ∀ separator, keys[before]? = some separator →
        low' = some separator := by
  induction row generalizing index with
  | @last low high only leaves ids isShape =>
      cases index with
      | zero =>
          obtain rfl : only = child := by simpa using found
          exact ⟨low, high, leaves, ids, isShape, fun _ within => within, by simp, by simp, by simp⟩
      | succ index => simp at found
  | @cons low high separator keys only children left right leftIds rightIds separates first rest
      ih =>
      cases index with
      | zero =>
          obtain rfl : only = child := by simpa using found
          exact ⟨low, some separator, left, leftIds, first, fun _ within => within.left separates,
            by simp, by simp, by simp⟩
      | succ index =>
          rcases ih (by simpa using found) with
            ⟨low', high', leaves', ids', isShape, within, isHigh, isFirst, isLow⟩
          refine ⟨low', high', leaves', ids', isShape, fun key inside => (within key inside).right
            separates, by simpa using isHigh, by simp, ?_⟩
          rintro before same other isSeparator
          obtain rfl : index = before := by omega
          cases index with
          | zero =>
              obtain rfl : separator = other := by simpa using isSeparator
              exact isFirst rfl
          | succ index => exact isLow index rfl other (by simpa using isSeparator)

omit [Ascending precedes] in
/-- Every node of a row but the children is a child of one of its nodes. -/
theorem Row.references {children' : ℕ → List ℕ}
    (row : Row precedes shape low high keys children leaves ids)
    (step : ∀ {low high child leaves ids}, shape low high child leaves ids →
      (child :: ids.flatMap children').Perm ids) :
    (children ++ ids.flatMap children').Perm ids := by
  induction row with
  | last only => exact step only
  | @cons _ _ _ _ child children _ _ leftIds rightIds _ first _ ih =>
      rw [List.flatMap_append, List.cons_append]
      have moved : (child :: (children ++ (leftIds.flatMap children' ++
          rightIds.flatMap children'))).Perm
          ((child :: leftIds.flatMap children') ++ (children ++ rightIds.flatMap children')) := by
        rw [List.cons_append, ← List.append_assoc, ← List.append_assoc]
        exact (List.perm_append_comm.append_right _).cons child
      exact moved.trans ((step first).append ih)

end Rows

section Shapes

variable [LinearOrder Key] {precedes : Key → Key → Prop} [Ascending precedes]
  {tree : BTree Key Value} {nodes : AList fun _ : ℕ => BTreeNode Key Value}
  {low high : Option Key} {depth id other steps : ℕ} {leaves : List (Leaf Key Value)}
  {ids : List ℕ}

/-- The node at the root of a subtree. -/
theorem Shape.node (shape : Shape precedes nodes depth low high id leaves ids) :
    ∃ node, nodes.lookup id = some node ∧ node.keys.length < 2 * order ∧
      node.keys.Pairwise precedes ∧ ∀ key ∈ node.keys, Within precedes low high key := by
  cases depth with
  | zero =>
      rcases shape with ⟨leaf, found, valid, small, -, -⟩
      exact ⟨.leaf leaf, found, small, valid.sorted, valid.within⟩
  | succ depth =>
      rcases shape with ⟨node, childIds, found, small, row, -⟩
      refine ⟨.internal node, found, small.2, row.keys_sorted, fun key isKey => ?_⟩
      have separates := row.separates key isKey
      exact ⟨fun bound isLow => Ascending.le (separates.1 bound isLow), separates.2⟩

/-- Every node below the root of a subtree is itself the root of one, with a smaller range. -/
theorem Shape.below (shape : Shape precedes nodes depth low high id leaves ids)
    (path : Path nodes steps id other) :
    ∃ depth' low' high' leaves' ids', depth = depth' + steps ∧
      Shape precedes nodes depth' low' high' other leaves' ids' ∧
      ∀ key, Within precedes low' high' key → Within precedes low high key := by
  induction path generalizing depth low high leaves ids with
  | here id => exact ⟨depth, low, high, leaves, ids, rfl, shape, fun _ within => within⟩
  | @down steps id child other isChild rest ih =>
      cases depth with
      | zero =>
          rcases shape with ⟨leaf, found, -⟩
          simp [childrenOf, found, BTreeNode.children] at isChild
      | succ depth =>
          rcases shape with ⟨node, childIds, found, -, row, -⟩
          have listed : child ∈ node.children := by
            simpa [childrenOf, found, BTreeNode.children] using isChild
          rcases List.mem_iff_getElem?.mp listed with ⟨index, isAt⟩
          rcases row.child isAt with ⟨low', high', leaves', ids', isShape, within, -⟩
          rcases ih isShape with ⟨depth', low'', high'', leaves'', ids'', rfl, last, inner⟩
          exact ⟨depth', low'', high'', leaves'', ids'', by omega, last,
            fun key inside => within key (inner key inside)⟩

theorem Shape.keyBelow (shape : Shape precedes nodes depth low high id leaves ids) {key : Key}
    (below : KeyBelow nodes id key) : Within precedes low high key := by
  rcases below with ⟨steps, other, node, path, found, isKey⟩
  rcases shape.below path with ⟨depth', low', high', leaves', ids', -, isShape, within⟩
  rcases isShape.node with ⟨node', found', -, -, inside⟩
  obtain rfl : node = node' := by simpa [found] using found'
  exact within key (inside key isKey)

omit [Ascending precedes] in
/-- The nodes of a subtree but its root are the children of its nodes. -/
theorem Shape.references (shape : Shape precedes nodes depth low high id leaves ids) :
    (id :: ids.flatMap (childrenOf nodes)).Perm ids := by
  induction depth generalizing low high id leaves ids with
  | zero =>
      rcases shape with ⟨leaf, found, -, -, -, rfl⟩
      simp [childrenOf, found, BTreeNode.children]
  | succ depth ih =>
      rcases shape with ⟨node, childIds, found, -, row, rfl⟩
      have own : childrenOf nodes id = node.children := by
        simp [childrenOf, found, BTreeNode.children]
      rw [List.flatMap_cons, own]
      exact (row.references fun shape => ih shape).cons id

omit [Ascending precedes] in
theorem Row.exists_path {keys : List Key} {children : List ℕ}
    (row : Row precedes (Shape precedes nodes depth) low high keys children leaves ids)
    (step : ∀ {low high child leaves ids}, Shape precedes nodes depth low high child leaves ids →
      ∀ other ∈ ids, ∃ steps, Path nodes steps child other) :
    ∀ other ∈ ids, ∃ child ∈ children, ∃ steps, Path nodes steps child other := by
  induction row with
  | last only => exact fun other inside => ⟨_, List.mem_singleton_self _, step only other inside⟩
  | cons _ first _ ih =>
      intro other inside
      rcases List.mem_append.mp inside with isLeft | isRight
      · exact ⟨_, List.mem_cons_self, step first other isLeft⟩
      · rcases ih other isRight with ⟨child, isChild, path⟩
        exact ⟨child, List.mem_cons_of_mem _ isChild, path⟩

omit [Ascending precedes] in
theorem Shape.exists_path (shape : Shape precedes nodes depth low high id leaves ids) :
    ∀ other ∈ ids, ∃ steps, Path nodes steps id other := by
  induction depth generalizing low high id leaves ids with
  | zero =>
      rcases shape with ⟨leaf, -, -, -, -, rfl⟩
      intro other isRoot
      obtain rfl : other = id := by simpa using isRoot
      exact ⟨0, .here other⟩
  | succ depth ih =>
      rcases shape with ⟨node, childIds, found, -, row, rfl⟩
      intro other inside
      rcases List.mem_cons.mp inside with rfl | isChild
      · exact ⟨0, .here other⟩
      · rcases row.exists_path (fun shape => ih shape) other isChild with
          ⟨child, listed, steps, path⟩
        refine ⟨steps + 1, .down ?_ path⟩
        simpa [childrenOf, found, BTreeNode.children] using listed

omit [Ascending precedes] in
theorem Row.leafIds_eq {fuel : ℕ} {keys : List Key} {children : List ℕ}
    (row : Row precedes (Shape precedes tree.nodes depth) low high keys children leaves ids)
    (step : ∀ {low high child leaves ids},
      Shape precedes tree.nodes depth low high child leaves ids →
        tree.leafIds fuel child = leaves.map Prod.fst) :
    children.flatMap (tree.leafIds fuel) = leaves.map Prod.fst := by
  induction row with
  | last only => simpa using step only
  | cons _ first _ ih => simp [step first, ih]

omit [Ascending precedes] in
theorem Shape.leafIds_eq {fuel : ℕ} (enough : depth < fuel)
    (shape : Shape precedes tree.nodes depth low high id leaves ids) :
    tree.leafIds fuel id = leaves.map Prod.fst := by
  induction depth generalizing fuel low high id leaves ids with
  | zero =>
      obtain ⟨fuel, rfl⟩ : ∃ rest, fuel = rest + 1 := ⟨fuel - 1, by omega⟩
      rcases shape with ⟨leaf, found, -, -, rfl, -⟩
      simp [BTree.leafIds, found]
  | succ depth ih =>
      obtain ⟨fuel, rfl⟩ : ∃ rest, fuel = rest + 1 := ⟨fuel - 1, by omega⟩
      have enough' : depth < fuel := by omega
      rcases shape with ⟨node, childIds, found, -, row, -⟩
      simpa [BTree.leafIds, found] using row.leafIds_eq fun shape => ih enough' shape

omit [Ascending precedes] in
theorem Row.leaves_sublist {shape : Option Key → Option Key → ℕ → List (Leaf Key Value) → List ℕ →
    Prop}
    {keys : List Key} {children : List ℕ}
    (row : Row precedes shape low high keys children leaves ids)
    (step : ∀ {low high child leaves ids}, shape low high child leaves ids →
      (leaves.map Prod.fst).Sublist ids) : (leaves.map Prod.fst).Sublist ids := by
  induction row with
  | last only => exact step only
  | cons _ first _ ih =>
      rw [List.map_append]
      exact (step first).append ih

omit [Ascending precedes] in
theorem Shape.leaves_sublist (shape : Shape precedes nodes depth low high id leaves ids) :
    (leaves.map Prod.fst).Sublist ids := by
  induction depth generalizing low high id leaves ids with
  | zero =>
      rcases shape with ⟨leaf, -, -, -, rfl, rfl⟩
      simp
  | succ depth ih =>
      rcases shape with ⟨node, childIds, -, -, row, rfl⟩
      exact (row.leaves_sublist fun shape => ih shape).cons id

omit [Ascending precedes] in
theorem Row.mem_leaves {shape : Option Key → Option Key → ℕ → List (Leaf Key Value) → List ℕ → Prop}
    {keys : List Key} {children : List ℕ}
    (row : Row precedes shape low high keys children leaves ids)
    (step : ∀ {low high child leaves ids}, shape low high child leaves ids → other ∈ ids →
      other ∈ leaves.map Prod.fst) (inside : other ∈ ids) : other ∈ leaves.map Prod.fst := by
  induction row with
  | last only => exact step only inside
  | cons _ first _ ih =>
      rw [List.map_append, List.mem_append]
      exact (List.mem_append.mp inside).imp (step first) ih

omit [Ascending precedes] in
/-- All leaf nodes of a subtree are among its leaves. -/
theorem Shape.mem_leaves {leaf : LeafNode Key Value}
    (shape : Shape precedes nodes depth low high id leaves ids)
    (found : nodes.lookup other = some (.leaf leaf)) (inside : other ∈ ids) :
    other ∈ leaves.map Prod.fst := by
  induction depth generalizing low high id leaves ids with
  | zero =>
      rcases shape with ⟨leaf, -, -, -, rfl, rfl⟩
      simpa using inside
  | succ depth ih =>
      rcases shape with ⟨node, childIds, foundNode, -, row, rfl⟩
      rcases List.mem_cons.mp inside with rfl | isChild
      · simp [found] at foundNode
      · exact row.mem_leaves (fun shape inside => ih shape inside) isChild

end Shapes

section Links

variable {nodes : AList fun _ : ℕ => BTreeNode Key Value} {leaves : List (Leaf Key Value)}

theorem firstLeaf_none (leaves : List (Leaf Key Value)) :
    firstLeaf leaves none = (leaves.map Prod.fst)[0]? := by
  cases leaves <;> rfl

theorem Linked.next (linked : Linked nodes leaves none) {index id : ℕ}
    (found : (leaves.map Prod.fst)[index]? = some id) :
    ∃ leaf, nodes.lookup id = some (.leaf leaf) ∧
      leaf.nextLeaf = (leaves.map Prod.fst)[index + 1]? := by
  induction leaves generalizing index with
  | nil => simp at found
  | cons leaf leaves ih =>
      rcases linked with ⟨⟨node, isNode, -, next⟩, rest⟩
      cases index with
      | zero =>
          obtain rfl : leaf.1 = id := by simpa using found
          exact ⟨node, isNode, by rw [next, firstLeaf_none, List.map_cons, List.getElem?_cons_succ]⟩
      | succ index => simpa using ih rest (by simpa using found)

end Links

namespace BTree

variable [LinearOrder Key] {tree : BTree Key Value} {depth : ℕ} {leaves : List (Leaf Key Value)}
  {ids : List ℕ}

section Parents

variable {precedes : Key → Key → Prop} (arranged : tree.Arranged precedes depth leaves ids)

include arranged

theorem Arranged.nodup_references :
    (tree.rootId :: ids.flatMap (childrenOf tree.nodes)).Nodup :=
  arranged.shape.references.nodup_iff.mpr arranged.nodup

/-- A node that has children is a node of the tree. -/
theorem Arranged.mem_ids {id child : ℕ} (isChild : child ∈ childrenOf tree.nodes id) :
    id ∈ ids := by
  apply arranged.covered
  rcases found : tree.nodes.lookup id with _ | node
  · simp [childrenOf, found] at isChild
  · exact AList.lookup_isSome.mp (by simp [found])

theorem Arranged.mem_references {id child : ℕ} (isChild : child ∈ childrenOf tree.nodes id) :
    child ∈ ids.flatMap (childrenOf tree.nodes) :=
  List.mem_flatMap.mpr ⟨id, arranged.mem_ids isChild, isChild⟩

theorem Arranged.parent_unique {id : ℕ} {first second : ℕ × ℕ}
    (isFirst : (childrenOf tree.nodes first.1)[first.2]? = some id)
    (isSecond : (childrenOf tree.nodes second.1)[second.2]? = some id) : first = second := by
  have nodup := (List.nodup_cons.mp arranged.nodup_references).2
  rw [List.nodup_flatMap] at nodup
  have inFirst := List.mem_of_getElem? isFirst
  have inSecond := List.mem_of_getElem? isSecond
  have sameParent : first.1 = second.1 := by
    by_contra differs
    have symmetric : Std.Symm (Function.onFun List.Disjoint (childrenOf tree.nodes)) :=
      ⟨fun _ _ apart => apart.symm⟩
    exact nodup.2.forall (arranged.mem_ids inFirst) (arranged.mem_ids inSecond) differs inFirst
      inSecond
  refine Prod.ext sameParent ?_
  rw [← sameParent] at isSecond
  rcases List.getElem?_eq_some_iff.mp isFirst with ⟨firstBound, isFirst⟩
  rcases List.getElem?_eq_some_iff.mp isSecond with ⟨secondBound, isSecond⟩
  exact (nodup.1 first.1 (arranged.mem_ids inFirst)).getElem_inj_iff.mp
    (isFirst.trans isSecond.symm)

theorem Arranged.existsUnique_parent {id : ℕ} (isNode : id ∈ tree.nodes)
    (notRoot : id ≠ tree.rootId) :
    ∃! place : ℕ × ℕ, (childrenOf tree.nodes place.1)[place.2]? = some id := by
  have listed : id ∈ tree.rootId :: ids.flatMap (childrenOf tree.nodes) :=
    arranged.shape.references.mem_iff.mpr (arranged.covered id isNode)
  rcases List.mem_flatMap.mp ((List.mem_cons.mp listed).resolve_left notRoot) with
    ⟨parent, -, isChild⟩
  rcases List.mem_iff_getElem?.mp isChild with ⟨index, isAt⟩
  exact ⟨(parent, index), isAt, fun _ isOther => arranged.parent_unique isOther isAt⟩

end Parents

/-- The subtree below a node of the tree. -/
theorem Arranged.subtree (arranged : tree.Arranged (· ≤ ·) depth leaves ids) {id : ℕ}
    {node : BTreeNode Key Value} (found : tree.nodes.lookup id = some node) :
    ∃ depth' low high leaves' ids', Shape (· ≤ ·) tree.nodes depth' low high id leaves' ids' := by
  have inside := arranged.covered id (AList.lookup_isSome.mp (by simp [found]))
  rcases arranged.shape.exists_path id inside with ⟨steps, path⟩
  rcases arranged.shape.below path with ⟨depth', low, high, leaves', ids', -, shape, -⟩
  exact ⟨depth', low, high, leaves', ids', shape⟩

theorem Arranged.wellFormed (arranged : tree.Arranged (· ≤ ·) depth leaves ids) :
    tree.WellFormed := by
  have isLeafIds : tree.leafIds tree.fuel tree.rootId = leaves.map Prod.fst :=
    arranged.shape.leafIds_eq (arranged.shape.fuel arranged.nodup).1
  refine ⟨⟨depth, ?_⟩, ?_, ?_, ?_, ?_, ?_, fun id isNode notRoot =>
    arranged.existsUnique_parent isNode notRoot, ⟨?_, ?_⟩, ?_, ?_, ?_, ?_⟩
  · intro steps id leaf path found
    rcases arranged.shape.below path with ⟨depth', low, high, leaves', ids', same, shape, -⟩
    cases depth' with
    | zero => omega
    | succ depth' =>
        rcases shape with ⟨node, childIds, isNode, -⟩
        simp [found] at isNode
  · intro id node found
    rcases arranged.subtree found with ⟨depth', low, high, leaves', ids', shape⟩
    rcases shape.node with ⟨node', isNode, small, -⟩
    obtain rfl : node = node' := by simpa [found] using isNode
    omega
  · intro id node found
    rcases arranged.subtree found with ⟨_ | depth', low, high, leaves', ids', shape⟩
    · rcases shape with ⟨leaf, isLeaf, -⟩
      simp [found] at isLeaf
    · rcases shape with ⟨node', childIds, isNode, small, row, -⟩
      obtain rfl : node = node' := by simpa [found] using isNode
      exact ⟨small.1, row.length_children⟩
  · intro id leaf found
    rcases arranged.subtree found with ⟨_ | depth', low, high, leaves', ids', shape⟩
    · rcases shape with ⟨leaf', isLeaf, valid, -⟩
      obtain rfl : leaf = leaf' := by simpa [found] using isLeaf
      exact valid.lengths.symm
    · rcases shape with ⟨node, childIds, isNode, -⟩
      simp [found] at isNode
  · intro id node found
    rcases arranged.subtree found with ⟨depth', low, high, leaves', ids', shape⟩
    rcases shape.node with ⟨node', isNode, -, sorted, -⟩
    obtain rfl : node = node' := by simpa [found] using isNode
    exact sorted
  · intro id node index separator found isSeparator
    rcases arranged.subtree found with ⟨_ | depth', low, high, leaves', ids', shape⟩
    · rcases shape with ⟨leaf, isLeaf, -⟩
      simp [found] at isLeaf
    · rcases shape with ⟨node', childIds, isNode, -, row, -⟩
      obtain rfl : node = node' := by simpa [found] using isNode
      constructor
      · intro child isChild key below
        rcases row.child isChild with ⟨low', high', _, _, childShape, -, isHigh, -⟩
        exact (childShape.keyBelow below).2 separator (isHigh separator isSeparator)
      · intro child isChild key below
        rcases row.child isChild with ⟨low', high', _, _, childShape, -, -, -, isLow⟩
        exact (childShape.keyBelow below).1 separator (isLow index rfl separator isSeparator)
  · rcases arranged.shape.node with ⟨node, found, -⟩
    exact AList.lookup_isSome.mp (by simp [found])
  · intro id isChild
    exact (List.nodup_cons.mp arranged.nodup_references).1 (arranged.mem_references isChild)
  · intro id child isChild
    have inside : child ∈ ids := arranged.shape.references.mem_iff.mp
      (List.mem_cons_of_mem _ (arranged.mem_references isChild))
    exact arranged.shape.mem_nodes child inside
  · intro id
    rw [isLeafIds]
    constructor
    · intro isLeaf
      rcases List.mem_iff_getElem?.mp isLeaf with ⟨index, isAt⟩
      rcases arranged.linked.next isAt with ⟨leaf, found, -⟩
      exact ⟨leaf, found⟩
    · rintro ⟨leaf, found⟩
      exact arranged.shape.mem_leaves found
        (arranged.covered id (AList.lookup_isSome.mp (by simp [found])))
  · rw [isLeafIds]
    exact arranged.nodup.sublist arranged.shape.leaves_sublist
  · intro index id isAt
    rw [isLeafIds] at isAt ⊢
    exact arranged.linked.next isAt

/-- A call that changes a tree. -/
inductive Operation (Key Value : Type)
  | insert (key : Key) (value : Value)
  | delete (key : Key)

def Operation.apply (tree : BTree Key Value) : Operation Key Value → BTree Key Value
  | insert key value => tree.insert key value
  | delete key => (tree.delete key).2

theorem Arranged.apply (arranged : tree.Arranged (· ≤ ·) depth leaves ids)
    (operation : Operation Key Value) :
    ∃ depth' leaves' ids', (operation.apply tree).Arranged (· ≤ ·) depth' leaves' ids' := by
  cases operation with
  | insert key value =>
      rcases arranged.insert value (fun _ _ le => le) with ⟨depth', leaves', ids', inserted, -⟩
      exact ⟨depth', leaves', ids', inserted⟩
  | delete key =>
      rcases arranged.delete key with ⟨_, _, _, _, _, _, -, -, -, -, deleted⟩
      exact ⟨_, _, _, deleted⟩

/-- Every tree that insertions and deletions make from an empty one is well formed, also if keys
are inserted more than once. -/
theorem wellFormed_foldl_apply (operations : List (Operation Key Value)) :
    (operations.foldl Operation.apply new).WellFormed := by
  have reached : ∃ depth leaves ids,
      (operations.foldl Operation.apply new).Arranged (· ≤ ·) depth leaves ids := by
    refine List.foldlRecOn operations _ (motive := fun tree : BTree Key Value =>
      ∃ depth leaves ids, tree.Arranged (· ≤ ·) depth leaves ids) ⟨0, _, _, arranged_new⟩ ?_
    rintro tree ⟨depth, leaves, ids, arranged⟩ operation -
    exact arranged.apply operation
  rcases reached with ⟨depth, leaves, ids, arranged⟩
  exact arranged.wellFormed

end BTree

end VenomDb.Index
