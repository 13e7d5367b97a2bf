import VenomDb.Index.Insert

/-!
# Trees with sorted leaves

`Arranged precedes tree depth leaves ids` is the invariant of all trees that insertions and
deletions make. Without repeated keys it holds for `<`, and for `≤` in any case.
-/

namespace VenomDb.Index

variable {Key Value : Type} [LinearOrder Key]

section Walks

variable {precedes : Key → Key → Prop} {tree : BTree Key Value}
  {nodes nodes' : AList fun _ : ℕ => BTreeNode Key Value} {low high : Option Key} {id : ℕ}
    {leaves : List (Leaf Key Value)} {ids : List ℕ} {depth : ℕ}

/-- A row has fewer leaves than nodes would allow: each child brings at least its own. -/
theorem Row.counts {shape : Option Key → Option Key → ℕ → List (Leaf Key Value) → List ℕ → Prop}
    {keys : List Key} {children : List ℕ} {bound : ℕ}
    (row : Row precedes shape low high keys children leaves ids)
    (step : ∀ {low high child leaves ids}, shape low high child leaves ids →
      bound < ids.length ∧ leaves.length ≤ ids.length) :
    bound < ids.length ∧ leaves.length ≤ ids.length := by
  induction row with
  | last only => exact step only
  | cons separates first rest ih =>
      have left := step first
      rw [List.length_append, List.length_append]
      omega

theorem Shape.counts (shape : Shape precedes nodes depth low high id leaves ids) :
    depth < ids.length ∧ leaves.length ≤ ids.length := by
  induction depth generalizing low high id leaves ids with
  | zero =>
      rcases shape with ⟨leaf, -, -, -, rfl, rfl⟩
      simp
  | succ depth ih =>
      rcases shape with ⟨node, childIds, -, -, row, rfl⟩
      have counted := row.counts fun shape => ih shape
      simp only [List.length_cons]
      omega

theorem Row.mem_nodes {shape : Option Key → Option Key → ℕ → List (Leaf Key Value) → List ℕ → Prop}
    {keys : List Key} {children : List ℕ}
    (row : Row precedes shape low high keys children leaves ids)
    (step : ∀ {low high child leaves ids}, shape low high child leaves ids →
      ∀ id ∈ ids, id ∈ nodes) : ∀ id ∈ ids, id ∈ nodes := by
  induction row with
  | last only => exact step only
  | cons separates first rest ih =>
      intro id inside
      rcases List.mem_append.mp inside with isLeft | isRight
      · exact step first id isLeft
      · exact ih id isRight

theorem Shape.mem_nodes (shape : Shape precedes nodes depth low high id leaves ids) :
    ∀ id ∈ ids, id ∈ nodes := by
  induction depth generalizing low high id leaves ids with
  | zero =>
      rcases shape with ⟨leaf, found, -, -, -, rfl⟩
      intro other isId
      obtain rfl : other = id := by simpa using isId
      exact AList.lookup_isSome.mp (by simp [found])
  | succ depth ih =>
      rcases shape with ⟨node, childIds, found, small, row, rfl⟩
      intro other isId
      rcases List.mem_cons.mp isId with rfl | isChild
      · exact AList.lookup_isSome.mp (by simp [found])
      · exact row.mem_nodes (fun shape => ih shape) other isChild

/-- Every leaf of a tree is sorted. -/
theorem Row.leaf_valid {shape : Option Key → Option Key → ℕ → List (Leaf Key Value) → List ℕ → Prop}
    {keys : List Key} {children : List ℕ}
    (row : Row precedes shape low high keys children leaves ids)
    (step : ∀ {low high child leaves ids}, shape low high child leaves ids →
      ∀ leaf ∈ leaves, ∀ node, nodes.lookup leaf.1 = some (.leaf node) →
        node.keys.length = node.rids.length ∧ node.keys.Pairwise precedes) :
    ∀ leaf ∈ leaves, ∀ node, nodes.lookup leaf.1 = some (.leaf node) →
      node.keys.length = node.rids.length ∧ node.keys.Pairwise precedes := by
  induction row with
  | last only => exact step only
  | cons separates first rest ih =>
      intro leaf inside
      rcases List.mem_append.mp inside with isLeft | isRight
      · exact step first leaf isLeft
      · exact ih leaf isRight

theorem Shape.leaf_valid (shape : Shape precedes nodes depth low high id leaves ids) :
    ∀ leaf ∈ leaves, ∀ node, nodes.lookup leaf.1 = some (.leaf node) →
      node.keys.length = node.rids.length ∧ node.keys.Pairwise precedes := by
  induction depth generalizing low high id leaves ids with
  | zero =>
      rcases shape with ⟨leaf, found, valid, -, rfl, -⟩
      intro other inside node nodeFound
      obtain rfl : other = (id, leaf.entries) := by simpa using inside
      obtain rfl : leaf = node := by simpa [found] using nodeFound
      exact ⟨valid.lengths, valid.sorted⟩
  | succ depth ih =>
      rcases shape with ⟨node, childIds, -, -, row, -⟩
      exact row.leaf_valid fun shape => ih shape

/-- The tree has fuel for every walk: down to a leaf, and along all leaves. -/
theorem Shape.fuel (shape : Shape precedes tree.nodes depth low high id leaves ids)
    (nodup : ids.Nodup) :
    depth < tree.fuel ∧ leaves.length < tree.fuel := by
  have counted := shape.counts
  have bound : ids.length ≤ tree.nodes.keys.length :=
    (List.subperm_of_subset nodup fun other inside =>
      AList.mem_keys.mp (shape.mem_nodes other inside)).length_le
  rw [BTree.fuel]
  omega

/-- The leaf that `find_leaf` reaches: all smaller keys outside it are in leaves before it, all
larger ones in leaves after it, and it can be exchanged for another leaf of the same range. -/
theorem Shape.focus [Ascending precedes] {key : Key} {fuel : ℕ}
    (shape : Shape precedes tree.nodes depth low high id leaves ids) (nodup : ids.Nodup)
    (within : Within precedes low high key) (enough : depth < fuel) :
    ∃ leafId leaf low' high' before after, tree.findLeaf key fuel id = leafId ∧ leafId ∈ ids ∧
      tree.nodes.lookup leafId = some (.leaf leaf) ∧ leaf.Valid precedes low' high' ∧
      leaf.keys.length < 2 * order ∧
      leaves = before ++ (leafId, leaf.entries) :: after ∧
      (∀ entry ∈ entries before, precedes entry.1 key) ∧ (∀ entry ∈ entries after, key < entry.1) ∧
      (∀ other ∈ before ++ after, other.1 ≠ leafId) ∧
      ∀ (nodes' : AList fun _ : ℕ => BTreeNode Key Value) (leaf' : LeafNode Key Value),
        (∀ other ∈ ids, other ≠ leafId → nodes'.lookup other = tree.nodes.lookup other) →
        nodes'.lookup leafId = some (.leaf leaf') → leaf'.Valid precedes low' high' →
        leaf'.keys.length < 2 * order →
        Shape precedes nodes' depth low high id (before ++ (leafId, leaf'.entries) :: after)
          ids := by
  induction depth generalizing fuel low high id leaves ids with
  | zero =>
      obtain ⟨fuel, rfl⟩ : ∃ rest, fuel = rest + 1 := ⟨fuel - 1, by omega⟩
      rcases shape with ⟨leaf, found, valid, small, rfl, rfl⟩
      refine ⟨id, leaf, low, high, [], [], by simp [BTree.findLeaf, found], by simp, found, valid,
        small, rfl, by simp, by simp, by simp, fun nodes' leaf' _ found' valid' small' => ?_⟩
      exact ⟨leaf', found', valid', small', rfl, rfl⟩
  | succ depth ih =>
      obtain ⟨fuel, rfl⟩ : ∃ rest, fuel = rest + 1 := ⟨fuel - 1, by omega⟩
      have enough' : depth < fuel := by omega
      rcases shape with ⟨node, childIds, found, small, row, rfl⟩
      rcases row.focus within (fun shape => shape.within) (fun shape => shape.leaf_mem) with
        ⟨child, low₁, high₁, before₁, middle, after₁, beforeIds, middleIds, afterIds, childFound,
          childShape, childWithin, rfl, rfl, isBefore₁, isAfter₁, beforeMem, afterMem, rebuild⟩
      have parts := nodup
      simp only [List.nodup_cons, List.nodup_append, List.mem_append, ne_eq, not_or] at parts
      rcases ih childShape parts.2.2.1.1 childWithin enough' with
        ⟨leafId, leaf, low', high', before, after, walk, member, leafFound, valid, leafSmall, rfl,
          isBefore, isAfter, apart, exchange⟩
      have child' : node.children[node.findChildIndex key]? = some child := childFound
      have notOutside : ∀ other, other ∈ beforeIds ∨ other ∈ afterIds → other ≠ leafId := by
        rintro other outside rfl
        rcases outside with isBefore | isAfter
        · exact parts.2.2.2 other isBefore other (.inl member) rfl
        · exact parts.2.2.1.2.2 other member other isAfter rfl
      refine ⟨leafId, leaf, low', high', before₁ ++ before, after ++ after₁, ?_, by simp [member],
        leafFound, valid, leafSmall, by simp, ?_, ?_, ?_, ?_⟩
      · simp [BTree.findLeaf, found, child', walk]
      · intro entry inside
        rcases List.mem_append.mp (by simpa using inside) with early | late
        · exact isBefore₁ entry early
        · exact isBefore entry late
      · intro entry inside
        rcases List.mem_append.mp (by simpa using inside) with early | late
        · exact isAfter entry early
        · exact isAfter₁ entry late
      · intro other inside
        simp only [List.mem_append] at inside
        rcases inside with (early | middle) | middle | late
        · exact notOutside other.1 (.inl (beforeMem other early))
        · exact apart other (by simp [middle])
        · exact apart other (by simp [middle])
        · exact notOutside other.1 (.inr (afterMem other late))
      · intro nodes' leaf' same found' valid' small'
        have nodeKept : nodes'.lookup id = some (.internal node) := by
          rw [same id (by simp) ?_, found]
          rintro rfl
          exact parts.1.2.1 member
        rcases rebuild (Shape precedes nodes' depth)
          fun low high other leaves otherIds outside shape =>
          shape.congr fun id isOther => by
            rcases outside id isOther with isBefore | isAfter
            · exact same id (by simp [isBefore]) (notOutside id (.inl isBefore))
            · exact same id (by simp [isAfter]) (notOutside id (.inr isAfter)) with ⟨replace, -⟩
        have childShape' := exchange nodes' leaf'
          (fun other inside => same other (by simp [inside])) found' valid' small'
        exact ⟨node, _, nodeKept, small, by simpa using replace _ _ childShape', rfl⟩

end Walks

section Leaves

variable {precedes : Key → Key → Prop} {leaf : LeafNode Key Value} {low high : Option Key}
    {key : Key}

/-- A leaf without the first entry of a key. -/
def LeafNode.erase (key : Key) (leaf : LeafNode Key Value) : LeafNode Key Value :=
  match leaf.findKeyIndex key with
  | some index =>
      { leaf with keys := leaf.keys.eraseIdx index, rids := leaf.rids.eraseIdx index }
  | none => leaf

theorem LeafNode.Valid.erase (valid : leaf.Valid precedes low high) (key : Key) :
    (leaf.erase key).Valid precedes low high := by
  rw [LeafNode.erase]
  split
  · refine ⟨?_, valid.sorted.sublist (List.eraseIdx_sublist _ _),
      fun other inside => valid.within other (List.mem_of_mem_eraseIdx inside)⟩
    simp only [List.length_eraseIdx, valid.lengths]
  · exact valid

theorem LeafNode.length_erase_le (key : Key) (leaf : LeafNode Key Value) :
    (leaf.erase key).keys.length ≤ leaf.keys.length := by
  rw [LeafNode.erase]
  split
  · exact (List.eraseIdx_sublist _ _).length_le
  · exact le_rfl

theorem LeafNode.nextLeaf_erase (key : Key) (leaf : LeafNode Key Value) :
    (leaf.erase key).nextLeaf = leaf.nextLeaf := by
  rw [LeafNode.erase]
  split
  · rfl
  · rfl

/-- The values of the entries in a closed range. -/
def inRange (first last : Key) (content : List (Key × Value)) : List Value :=
  (content.filter fun entry => first ≤ entry.1 ∧ entry.1 ≤ last).map Prod.snd

theorem inRange_append (first last : Key) (left right : List (Key × Value)) :
    inRange first last (left ++ right) = inRange first last left ++ inRange first last right := by
  simp [inRange]

theorem inRange_of_below {first last : Key} {content : List (Key × Value)}
    (below : ∀ entry ∈ content, entry.1 < first) : inRange first last content = [] := by
  rw [inRange, List.map_eq_nil_iff, List.filter_eq_nil_iff]
  intro entry inside
  simpa using fun le => absurd (below entry inside) (not_lt.mpr le)

theorem inRange_of_above {first last : Key} {content : List (Key × Value)}
    (above : ∀ entry ∈ content, last < entry.1) : inRange first last content = [] := by
  rw [inRange, List.map_eq_nil_iff, List.filter_eq_nil_iff]
  intro entry inside
  simpa using fun _ => above entry inside

theorem scanLeaf_eq [Ascending precedes] {first last : Key} {keys : List Key} {values : List Value}
    (lengths : keys.length = values.length) (sorted : keys.Pairwise precedes) :
    BTree.scanLeaf first last keys values =
      (inRange first last (keys.zip values), keys.any fun key => last < key) := by
  induction keys generalizing values with
  | nil => simp [BTree.scanLeaf, inRange]
  | cons key keys ih =>
      cases values with
      | nil => simp at lengths
      | cons value values =>
          rw [List.pairwise_cons] at sorted
          by_cases past : last < key
          · have nothing : inRange first last ((key :: keys).zip (value :: values)) = [] := by
              apply inRange_of_above
              intro entry inside
              rcases List.mem_cons.mp inside with rfl | later
              · exact past
              · exact lt_of_lt_of_le past
                  (Ascending.le (sorted.1 entry.1 (List.of_mem_zip later).1))
            rw [nothing]
            simp [BTree.scanLeaf, past]
          · have tail := ih (by simpa using lengths) sorted.2
            rw [BTree.scanLeaf, if_neg past, tail]
            by_cases inside : first ≤ key
            · simp [inRange, inside, past, not_lt.mp past]
            · simp [inRange, inside, past]

end Leaves

namespace BTree

variable {precedes : Key → Key → Prop} {tree : BTree Key Value} {depth : ℕ}
  {leaves : List (Leaf Key Value)} {ids : List ℕ}

/-- A tree whose leaves are linked from left to right, and all whose nodes are below the root. -/
structure Arranged (precedes : Key → Key → Prop) (tree : BTree Key Value) (depth : ℕ)
    (leaves : List (Leaf Key Value)) (ids : List ℕ) : Prop where
  shape : Shape precedes tree.nodes depth none none tree.rootId leaves ids
  nodup : ids.Nodup
  bounded : ∀ id ∈ ids, id < tree.nextPageId
  covered : ∀ id ∈ tree.nodes, id ∈ ids
  linked : Linked tree.nodes leaves none

theorem within_all (key : Key) : Within precedes none none key := by simp [Within]

theorem arranged_new : (new : BTree Key Value).Arranged precedes 0 [(0, [])] [0] where
  shape := by
    refine ⟨LeafNode.new, AList.lookup_insert ∅, ⟨rfl, ?_, ?_⟩, ?_, rfl, rfl⟩
    · simp [LeafNode.new]
    · simp [LeafNode.new]
    · simp [LeafNode.new, order]
  nodup := by simp
  bounded := by simp [new, allocPage]
  covered := by
    intro id isNode
    simpa using mem_allocPage.mp isNode
  linked := ⟨⟨LeafNode.new, AList.lookup_insert ∅, rfl, rfl⟩, trivial⟩

variable [Ascending precedes]

/-- An insertion adds one entry. -/
theorem Arranged.insert {key : Key} (arranged : tree.Arranged precedes depth leaves ids)
    (value : Value) (fits : ∀ entry ∈ entries leaves, key ≤ entry.1 → precedes key entry.1) :
    ∃ depth' leaves' ids', (tree.insert key value).Arranged precedes depth' leaves' ids' ∧
      (entries leaves').Perm ((key, value) :: entries leaves) := by
  rcases insertRecursive_spec value depth (arranged.shape.fuel arranged.nodup).1 arranged.shape
    arranged.nodup arranged.bounded (within_all key) fits with
    ⟨split, tree', leaves', ids', run, inserted⟩
  have linked := inserted.linked none arranged.linked
  have extension := inserted.extension
  have covered : ∀ id ∈ tree'.nodes, id ∈ ids' := fun id isNode =>
    (extension.covered id isNode).elim (fun isOld => inserted.kept id (arranged.covered id isOld))
      fun isNew => isNew
  cases split with
  | none =>
      have result : tree.insert key value = tree' := by simp [BTree.insert, run]
      rw [result]
      exact ⟨depth, leaves', ids', ⟨extension.rootId ▸ inserted.shape, extension.nodup,
        extension.bounded, covered, linked⟩, inserted.content⟩
  | some split =>
      rcases inserted.shape with
        ⟨left, right, leftIds, rightIds, rfl, rfl, separates, leftShape, rightShape⟩
      let root : InternalNode Key := ⟨[split.promotedKey], [tree'.rootId, split.newPageId]⟩
      have result : tree.insert key value =
          { (allocPage (.internal root) tree').2 with rootId := tree'.nextPageId } := by
        simp [BTree.insert, run, allocPage, root]
      have same : ∀ id ∈ leftIds ++ rightIds,
          ((allocPage (.internal root) tree').2).nodes.lookup id = tree'.nodes.lookup id := by
        intro id inside
        have bound := extension.bounded id inside
        exact AList.lookup_insert_ne (by omega)
      rw [result]
      refine ⟨depth + 1, left ++ right, tree'.nextPageId :: (leftIds ++ rightIds),
        ⟨⟨root, leftIds ++ rightIds, by simp [allocPage], by simp [root, order], ?_, rfl⟩, ?_, ?_,
          ?_, ?_⟩, inserted.content⟩
      · refine .cons separates ?_ (.last ?_)
        · rw [extension.rootId]
          exact leftShape.congr fun id inside => same id (List.mem_append_left _ inside)
        · exact rightShape.congr fun id inside => same id (List.mem_append_right _ inside)
      · refine List.nodup_cons.mpr ⟨fun inside => ?_, extension.nodup⟩
        exact absurd (extension.bounded _ inside) (lt_irrefl _)
      · intro id inside
        show id < tree'.nextPageId + 1
        rcases List.mem_cons.mp inside with rfl | isOld
        · omega
        · exact Nat.lt_succ_of_lt (extension.bounded id isOld)
      · intro id isNode
        rcases mem_allocPage.mp isNode with rfl | isOld
        · exact List.mem_cons_self
        · exact List.mem_cons_of_mem _ (covered id isOld)
      · refine linked.congr fun leaf isLeaf => same _ ?_
        rcases List.mem_append.mp isLeaf with isLeft | isRight
        · exact List.mem_append_left _ (leftShape.leaf_mem leaf isLeft)
        · exact List.mem_append_right _ (rightShape.leaf_mem leaf isRight)

/-- A deletion takes an entry out of the leaf that `find_leaf` reaches. -/
theorem Arranged.delete (arranged : tree.Arranged precedes depth leaves ids) (key : Key) :
    ∃ (leafId : ℕ) (leaf : LeafNode Key Value) (low high : Option Key)
        (before after : List (Leaf Key Value)), leaf.Valid precedes low high ∧
      leaves = before ++ (leafId, leaf.entries) :: after ∧
      (∀ entry ∈ entries before, precedes entry.1 key) ∧
      (∀ entry ∈ entries after, key < entry.1) ∧
      (tree.delete key).2.Arranged precedes depth
        (before ++ (leafId, (leaf.erase key).entries) :: after) ids := by
  rcases arranged.shape.focus arranged.nodup (within_all key)
    (arranged.shape.fuel arranged.nodup).1 with
    ⟨_, leaf, low, high, before, after, rfl, member, found, valid, small, rfl, isBefore,
      isAfter, apart, exchange⟩
  let leafId := tree.findLeaf key tree.fuel tree.rootId
  refine ⟨leafId, leaf, low, high, before, after, valid, rfl, isBefore, isAfter, ?_⟩
  cases index : leaf.findKeyIndex key with
  | none =>
      have result : (tree.delete key).2 = tree := by simp [BTree.delete, found, index]
      have erased : leaf.erase key = leaf := by simp [LeafNode.erase, index]
      rw [result, erased]
      exact arranged
  | some position =>
      have result : (tree.delete key).2 = tree.store leafId (.leaf (leaf.erase key)) := by
        simp [BTree.delete, found, index, LeafNode.erase, leafId]
      have same : ∀ other, other ≠ leafId →
          (tree.store leafId (.leaf (leaf.erase key))).nodes.lookup other =
            tree.nodes.lookup other := fun other ne => lookup_store_of_ne ne
      rw [result]
      refine ⟨?_, arranged.nodup, arranged.bounded, ?_, ?_⟩
      · exact exchange _ _ (fun other _ => same other) lookup_store_self (valid.erase key)
          (lt_of_le_of_lt (leaf.length_erase_le key) small)
      · intro id isNode
        rcases mem_store.mp isNode with rfl | isOld
        · exact member
        · exact arranged.covered id isOld
      · have linked := arranged.linked
        rw [linked_append] at linked ⊢
        rcases linked with ⟨beforeLinked, ⟨node, nodeFound, -, next⟩, afterLinked⟩
        obtain rfl : leaf = node := by simpa [found] using nodeFound
        refine ⟨?_, ⟨leaf.erase key, lookup_store_self, rfl, ?_⟩, ?_⟩
        · exact beforeLinked.congr fun other inside => same _ (apart other (by simp [inside]))
        · rw [LeafNode.nextLeaf_erase, next]
        · exact afterLinked.congr fun other inside => same _ (apart other (by simp [inside]))

omit [Ascending precedes] in
/-- The scan along the leaves, by induction on the leaves still ahead. -/
theorem scanLeaves_eq [Ascending precedes] {first last : Key} {leaves : List (Leaf Key Value)}
    (leaf : Leaf Key Value)
    {fuel : ℕ} (enough : leaves.length < fuel) (linked : Linked tree.nodes (leaf :: leaves) none)
    (valid : ∀ other ∈ leaf :: leaves, ∀ node, tree.nodes.lookup other.1 = some (.leaf node) →
      node.keys.length = node.rids.length ∧ node.keys.Pairwise precedes)
    (sorted : (entries (leaf :: leaves)).Pairwise fun left right => precedes left.1 right.1) :
    tree.scanLeaves first last fuel leaf.1 = inRange first last (entries (leaf :: leaves)) := by
  induction leaves generalizing leaf fuel with
  | nil =>
      obtain ⟨fuel, rfl⟩ : ∃ rest, fuel = rest + 1 := ⟨fuel - 1, by omega⟩
      rcases linked with ⟨⟨node, found, here, next⟩, -⟩
      rcases valid leaf (by simp) node found with ⟨lengths, nodeSorted⟩
      have next' : node.nextLeaf = none := next
      rw [LeafNode.entries] at here
      simp [scanLeaves, found, scanLeaf_eq lengths nodeSorted, next', here]
  | cons following leaves ih =>
      obtain ⟨fuel, rfl⟩ : ∃ rest, fuel = rest + 1 := ⟨fuel - 1, by omega⟩
      rcases linked with ⟨⟨node, found, here, next⟩, linked⟩
      rcases valid leaf (by simp) node found with ⟨lengths, nodeSorted⟩
      have next' : node.nextLeaf = some following.1 := next
      rw [entries_cons, List.pairwise_append] at sorted
      have enough' : leaves.length < fuel := by simpa using enough
      have rest := ih following enough' linked
        (fun other inside => valid other (List.mem_cons_of_mem _ inside)) sorted.2.1
      have zipped : node.keys.zip node.rids = leaf.2 := here
      rw [entries_cons leaf, inRange_append, ← rest]
      by_cases past : (node.keys.any fun key => last < key) = true
      · -- a key of this leaf is past the range, so all later keys are
        have nothing : inRange first last (entries (following :: leaves)) = [] := by
          apply inRange_of_above
          intro entry inside
          rcases List.any_eq_true.mp past with ⟨key, isKey, above⟩
          obtain ⟨value, isEntry⟩ : ∃ value, (key, value) ∈ leaf.2 := by
            have keys : (node.keys.zip node.rids).map Prod.fst = node.keys :=
              List.map_fst_zip (by rw [lengths])
            rw [← keys, zipped] at isKey
            simpa using isKey
          exact lt_of_lt_of_le (by simpa using above)
            (Ascending.le (sorted.2.2 _ isEntry entry inside))
        rw [rest, nothing, List.append_nil, scanLeaves]
        simp only [found, scanLeaf_eq lengths nodeSorted, past, zipped, if_true]
      · rw [scanLeaves]
        simp only [found, scanLeaf_eq lengths nodeSorted, zipped, next']
        rw [if_neg past]

/-- A range scan gives the entries in the range, but for those in leaves before the one that
`find_leaf` reaches. -/
theorem Arranged.rangeScan (arranged : tree.Arranged precedes depth leaves ids)
    (first last : Key) :
    ∃ leafId before after, ∃ leaf : LeafNode Key Value,
      tree.findLeaf first tree.fuel tree.rootId = leafId ∧
      leaves = before ++ (leafId, leaf.entries) :: after ∧
      (∀ entry ∈ entries before, precedes entry.1 first) ∧
      tree.rangeScan first last =
        inRange first last (entries ((leafId, leaf.entries) :: after)) := by
  have fuel := arranged.shape.fuel arranged.nodup
  rcases arranged.shape.focus arranged.nodup (within_all first) fuel.1 with
    ⟨leafId, leaf, low, high, before, after, walk, -, found, -, -, rfl, isBefore, -, -, -⟩
  refine ⟨leafId, before, after, leaf, walk, rfl, isBefore, ?_⟩
  have sorted := arranged.shape.sorted
  have linked := arranged.linked
  rw [entries_append, List.pairwise_append] at sorted
  rw [linked_append] at linked
  rw [BTree.rangeScan, walk]
  refine scanLeaves_eq (leafId, leaf.entries) ?_ linked.2 ?_ sorted.2.1
  · have bound := fuel.2
    rw [List.length_append, List.length_cons] at bound
    omega
  · intro other inside node nodeFound
    exact arranged.shape.leaf_valid other (List.mem_append_right _ inside) node nodeFound

end BTree

end VenomDb.Index
