import VenomDb.Index.Structure

/-!
# Range scans over repeated keys

The descent to a key goes to the right of every separator that is equal to it, and the scan
starts at the leaf it reaches. Entries with this key that a split has left on the other side of
such a separator are not found. All other entries of the range are.
-/

namespace VenomDb.Index

variable {Key Value : Type} [LinearOrder Key]

/-- An entry with a key in a leaf below a node. -/
def HoldsBelow (nodes : AList fun _ : ℕ => BTreeNode Key Value) (id : ℕ) (key : Key) : Prop :=
  ∃ steps other leaf, Path nodes steps id other ∧ nodes.lookup other = some (.leaf leaf) ∧
    key ∈ leaf.keys

/-- A separator that is equal to a key of an entry below the child on its left. -/
def DividedAt (nodes : AList fun _ : ℕ => BTreeNode Key Value) (key : Key) (id : ℕ) : Prop :=
  ∃ (node : InternalNode Key) (index child : ℕ), nodes.lookup id = some (.internal node) ∧
    node.keys[index]? = some key ∧
    node.children[index]? = some child ∧ HoldsBelow nodes child key

section Rows

variable {precedes : Key → Key → Prop} [Ascending precedes]
  {shape : Option Key → Option Key → ℕ → List (Leaf Key Value) → List ℕ → Prop}
  {low high : Option Key} {keys : List Key} {children : List ℕ} {leaves : List (Leaf Key Value)}
  {ids : List ℕ} {key : Key}

/-- The children left and right of the one that `find_child_index` picks. -/
theorem Row.sides (row : Row precedes shape low high keys children leaves ids)
    (inside : Within precedes low high key)
    (within : ∀ {low high child leaves ids}, shape low high child leaves ids →
      ∀ entry ∈ entries leaves, Within precedes low high entry.1) :
    ∃ child low' high' before middle after middleIds,
      children[partitionPoint keys fun separator => separator ≤ key]? = some child ∧
      shape low' high' child middle middleIds ∧ Within precedes low' high' key ∧
      leaves = before ++ (middle ++ after) ∧ middleIds.Sublist ids ∧
      (∀ entry ∈ entries before, key ≤ entry.1 → ∃ (index : ℕ) (other : ℕ) (low'' : Option Key)
          (leaves' : List (Leaf Key Value)) (ids' : List ℕ),
        keys[index]? = some key ∧ children[index]? = some other ∧
        shape low'' (some key) other leaves' ids' ∧ entry ∈ entries leaves') ∧
      ∀ index other : ℕ, children[index]? = some other →
        (index = (partitionPoint keys fun separator => separator ≤ key) ∧ other = child ∧
          keys[index]? ≠ some key) ∨
        ∃ low'' high'' leaves' ids', shape low'' high'' other leaves' ids' ∧
          ((∀ entry ∈ entries leaves', entry ∈ entries before) ∨
            ∀ entry ∈ entries leaves', key < entry.1) := by
  induction row with
  | @last low high child leaves ids only =>
      refine ⟨child, low, high, [], leaves, [], ids, by simp [partitionPoint], only, inside,
        by simp, List.Sublist.refl _, by simp, ?_⟩
      intro index other found
      cases index with
      | zero => exact .inl ⟨by simp [partitionPoint], by simpa using found.symm, by simp⟩
      | succ index => simp at found
  | @cons low high separator keys first children left right leftIds rightIds separates isFirst rest
      ih =>
      by_cases le : separator ≤ key
      · -- the key belongs to the right of the first separator
        rcases ih ⟨fun bound isLow => by simpa [← Option.mem_some_iff.mp isLow] using le, inside.2⟩
          with ⟨child, low', high', before, middle, after, middleIds, found, focused, insideChild,
            rfl, sublist, isBefore, others⟩
        have index : (partitionPoint (separator :: keys) fun separator => separator ≤ key) =
            (partitionPoint keys fun separator => separator ≤ key) + 1 := by
          simp [partitionPoint, le]
        refine ⟨child, low', high', left ++ before, middle, after, middleIds,
          by simpa [index] using found, focused, insideChild, by simp,
          sublist.trans (List.sublist_append_right _ _), ?_, ?_⟩
        · intro entry isEntry above
          rcases List.mem_append.mp (by simpa using isEntry) with isLeft | isLater
          · have below := Ascending.le ((within isFirst entry isLeft).2 separator rfl)
            obtain rfl : separator = key := le_antisymm le (above.trans below)
            exact ⟨0, first, low, left, leftIds, rfl, rfl, isFirst, isLeft⟩
          · rcases isBefore entry isLater above with
              ⟨position, other, low'', leaves', ids', isKey, isChild, isShape, isIn⟩
            exact ⟨position + 1, other, low'', leaves', ids', by simpa using isKey,
              by simpa using isChild, isShape, isIn⟩
        · intro position other isChild
          cases position with
          | zero =>
              obtain rfl : first = other := by simpa using isChild
              exact .inr ⟨low, some separator, left, leftIds, isFirst,
                .inl fun entry isLeft => by simp [isLeft]⟩
          | succ position =>
              rcases others position other (by simpa using isChild) with
                ⟨isPicked, same, notKey⟩ | ⟨low'', high'', leaves', ids', isShape, sides⟩
              · exact .inl ⟨by rw [index, isPicked], same, by simpa using notKey⟩
              · refine .inr ⟨low'', high'', leaves', ids', isShape, sides.imp_left ?_⟩
                exact fun isBefore entry isEntry => by simp [isBefore entry isEntry]
      · -- the key belongs to the first child, and all others are above it
        have below : key < separator := not_le.mp le
        have index : (partitionPoint (separator :: keys) fun separator => separator ≤ key) = 0 := by
          simp [partitionPoint, le]
        refine ⟨first, low, some separator, [], left, right, leftIds, by simp [index], isFirst,
          ⟨inside.1, fun bound isHigh => by
            simpa [← Option.mem_some_iff.mp isHigh] using Ascending.of_lt below⟩, by simp,
          List.sublist_append_left _ _, by simp, ?_⟩
        intro position other isChild
        cases position with
        | zero =>
            refine .inl ⟨index.symm, by simpa using isChild.symm, fun isKey => ?_⟩
            exact le (by simp_all)
        | succ position =>
            rcases rest.child (by simpa using isChild) with
              ⟨low'', high'', leaves', ids', isShape, smaller, -⟩
            refine .inr ⟨low'', high'', leaves', ids', isShape, .inr fun entry isEntry => ?_⟩
            have above := (smaller _ (within isShape entry isEntry)).1 separator rfl
            exact lt_of_lt_of_le below above

end Rows

section Shapes

variable {precedes : Key → Key → Prop} {nodes : AList fun _ : ℕ => BTreeNode Key Value}
  {tree : BTree Key Value} {low high : Option Key} {depth id other steps : ℕ}
  {leaves : List (Leaf Key Value)} {ids : List ℕ} {key : Key}

omit [LinearOrder Key] in
theorem not_mem_childrenOf_leaf {leaf : LeafNode Key Value}
    (found : nodes.lookup id = some (.leaf leaf)) : other ∉ childrenOf nodes id := by
  simp [childrenOf, found, BTreeNode.children]

omit [LinearOrder Key] in
theorem childrenOf_internal {node : InternalNode Key}
    (found : nodes.lookup id = some (.internal node)) : childrenOf nodes id = node.children := by
  simp [childrenOf, found, BTreeNode.children]

omit [LinearOrder Key] in
theorem holdsBelow_internal {node : InternalNode Key}
    (found : nodes.lookup id = some (.internal node)) :
    HoldsBelow nodes id key ↔ ∃ child ∈ node.children, HoldsBelow nodes child key := by
  constructor
  · rintro ⟨steps, other, leaf, path, isLeaf, isKey⟩
    cases path with
    | here => simp [found] at isLeaf
    | down isChild rest =>
        rw [childrenOf_internal found] at isChild
        exact ⟨_, isChild, _, other, leaf, rest, isLeaf, isKey⟩
  · rintro ⟨child, isChild, steps, other, leaf, path, isLeaf, isKey⟩
    rw [← childrenOf_internal found] at isChild
    exact ⟨steps + 1, other, leaf, .down isChild path, isLeaf, isKey⟩

theorem Row.holdsBelow_iff {keys : List Key} {children : List ℕ}
    {shape : Option Key → Option Key → ℕ → List (Leaf Key Value) → List ℕ → Prop}
    (row : Row precedes shape low high keys children leaves ids)
    (step : ∀ {low high child leaves ids}, shape low high child leaves ids →
      (HoldsBelow nodes child key ↔ ∃ entry ∈ entries leaves, entry.1 = key)) :
    (∃ child ∈ children, HoldsBelow nodes child key) ↔ ∃ entry ∈ entries leaves, entry.1 = key := by
  induction row with
  | last only => simpa using step only
  | cons _ first _ ih =>
      rw [List.exists_mem_cons_iff, ih, step first]
      simp only [entries_append, List.mem_append, or_and_right, exists_or]

/-- The entries of a subtree are those of the leaves below its root. -/
theorem Shape.holdsBelow_iff (shape : Shape precedes nodes depth low high id leaves ids) :
    HoldsBelow nodes id key ↔ ∃ entry ∈ entries leaves, entry.1 = key := by
  induction depth generalizing low high id leaves ids with
  | zero =>
      rcases shape with ⟨leaf, found, valid, -, rfl, -⟩
      have keys : key ∈ leaf.keys ↔ ∃ entry ∈ entries [(id, leaf.entries)], entry.1 = key := by
        simp [LeafNode.mem_keys valid]
      rw [← keys]
      constructor
      · rintro ⟨steps, other, leaf', path, isLeaf, isKey⟩
        cases path with
        | here =>
            obtain rfl : leaf = leaf' := by simpa [found] using isLeaf
            exact isKey
        | down isChild _ => exact absurd isChild (not_mem_childrenOf_leaf found)
      · exact fun isKey => ⟨0, id, leaf, .here id, found, isKey⟩
  | succ depth ih =>
      rcases shape with ⟨node, childIds, found, -, row, -⟩
      rw [holdsBelow_internal found]
      exact row.holdsBelow_iff fun shape => ih shape

omit [LinearOrder Key] in
theorem Path.trans {first second third steps' : ℕ} (path : Path nodes steps first second)
    (rest : Path nodes steps' second third) : ∃ steps'', Path nodes steps'' first third := by
  induction path with
  | here => exact ⟨steps', rest⟩
  | down isChild _ ih =>
      rcases ih rest with ⟨steps'', path⟩
      exact ⟨steps'' + 1, .down isChild path⟩

omit [LinearOrder Key] in
theorem DividedAt.holdsBelow (divided : DividedAt nodes key other)
    (path : Path nodes steps id other) : HoldsBelow nodes id key := by
  rcases divided with ⟨node, index, child, found, -, isChild, below⟩
  rcases (holdsBelow_internal found).mpr ⟨child, List.mem_of_getElem? isChild, below⟩ with
    ⟨steps', last, leaf, rest, isLeaf, isKey⟩
  rcases path.trans rest with ⟨steps'', whole⟩
  exact ⟨steps'', last, leaf, whole, isLeaf, isKey⟩

omit [LinearOrder Key] in
/-- A list of leaves is divided in one way at a leaf. -/
theorem leaves_split_unique {before before' after after' : List (Leaf Key Value)}
    {content content' : List (Key × Value)}
    (same : before ++ (id, content) :: after = before' ++ (id, content') :: after')
    (nodup : ((before ++ (id, content) :: after).map Prod.fst).Nodup) : before = before' := by
  have first : id ∉ before.map Prod.fst := by
    intro isBefore
    rw [List.map_append, List.map_cons, List.nodup_append] at nodup
    exact nodup.2.2 id isBefore id List.mem_cons_self rfl
  have second : id ∉ before'.map Prod.fst := by
    intro isBefore
    rw [same, List.map_append, List.map_cons, List.nodup_append] at nodup
    exact nodup.2.2 id isBefore id List.mem_cons_self rfl
  have cut : ∀ {front back : List (Leaf Key Value)} {content : List (Key × Value)},
      id ∉ front.map Prod.fst →
      (front ++ (id, content) :: back).takeWhile (fun leaf => leaf.1 ≠ id) = front := by
    intro front back content absent
    rw [List.takeWhile_append_of_pos]
    · simp
    · intro leaf isFront
      have differs : leaf.1 ≠ id := fun isId => absent (isId ▸ List.mem_map_of_mem isFront)
      simpa using differs
  rw [← cut first, same, cut second]

/-- The leaves before the one that `find_leaf` reaches hold the key exactly if it is divided. -/
theorem Shape.before_iff [Ascending precedes] {fuel : ℕ} {before after : List (Leaf Key Value)}
    {content : List (Key × Value)}
    (shape : Shape precedes tree.nodes depth low high id leaves ids) (nodup : ids.Nodup)
    (within : Within precedes low high key) (enough : depth < fuel)
    (split : leaves = before ++ (tree.findLeaf key fuel id, content) :: after) :
    (∃ entry ∈ entries before, entry.1 = key) ↔
      ∃ steps other, Path tree.nodes steps id other ∧ DividedAt tree.nodes key other := by
  induction depth generalizing fuel low high id leaves ids before after content with
  | zero =>
      rcases shape with ⟨leaf, found, -, -, rfl, -⟩
      have isEmpty : before = [] := by
        have := congrArg List.length split
        simp only [List.length_append, List.length_cons, List.length_nil] at this
        exact List.eq_nil_of_length_eq_zero (by omega)
      refine iff_of_false (by simp [isEmpty]) ?_
      rintro ⟨steps, other, path, node, index, child, isNode, -⟩
      cases path with
      | here => simp [found] at isNode
      | down isChild _ => exact absurd isChild (not_mem_childrenOf_leaf found)
  | succ depth ih =>
      obtain ⟨fuel, rfl⟩ : ∃ rest, fuel = rest + 1 := ⟨fuel - 1, by omega⟩
      have enough' : depth < fuel := by omega
      have leavesNodup := nodup.sublist shape.leaves_sublist
      rcases shape with ⟨node, childIds, found, -, row, rfl⟩
      rcases row.sides within (fun shape => shape.within) with
        ⟨child, low', high', left, middle, right, middleIds, isPicked, childShape, childWithin, rfl,
          sublist, isLeft, others⟩
      have childNodup : middleIds.Nodup := (List.nodup_cons.mp nodup).2.sublist sublist
      have walk : tree.findLeaf key (fuel + 1) id = tree.findLeaf key fuel child := by
        have picked : node.children[node.findChildIndex key]? = some child := isPicked
        simp [BTree.findLeaf, found, picked]
      rcases childShape.focus childNodup childWithin enough' with
        ⟨_, leaf, _, _, inner, outer, rfl, -, -, -, -, rfl, -⟩
      have inChild := ih childShape childNodup childWithin enough' rfl
      have isBefore : before = left ++ inner := by
        rw [walk] at split
        have regrouped : left ++ inner ++ (tree.findLeaf key fuel child, leaf.entries) ::
            (outer ++ right) = before ++ (tree.findLeaf key fuel child, content) :: after := by
          rw [← split]
          simp
        exact leaves_split_unique regrouped.symm (split ▸ leavesNodup)
      rw [isBefore, entries_append]
      constructor
      · rintro ⟨entry, isEntry, isKey⟩
        rcases List.mem_append.mp isEntry with isOuter | isInner
        · rcases isLeft entry isOuter isKey.ge with
            ⟨index, other, low'', leaves', ids', isSeparator, isChild, isShape, isIn⟩
          refine ⟨0, id, .here id, node, index, other, found, isSeparator, isChild, ?_⟩
          exact isShape.holdsBelow_iff.mpr ⟨entry, isIn, isKey⟩
        · rcases inChild.mp ⟨entry, isInner, isKey⟩ with ⟨steps, other, path, divided⟩
          refine ⟨steps + 1, other, .down ?_ path, divided⟩
          rw [childrenOf_internal found]
          exact List.mem_of_getElem? isPicked
      · rintro ⟨steps, last, path, divided⟩
        -- what lies below another child than the one picked is to the left, or above the key
        have elsewhere : ∀ {low'' high'' other leaves' ids'},
            Shape precedes tree.nodes depth low'' high'' other leaves' ids' →
            ((∀ entry ∈ entries leaves', entry ∈ entries left) ∨
              ∀ entry ∈ entries leaves', key < entry.1) → HoldsBelow tree.nodes other key →
            ∃ entry ∈ entries left ++ entries inner, entry.1 = key := by
          intro low'' high'' other leaves' ids' isShape sides below
          rcases isShape.holdsBelow_iff.mp below with ⟨entry, isEntry, isKey⟩
          rcases sides with isOuter | above
          · exact ⟨entry, List.mem_append_left _ (isOuter entry isEntry), isKey⟩
          · exact absurd (above entry isEntry) (by simp [isKey])
        cases path with
        | here =>
            rcases divided with ⟨node', index, other, found', isSeparator, isChild, below⟩
            obtain rfl : node = node' := by simpa [found] using found'
            rcases others index other isChild with
              ⟨-, -, notKey⟩ | ⟨low'', high'', leaves', ids', isShape, sides⟩
            · exact absurd isSeparator notKey
            · exact elsewhere isShape sides below
        | @down steps _ other _ isChild rest =>
            rw [childrenOf_internal found] at isChild
            rcases List.mem_iff_getElem?.mp isChild with ⟨index, isAt⟩
            rcases others index other isAt with
              ⟨-, rfl, -⟩ | ⟨low'', high'', leaves', ids', isShape, sides⟩
            · rcases inChild.mpr ⟨steps, last, rest, divided⟩ with ⟨entry, isInner, isKey⟩
              exact ⟨entry, List.mem_append_right _ isInner, isKey⟩
            · exact elsewhere isShape sides (divided.holdsBelow rest)

end Shapes

namespace BTree

variable {tree : BTree Key Value} {depth : ℕ} {leaves : List (Leaf Key Value)} {ids : List ℕ}

/-- A scan misses nothing exactly if no separator divides the entries of its first key. -/
theorem Arranged.rangeScan_perm_iff (arranged : tree.Arranged (· ≤ ·) depth leaves ids)
    {first last : Key} (ordered : first ≤ last) :
    (tree.rangeScan first last).Perm (inRange first last (entries leaves)) ↔
      ∀ id, ¬DividedAt tree.nodes first id := by
  rcases arranged.rangeScan first last with
    ⟨_, before, after, leaf, rfl, rfl, isBefore, scanned⟩
  have missed : inRange first last (entries before) = [] ↔
      ¬∃ entry ∈ entries before, entry.1 = first := by
    constructor
    · rintro isEmpty ⟨entry, isEntry, isKey⟩
      have isFound : entry.2 ∈ inRange first last (entries before) :=
        List.mem_map_of_mem (List.mem_filter.mpr ⟨isEntry, by simp [isKey, ordered]⟩)
      simp [isEmpty] at isFound
    · intro absent
      apply inRange_of_below
      intro entry isEntry
      exact lt_of_le_of_ne (isBefore entry isEntry) fun isKey => absent ⟨entry, isEntry, isKey⟩
  rw [entries_append, inRange_append, scanned]
  have same : (inRange first last (entries ((tree.findLeaf first tree.fuel tree.rootId,
      leaf.entries) :: after))).Perm (inRange first last (entries before) ++
        inRange first last (entries ((tree.findLeaf first tree.fuel tree.rootId,
          leaf.entries) :: after))) ↔ inRange first last (entries before) = [] := by
    constructor
    · intro perm
      have lengths := perm.length_eq
      rw [List.length_append] at lengths
      exact List.eq_nil_of_length_eq_zero (by omega)
    · intro isEmpty
      rw [isEmpty, List.nil_append]
  rw [same, missed, arranged.shape.before_iff arranged.nodup (within_all first)
    (arranged.shape.fuel arranged.nodup).1 rfl]
  constructor
  · intro notDivided id divided
    have divided' := divided
    rcases divided' with ⟨node, _, _, found, -⟩
    have inside := arranged.covered id (AList.lookup_isSome.mp (by simp [found]))
    rcases arranged.shape.exists_path id inside with ⟨steps, path⟩
    exact notDivided ⟨steps, id, path, divided⟩
  · rintro notDivided ⟨steps, other, -, divided⟩
    exact notDivided other divided

/-- The tree after a sequence of insertions into an empty one. -/
def insertAll (pairs : List (Key × Value)) : BTree Key Value :=
  pairs.foldl (fun tree pair => tree.insert pair.1 pair.2) new

theorem arranged_insertAll (pairs : List (Key × Value)) :
    ∃ depth leaves ids, (insertAll pairs).Arranged (· ≤ ·) depth leaves ids ∧
      (entries leaves).Perm pairs := by
  induction pairs using List.reverseRecOn with
  | nil => exact ⟨0, _, _, arranged_new, by simp⟩
  | append_singleton pairs pair ih =>
      rcases ih with ⟨depth, leaves, ids, arranged, perm⟩
      rcases arranged.insert pair.2 (fun _ _ le => le) with
        ⟨depth', leaves', ids', arranged', perm'⟩
      refine ⟨depth', leaves', ids', ?_, ?_⟩
      · rw [insertAll, List.foldl_append]
        exact arranged'
      · exact perm'.trans ((perm.cons pair).trans (List.perm_append_singleton pair pairs).symm)

/-- A range scan over entries with repeated keys gives the values of all keys in the range exactly
if no separator is equal to the first key of the range and has an entry with this key below the
child on its left. -/
theorem rangeScan_insertAll_iff (pairs : List (Key × Value)) {first last : Key}
    (ordered : first ≤ last) :
    ((insertAll pairs).rangeScan first last).Perm (inRange first last pairs) ↔
      ∀ id, ¬DividedAt (insertAll pairs).nodes first id := by
  rcases arranged_insertAll pairs with ⟨depth, leaves, ids, arranged, perm⟩
  have same : (inRange first last (entries leaves)).Perm (inRange first last pairs) :=
    (perm.filter _).map Prod.snd
  rw [← arranged.rangeScan_perm_iff ordered]
  exact ⟨fun found => found.trans same.symm, fun found => found.trans same⟩

end BTree

end VenomDb.Index

namespace VenomDb.Sample

open Index

/-- Eight rows with the same key. The last insertion splits the leaf between them. -/
def repeated : List (Int64 × Rid) := (List.range 8).map fun slot => (5, ⟨0, slot.toUInt16⟩)

theorem rangeScan_repeated_iff : (5 : Int64) ≤ 5 ∧
    (((BTree.insertAll repeated).rangeScan 5 5).Perm (inRange 5 5 repeated) ↔
      ∀ id, ¬DividedAt (BTree.insertAll repeated).nodes 5 id) :=
  ⟨by decide, BTree.rangeScan_insertAll_iff repeated le_rfl⟩

theorem rangeScan_repeated : (5 : Int64) ≤ 5 ∧
    ¬((BTree.insertAll repeated).rangeScan 5 5).Perm (inRange 5 5 repeated) := by
  refine ⟨by decide, fun perm => ?_⟩
  have fewer : ((BTree.insertAll repeated).rangeScan 5 5).length = 4 := by decide +kernel
  have all : (inRange 5 5 repeated).length = 8 := by decide +kernel
  have := perm.length_eq
  omega

end VenomDb.Sample
