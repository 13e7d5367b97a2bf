import VenomDb.Index.BTree

/-!
# The shape of a B-tree

`Shape precedes nodes depth low high id leaves ids` says that the node `id` is the root
of a tree of the given depth, that all its keys lie in the range from `low` to `high`,
that `leaves` are its leaves from left to right with their entries, and that `ids` are
the addresses of its nodes. `Row` says the same of the children of one node. The keys
ascend by `precedes`, which is `<` if no key is inserted twice and `≤` otherwise.

The sibling links are a property of the list of leaves alone, `Linked`, so that the
two can be kept apart.
-/

namespace VenomDb.Index

variable {Key Value : Type}

/-- A leaf: its address and its entries. -/
abbrev Leaf (Key Value : Type) := ℕ × List (Key × Value)

/-- The entries of leaves in order. -/
def entries (leaves : List (Leaf Key Value)) : List (Key × Value) :=
  (leaves.map Prod.snd).flatten

@[simp]
theorem entries_nil : entries ([] : List (Leaf Key Value)) = [] := rfl

@[simp]
theorem entries_cons (leaf : Leaf Key Value) (leaves : List (Leaf Key Value)) :
    entries (leaf :: leaves) = leaf.2 ++ entries leaves := by
  simp [entries]

@[simp]
theorem entries_append (left right : List (Leaf Key Value)) :
    entries (left ++ right) = entries left ++ entries right := by
  simp [entries]

section Order

variable [LinearOrder Key]

/-- How the keys of a tree follow each other: strictly, or with repetitions. -/
class Ascending (precedes : Key → Key → Prop) : Prop where
  of_lt {first second : Key} : first < second → precedes first second
  le {first second : Key} : precedes first second → first ≤ second

instance ascending_lt : Ascending fun first second : Key => first < second := ⟨id, le_of_lt⟩

instance ascending_le : Ascending fun first second : Key => first ≤ second := ⟨le_of_lt, id⟩

variable {precedes : Key → Key → Prop}

theorem Ascending.trans_le [Ascending precedes] {first second third : Key}
    (isFirst : precedes first second) (isSecond : second ≤ third) : precedes first third := by
  rcases isSecond.eq_or_lt with rfl | less
  · exact isFirst
  · exact of_lt (lt_of_le_of_lt (le isFirst) less)

theorem Ascending.le_trans [Ascending precedes] {first second third : Key}
    (isFirst : first ≤ second) (isSecond : precedes second third) : precedes first third := by
  rcases isFirst.eq_or_lt with rfl | less
  · exact isSecond
  · exact of_lt (lt_of_lt_of_le less (le isSecond))

theorem Ascending.trans [Ascending precedes] {first second third : Key}
    (isFirst : precedes first second) (isSecond : precedes second third) :
    precedes first third :=
  trans_le isFirst (le isSecond)

variable (precedes) in
/-- The range of a subtree; a missing bound is infinite. -/
def Within (low high : Option Key) (key : Key) : Prop :=
  (∀ bound ∈ low, bound ≤ key) ∧ ∀ bound ∈ high, precedes key bound

variable (precedes) in
/-- A separator lies inside the range it divides. -/
def Separates (low high : Option Key) (key : Key) : Prop :=
  (∀ bound ∈ low, precedes bound key) ∧ ∀ bound ∈ high, precedes key bound

variable [Ascending precedes] {low high : Option Key} {separator key : Key}

theorem Within.left (within : Within precedes low (some separator) key)
    (separates : Separates precedes low high separator) : Within precedes low high key :=
  ⟨within.1, fun bound isHigh =>
    Ascending.trans (within.2 separator rfl) (separates.2 bound isHigh)⟩

theorem Within.right (within : Within precedes (some separator) high key)
    (separates : Separates precedes low high separator) : Within precedes low high key :=
  ⟨fun bound isLow => (Ascending.le (separates.1 bound isLow)).trans (within.1 separator rfl),
    within.2⟩

end Order

/-- A leaf node with sorted keys in a range, one value for each key. -/
structure LeafNode.Valid [LinearOrder Key] (precedes : Key → Key → Prop)
    (leaf : LeafNode Key Value) (low high : Option Key) : Prop where
  lengths : leaf.keys.length = leaf.rids.length
  sorted : leaf.keys.Pairwise precedes
  within : ∀ key ∈ leaf.keys, Within precedes low high key

/-- The entries of a leaf node. -/
def LeafNode.entries (leaf : LeafNode Key Value) : List (Key × Value) := leaf.keys.zip leaf.rids

/-- The children of a node, each with the range its separators give it. -/
inductive Row [LinearOrder Key] (precedes : Key → Key → Prop)
    (shape : Option Key → Option Key → ℕ → List (Leaf Key Value) → List ℕ → Prop) :
    Option Key → Option Key → List Key → List ℕ → List (Leaf Key Value) → List ℕ → Prop where
  | last {low high : Option Key} {child : ℕ} {leaves : List (Leaf Key Value)} {ids : List ℕ}
      (only : shape low high child leaves ids) : Row precedes shape low high [] [child] leaves ids
  | cons {low high : Option Key} {separator : Key} {keys : List Key} {child : ℕ}
      {children : List ℕ} {left right : List (Leaf Key Value)} {leftIds rightIds : List ℕ}
      (separates : Separates precedes low high separator)
      (first : shape low (some separator) child left leftIds)
      (rest : Row precedes shape (some separator) high keys children right rightIds) :
      Row precedes shape low high (separator :: keys) (child :: children) (left ++ right)
        (leftIds ++ rightIds)

/-- A subtree of the given depth. -/
def Shape [LinearOrder Key] (precedes : Key → Key → Prop)
    (nodes : AList fun _ : ℕ => BTreeNode Key Value) :
    ℕ → Option Key → Option Key → ℕ → List (Leaf Key Value) → List ℕ → Prop
  | 0, low, high, id, leaves, ids =>
      ∃ leaf, nodes.lookup id = some (.leaf leaf) ∧ leaf.Valid precedes low high ∧
        leaf.keys.length < 2 * order ∧ leaves = [(id, leaf.entries)] ∧ ids = [id]
  | depth + 1, low, high, id, leaves, ids =>
      ∃ node childIds, nodes.lookup id = some (.internal node) ∧
        (1 ≤ node.keys.length ∧ node.keys.length < 2 * order) ∧
        Row precedes (Shape precedes nodes depth) low high node.keys node.children leaves childIds ∧
        ids = id :: childIds

/-- The address of the first leaf, or what follows if there is none. -/
def firstLeaf (leaves : List (Leaf Key Value)) (after : Option ℕ) : Option ℕ :=
  match leaves with
  | [] => after
  | leaf :: _ => some leaf.1

/-- Each leaf points to the next one, the last one to `after`. -/
def Linked (nodes : AList fun _ : ℕ => BTreeNode Key Value) :
    List (Leaf Key Value) → Option ℕ → Prop
  | [], _ => True
  | leaf :: leaves, after =>
      (∃ node, nodes.lookup leaf.1 = some (.leaf node) ∧ node.entries = leaf.2 ∧
        node.nextLeaf = firstLeaf leaves after) ∧ Linked nodes leaves after

section Lists

variable {nodes nodes' : AList fun _ : ℕ => BTreeNode Key Value}

theorem firstLeaf_append (left right : List (Leaf Key Value)) (after : Option ℕ) :
    firstLeaf (left ++ right) after = firstLeaf left (firstLeaf right after) := by
  cases left <;> rfl

theorem linked_append {left right : List (Leaf Key Value)} {after : Option ℕ} :
    Linked nodes (left ++ right) after ↔
      Linked nodes left (firstLeaf right after) ∧ Linked nodes right after := by
  induction left with
  | nil => simp [Linked]
  | cons leaf left ih => simp [Linked, firstLeaf_append, ih, and_assoc]

theorem Linked.congr {leaves : List (Leaf Key Value)} {after : Option ℕ}
    (linked : Linked nodes leaves after)
    (same : ∀ leaf ∈ leaves, nodes'.lookup leaf.1 = nodes.lookup leaf.1) :
    Linked nodes' leaves after := by
  induction leaves with
  | nil => trivial
  | cons leaf leaves ih =>
      rcases linked with ⟨⟨node, found, here, next⟩, linked⟩
      refine ⟨⟨node, ?_, here, next⟩, ih linked fun other inside => same other (by simp [inside])⟩
      rw [same leaf (by simp), found]

end Lists

section Shape

variable [LinearOrder Key] {precedes : Key → Key → Prop}
  {nodes nodes' : AList fun _ : ℕ => BTreeNode Key Value}
  {low high : Option Key} {leaves : List (Leaf Key Value)} {ids : List ℕ} {depth id : ℕ}

/-- A row depends only on the shapes of its children. -/
theorem Row.imp {shape shape' : Option Key → Option Key → ℕ → List (Leaf Key Value) → List ℕ → Prop}
    {keys : List Key} {children : List ℕ}
    (row : Row precedes shape low high keys children leaves ids)
    (step : ∀ low high child leaves childIds, (∀ id ∈ childIds, id ∈ ids) →
      shape low high child leaves childIds → shape' low high child leaves childIds) :
    Row precedes shape' low high keys children leaves ids := by
  induction row with
  | last only => exact .last (step _ _ _ _ _ (fun _ isChild => isChild) only)
  | cons separates first rest ih =>
      refine .cons separates (step _ _ _ _ _ (fun id inside => by simp [inside]) first) (ih ?_)
      intro low high child leaves childIds inside
      exact step low high child leaves childIds fun id isChild => by simp [inside id isChild]

/-- A subtree is not affected by changes to other nodes. -/
theorem Shape.congr (shape : Shape precedes nodes depth low high id leaves ids)
    (same : ∀ other ∈ ids, nodes'.lookup other = nodes.lookup other) :
    Shape precedes nodes' depth low high id leaves ids := by
  induction depth generalizing low high id leaves ids with
  | zero =>
      rcases shape with ⟨leaf, found, valid, small, rfl, rfl⟩
      exact ⟨leaf, by rw [same id (by simp), found], valid, small, rfl, rfl⟩
  | succ depth ih =>
      rcases shape with ⟨node, childIds, found, small, row, rfl⟩
      refine ⟨node, childIds, by rw [same id (by simp), found], small, row.imp ?_, rfl⟩
      intro low high child leaves grandIds inside shape
      exact ih shape fun other isGrand => same other (by simp [inside other isGrand])

variable [Ascending precedes]

/-- All keys of a subtree lie in its range. -/
theorem Row.within {shape : Option Key → Option Key → ℕ → List (Leaf Key Value) → List ℕ → Prop}
    {keys : List Key} {children : List ℕ}
    (row : Row precedes shape low high keys children leaves ids)
    (step : ∀ {low high child leaves ids}, shape low high child leaves ids →
      ∀ entry ∈ entries leaves, Within precedes low high entry.1) :
    ∀ entry ∈ entries leaves, Within precedes low high entry.1 := by
  induction row with
  | last only => exact step only
  | cons separates first rest ih =>
      intro entry inside
      rcases List.mem_append.mp (by simpa using inside) with isLeft | isRight
      · exact (step first entry isLeft).left separates
      · exact (ih entry isRight).right separates

theorem Shape.within (shape : Shape precedes nodes depth low high id leaves ids) :
    ∀ entry ∈ entries leaves, Within precedes low high entry.1 := by
  induction depth generalizing low high id leaves ids with
  | zero =>
      rcases shape with ⟨leaf, -, valid, -, rfl, -⟩
      intro entry inside
      refine valid.within entry.1 ?_
      have zipped : entry ∈ leaf.keys.zip leaf.rids := by simpa [LeafNode.entries] using inside
      exact (List.of_mem_zip zipped).1
  | succ depth ih =>
      rcases shape with ⟨node, childIds, -, -, row, -⟩
      exact row.within fun shape => ih shape

/-- The entries of a subtree are sorted by key. -/
theorem Row.sorted {shape : Option Key → Option Key → ℕ → List (Leaf Key Value) → List ℕ → Prop}
    {keys : List Key} {children : List ℕ}
    (row : Row precedes shape low high keys children leaves ids)
    (within : ∀ {low high child leaves ids}, shape low high child leaves ids →
      ∀ entry ∈ entries leaves, Within precedes low high entry.1)
    (step : ∀ {low high child leaves ids}, shape low high child leaves ids →
      (entries leaves).Pairwise fun left right => precedes left.1 right.1) :
    (entries leaves).Pairwise fun left right => precedes left.1 right.1 := by
  induction row with
  | last only => exact step only
  | cons separates first rest ih =>
      rw [entries_append, List.pairwise_append]
      refine ⟨step first, ih, fun left isLeft right isRight => ?_⟩
      exact Ascending.trans_le ((within first left isLeft).2 _ rfl)
        ((rest.within within right isRight).1 _ rfl)

theorem Shape.sorted (shape : Shape precedes nodes depth low high id leaves ids) :
    (entries leaves).Pairwise fun left right => precedes left.1 right.1 := by
  induction depth generalizing low high id leaves ids with
  | zero =>
      rcases shape with ⟨leaf, -, valid, -, rfl, -⟩
      have keys : (leaf.entries.map Prod.fst).Pairwise precedes := by
        rw [LeafNode.entries, List.map_fst_zip (by rw [valid.lengths])]
        exact valid.sorted
      simpa [List.pairwise_map] using keys
  | succ depth ih =>
      rcases shape with ⟨node, childIds, -, -, row, -⟩
      exact row.sorted (fun shape => shape.within) fun shape => ih shape

omit [Ascending precedes] in
/-- Every leaf is a node of the tree. -/
theorem Row.leaf_mem {shape : Option Key → Option Key → ℕ → List (Leaf Key Value) → List ℕ → Prop}
    {keys : List Key} {children : List ℕ}
    (row : Row precedes shape low high keys children leaves ids)
    (step : ∀ {low high child leaves ids}, shape low high child leaves ids →
      ∀ leaf ∈ leaves, leaf.1 ∈ ids) : ∀ leaf ∈ leaves, leaf.1 ∈ ids := by
  induction row with
  | last only => exact step only
  | cons separates first rest ih =>
      intro leaf inside
      rcases List.mem_append.mp inside with isLeft | isRight
      · exact List.mem_append_left _ (step first leaf isLeft)
      · exact List.mem_append_right _ (ih leaf isRight)

omit [Ascending precedes] in
theorem Shape.leaf_mem (shape : Shape precedes nodes depth low high id leaves ids) :
    ∀ leaf ∈ leaves, leaf.1 ∈ ids := by
  induction depth generalizing low high id leaves ids with
  | zero =>
      rcases shape with ⟨leaf, -, -, -, rfl, rfl⟩
      simp
  | succ depth ih =>
      rcases shape with ⟨node, childIds, -, -, row, rfl⟩
      intro leaf inside
      exact List.mem_cons_of_mem _ (row.leaf_mem (fun shape => ih shape) leaf inside)

/-- The child that `find_child_index` picks: the one whose range contains the key. The row with
this child replaced, or replaced by two children around a new separator, is again a row. -/
theorem Row.focus {shape : Option Key → Option Key → ℕ → List (Leaf Key Value) → List ℕ → Prop}
    {keys : List Key} {children : List ℕ} {key : Key}
    (row : Row precedes shape low high keys children leaves ids)
    (inside : Within precedes low high key)
    (within : ∀ {low high child leaves ids}, shape low high child leaves ids →
      ∀ entry ∈ entries leaves, Within precedes low high entry.1)
    (member : ∀ {low high child leaves ids}, shape low high child leaves ids →
      ∀ leaf ∈ leaves, leaf.1 ∈ ids) :
    ∃ child low' high' before middle after beforeIds middleIds afterIds,
      children[partitionPoint keys fun separator => separator ≤ key]? = some child ∧
      shape low' high' child middle middleIds ∧ Within precedes low' high' key ∧
      leaves = before ++ (middle ++ after) ∧ ids = beforeIds ++ (middleIds ++ afterIds) ∧
      (∀ entry ∈ entries before, precedes entry.1 key) ∧ (∀ entry ∈ entries after, key < entry.1) ∧
      (∀ leaf ∈ before, leaf.1 ∈ beforeIds) ∧ (∀ leaf ∈ after, leaf.1 ∈ afterIds) ∧
      ∀ shape' : Option Key → Option Key → ℕ → List (Leaf Key Value) → List ℕ → Prop,
        (∀ low high other leaves otherIds, (∀ id ∈ otherIds, id ∈ beforeIds ∨ id ∈ afterIds) →
          shape low high other leaves otherIds → shape' low high other leaves otherIds) →
        (∀ middle' middleIds', shape' low' high' child middle' middleIds' →
          Row precedes shape' low high keys children (before ++ (middle' ++ after))
            (beforeIds ++ (middleIds' ++ afterIds))) ∧
        (∀ separator new left right leftIds rightIds, Separates precedes low' high' separator →
          shape' low' (some separator) child left leftIds →
          shape' (some separator) high' new right rightIds →
          Row precedes shape' low high
            (keys.insertIdx (partitionPoint keys fun separator => separator ≤ key) separator)
            (children.insertIdx ((partitionPoint keys fun separator => separator ≤ key) + 1) new)
            (before ++ (left ++ right ++ after))
            (beforeIds ++ (leftIds ++ rightIds ++ afterIds))) := by
  induction row with
  | @last low high child leaves ids only =>
      refine ⟨child, low, high, [], leaves, [], [], ids, [], by simp [partitionPoint], only, inside,
        by simp, by simp, by simp, by simp, by simp, by simp, fun shape' _ => ⟨?_, ?_⟩⟩
      · intro middle' middleIds' replaced
        simpa using Row.last replaced
      · intro separator new left right leftIds rightIds separates first second
        simpa [partitionPoint] using Row.cons separates first (Row.last second)
  | @cons low high separator keys child children left right leftIds rightIds separates first rest
      ih =>
      by_cases le : separator ≤ key
      · -- the key belongs to the right of the first separator
        rcases ih ⟨fun bound isLow => by simpa [← Option.mem_some_iff.mp isLow] using le, inside.2⟩
          with ⟨target, low', high', before, middle, after, beforeIds, middleIds, afterIds, found,
            focused, insideTarget, rfl, rfl, isBefore, isAfter, beforeMem, afterMem, rebuild⟩
        have index : (partitionPoint (separator :: keys) fun separator => separator ≤ key) =
            (partitionPoint keys fun separator => separator ≤ key) + 1 := by
          simp [partitionPoint, le]
        refine ⟨target, low', high', left ++ before, middle, after, leftIds ++ beforeIds, middleIds,
          afterIds, by simpa [index] using found, focused, insideTarget, by simp, by simp, ?_,
          isAfter, ?_, afterMem, fun shape' kept => ?_⟩
        · intro entry isEntry
          rcases List.mem_append.mp (by simpa using isEntry) with isLeft | isMiddle
          · exact Ascending.trans_le ((within first entry isLeft).2 _ rfl) le
          · exact isBefore entry isMiddle
        · intro leaf isLeaf
          rcases List.mem_append.mp isLeaf with isLeft | isMiddle
          · exact List.mem_append_left _ (member first leaf isLeft)
          · exact List.mem_append_right _ (beforeMem leaf isMiddle)
        · have first' := kept _ _ _ _ leftIds (fun id isLeft => .inl (by simp [isLeft])) first
          rcases rebuild shape' fun low high other leaves otherIds outside =>
            kept low high other leaves otherIds fun id isOther =>
              (outside id isOther).imp (fun isBefore => by simp [isBefore]) fun isAfter => isAfter
            with ⟨replace, divide⟩
          refine ⟨fun middle' middleIds' replaced => ?_, ?_⟩
          · simpa using Row.cons separates first' (replace middle' middleIds' replaced)
          · intro separator' new left' right' leftIds' rightIds' separates' left'' right''
            rw [index]
            simpa using Row.cons separates first'
              (divide separator' new left' right' leftIds' rightIds' separates' left'' right'')
      · -- the key belongs to the first child
        have below : key < separator := not_le.mp le
        have index : (partitionPoint (separator :: keys) fun separator => separator ≤ key) = 0 := by
          simp [partitionPoint, le]
        refine ⟨child, low, some separator, [], left, right, [], leftIds, rightIds,
          by simp [index], first, ⟨inside.1, fun bound isHigh => by
            simpa [← Option.mem_some_iff.mp isHigh] using Ascending.of_lt below⟩,
            by simp, by simp, by simp, ?_,
          by simp, fun leaf isLeaf => rest.leaf_mem member leaf isLeaf, fun shape' kept => ?_⟩
        · intro entry isEntry
          exact lt_of_lt_of_le below ((rest.within within entry isEntry).1 _ rfl)
        · have rest' : Row precedes shape' (some separator) high keys children right rightIds :=
            rest.imp fun low high other leaves otherIds inRest =>
              kept low high other leaves otherIds fun id isOther => .inr (inRest id isOther)
          refine ⟨fun middle' middleIds' replaced => ?_, ?_⟩
          · simpa using Row.cons separates replaced rest'
          · intro separator' new left' right' leftIds' rightIds' separates' left'' right''
            rw [index]
            have outer : Separates precedes low high separator' :=
              ⟨separates'.1, fun bound isHigh =>
                Ascending.trans (separates'.2 separator rfl) (separates.2 bound isHigh)⟩
            have inner : Separates precedes (some separator') high separator :=
              ⟨fun bound isLow => by
                simpa [← Option.mem_some_iff.mp isLow] using separates'.2 separator rfl,
                separates.2⟩
            simpa using Row.cons outer left'' (Row.cons inner right'' rest')

/-- A row can be cut at any of its separators. -/
theorem Row.cut {shape : Option Key → Option Key → ℕ → List (Leaf Key Value) → List ℕ → Prop}
    {front back : List Key} {separator : Key} {children : List ℕ}
    (row : Row precedes shape low high (front ++ separator :: back) children leaves ids) :
    ∃ leftChildren rightChildren left right leftIds rightIds,
      children = leftChildren ++ rightChildren ∧ leftChildren.length = front.length + 1 ∧
      leaves = left ++ right ∧ ids = leftIds ++ rightIds ∧ Separates precedes low high separator ∧
      Row precedes shape low (some separator) front leftChildren left leftIds ∧
      Row precedes shape (some separator) high back rightChildren right rightIds := by
  induction front generalizing low children leaves ids with
  | nil =>
      cases row with
      | @cons _ _ _ _ child children left right leftIds rightIds separates first rest =>
          exact ⟨[child], children, left, right, leftIds, rightIds, rfl, rfl, rfl, rfl, separates,
            .last first, rest⟩
  | cons smallest front ih =>
      cases row with
      | @cons _ _ _ _ child children left right leftIds rightIds separates first rest =>
          rcases ih rest with ⟨leftChildren, rightChildren, middle, right, middleIds, rightIds, rfl,
            count, rfl, rfl, separates', leftRow, rightRow⟩
          have above : precedes smallest separator := separates'.1 smallest rfl
          refine ⟨child :: leftChildren, rightChildren, left ++ middle, right, leftIds ++ middleIds,
            rightIds, rfl, by simp [count], by simp, by simp, ?_, ?_, rightRow⟩
          · exact ⟨fun bound isLow => Ascending.trans (separates.1 bound isLow) above, separates'.2⟩
          · refine .cons ⟨separates.1, fun bound isHigh => ?_⟩ first leftRow
            simpa [← Option.mem_some_iff.mp isHigh] using above

end Shape

end VenomDb.Index
