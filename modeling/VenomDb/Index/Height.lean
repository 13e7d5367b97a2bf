import VenomDb.Index.Structure
import Mathlib.Algebra.BigOperators.Group.Finset.Basic
import Mathlib.Data.Nat.Log

/-!
# The height of a B-tree

A node is split in the middle, so that every inner node but the root has at least
`order` children. Nodes are never merged, and a tree may be high though its leaves are
empty. What bounds the height is the number of insertions that there have been: each
leaf accounts for `order` of them, also if its entries were deleted since.
-/

namespace VenomDb.Index

variable {Key Value : Type}

theorem Linked.isLeaf {leaves : List (Leaf Key Value)}
    {nodes : AList fun _ : ℕ => BTreeNode Key Value} {after : Option ℕ}
    (linked : Linked nodes leaves after) :
    ∀ leaf ∈ leaves, ∃ node, nodes.lookup leaf.1 = some (.leaf node) := by
  induction leaves with
  | nil => exact fun leaf inside => absurd inside List.not_mem_nil
  | cons first leaves ih =>
      rcases linked with ⟨⟨node, found, -⟩, rest⟩
      intro leaf inside
      rcases List.mem_cons.mp inside with rfl | later
      · exact ⟨node, found⟩
      · exact ih rest leaf later

namespace BTree

section Width

/-- An inner node with at least so many children, one more than keys. -/
def Broad (bound : ℕ) (node : InternalNode Key) : Prop :=
  node.children.length = node.keys.length + 1 ∧ bound ≤ node.children.length

/-- Every inner node has at least `order` children; one may have two. -/
def Wide (exception : ℕ) (tree : BTree Key Value) : Prop :=
  ∀ id node, tree.nodes.lookup id = some (.internal node) →
    Broad (if id = exception then 2 else order) node

variable {exception id bound : ℕ} {node : InternalNode Key} {tree : BTree Key Value}

theorem Broad.mono {bound' : ℕ} (broad : Broad bound node) (less : bound' ≤ bound) :
    Broad bound' node :=
  ⟨broad.1, less.trans broad.2⟩

theorem Broad.relax (broad : Broad order node) :
    Broad (if id = exception then 2 else order) node := by
  split_ifs
  · apply broad.mono
    decide
  · exact broad

theorem Broad.two (broad : Broad (if id = exception then 2 else order) node) : Broad 2 node := by
  split_ifs at broad
  · exact broad
  · apply broad.mono
    decide

theorem Wide.store (wide : Wide exception tree)
    (broad : Broad (if id = exception then 2 else order) node) :
    Wide exception (tree.store id (.internal node)) := by
  intro other found here
  by_cases same : other = id
  · subst same
    rw [lookup_store_self] at here
    rcases here with ⟨⟩
    exact broad
  · rw [lookup_store_of_ne same] at here
    exact wide other found here

theorem Wide.storeLeaf (wide : Wide exception tree) (leaf : LeafNode Key Value) :
    Wide exception (tree.store id (.leaf leaf)) := by
  intro other found here
  by_cases same : other = id
  · subst same
    rw [lookup_store_self] at here
    rcases here with ⟨⟩
  · rw [lookup_store_of_ne same] at here
    exact wide other found here

/-- The halves of a full node have enough children. -/
theorem Broad.halves (broad : Broad 2 node) (full : node.isFull = true) :
    Broad order (⟨node.keys.take (node.keys.length / 2),
      node.children.take (node.keys.length / 2 + 1)⟩ : InternalNode Key) ∧
    Broad order (⟨node.keys.drop (node.keys.length / 2 + 1),
      node.children.drop (node.keys.length / 2 + 1)⟩ : InternalNode Key) := by
  have long : 2 * order ≤ node.keys.length := by simpa [InternalNode.isFull] using full
  have lengths := broad.1
  simp only [order] at long
  simp only [Broad, order, List.length_take, List.length_drop]
  omega

/-- One more separator and one more child. -/
theorem Broad.insertIdx {keyIndex childIndex child : ℕ} {separator : Key} (broad : Broad bound node)
    (insideKeys : keyIndex ≤ node.keys.length) (inside : childIndex ≤ node.children.length) :
    Broad bound (⟨node.keys.insertIdx keyIndex separator,
      node.children.insertIdx childIndex child⟩ : InternalNode Key) := by
  rcases broad with ⟨lengths, many⟩
  rw [Broad, List.length_insertIdx_of_le_length insideKeys,
    List.length_insertIdx_of_le_length inside]
  omega

/-- What an insertion below a node keeps, and what it leaves at the node if that splits. -/
structure Widens (exception id : ℕ) (tree : BTree Key Value)
    (result : Option (SplitResult Key) × BTree Key Value) : Prop where
  rootId : result.2.rootId = tree.rootId
  wide : Wide exception result.2
  half : result.1.isSome → ∀ node, result.2.nodes.lookup id = some (.internal node) →
    Broad order node

theorem Wide.widens (wide : Wide exception tree) : Widens exception id tree (none, tree) :=
  ⟨rfl, wide, fun split => absurd split Bool.false_ne_true⟩

theorem Wide.splitLeaf (wide : Wide exception tree) (leaf : LeafNode Key Value) :
    Widens exception id tree (BTree.splitLeaf id leaf tree) := by
  refine ⟨rfl, ?_, ?_⟩
  · apply Wide.storeLeaf
    exact wide.storeLeaf _
  · intro _ node here
    rw [BTree.splitLeaf] at here
    rw [lookup_store_self] at here
    rcases here with ⟨⟩

theorem Wide.splitInternal (wide : Wide exception tree) (id : ℕ) (broad : Broad 2 node)
    (full : node.isFull = true) : Widens exception id tree (BTree.splitInternal id node tree) := by
  rcases broad.halves full with ⟨left, right⟩
  refine ⟨rfl, ?_, ?_⟩
  · apply Wide.store _ left.relax
    exact wide.store right.relax
  · intro _ node here
    rw [BTree.splitInternal] at here
    rw [lookup_store_self] at here
    rcases here with ⟨⟩
    exact left

variable [LinearOrder Key]

theorem widens_insertRecursive (key : Key) (value : Value) (fuel : ℕ) (wide : Wide exception tree) :
    Widens exception id tree (insertRecursive key value fuel id tree) := by
  induction fuel generalizing id tree with
  | zero => exact wide.widens
  | succ fuel ih =>
      rcases found : tree.nodes.lookup id with _ | internal | leaf
      · simp only [insertRecursive, found]
        exact wide.widens
      · rcases next : internal.children[internal.findChildIndex key]? with _ | child
        · simp only [insertRecursive, found, next]
          exact wide.widens
        · have broad := wide id internal found
          have kept : Widens exception child tree (insertRecursive key value fuel child tree) :=
            ih wide
          rcases below : insertRecursive key value fuel child tree with ⟨_ | split, tree'⟩
          · rw [below] at kept
            simp only [insertRecursive, found, next, below]
            exact ⟨kept.rootId, kept.wide.store broad,
              fun split => absurd split Bool.false_ne_true⟩
          · rw [below] at kept
            simp only [insertRecursive, found, next, below]
            have position : internal.findChildIndex key ≤ internal.keys.length :=
              partitionPoint_le _ _
            have after : internal.findChildIndex key + 1 ≤ internal.children.length := by
              rw [broad.1]
              exact Nat.succ_le_succ position
            have longer := @Broad.insertIdx _ _ _ _ _ split.newPageId split.promotedKey broad
              position after
            split_ifs with full
            · have halves := kept.wide.splitInternal id longer.two full
              exact ⟨halves.rootId.trans kept.rootId, halves.wide, halves.half⟩
            · exact ⟨kept.rootId, kept.wide.store longer,
                fun split => absurd split Bool.false_ne_true⟩
      · rw [insertRecursive_of_leaf value fuel found]
        split_ifs
        · exact wide.splitLeaf _
        · exact ⟨rfl, wide.storeLeaf _, fun split => absurd split Bool.false_ne_true⟩

/-- The root may change; the new one may have two children. -/
theorem Wide.insert (wide : Wide tree.rootId tree) (key : Key) (value : Value) :
    Wide (tree.insert key value).rootId (tree.insert key value) := by
  have kept : Widens tree.rootId tree.rootId tree
      (insertRecursive key value tree.fuel tree.rootId tree) :=
    widens_insertRecursive key value tree.fuel wide
  rw [BTree.insert]
  generalize insertRecursive key value tree.fuel tree.rootId tree = result at kept ⊢
  rcases result with ⟨_ | split, tree'⟩
  · dsimp only
    rw [show tree'.rootId = tree.rootId from kept.rootId]
    exact kept.wide
  · dsimp only
    have demoted : Wide tree'.nextPageId tree' := by
      intro id node here
      apply Broad.relax
      by_cases same : id = tree.rootId
      · subst same
        exact kept.half rfl node here
      · have broad := kept.wide id node here
        rw [if_neg same] at broad
        exact broad
    apply demoted.store
    rw [if_pos rfl]
    exact ⟨rfl, le_refl _⟩

theorem Wide.delete (wide : Wide exception tree) (key : Key) :
    Wide exception (tree.delete key).2 := by
  rw [BTree.delete]
  split
  · split
    · exact wide.storeLeaf _
    · exact wide
  · exact wide

end Width

section Charge

variable {count id : ℕ} {node : BTreeNode Key Value} {leaf : LeafNode Key Value}
  {tree : BTree Key Value}

/-- How many insertions a leaf accounts for. -/
def weight : Option (BTreeNode Key Value) → ℕ
  | some (.leaf leaf) => max leaf.keys.length order
  | _ => 0

/-- How many insertions all leaves account for. -/
def charge (tree : BTree Key Value) : ℕ :=
  ∑ id ∈ Finset.range tree.nextPageId, weight (tree.nodes.lookup id)

theorem charge_store (inside : id < tree.nextPageId) :
    (tree.store id node).charge + weight (tree.nodes.lookup id) =
      tree.charge + weight (some node) := by
  have member : id ∈ Finset.range tree.nextPageId := Finset.mem_range.mpr inside
  have others : ∑ other ∈ (Finset.range tree.nextPageId).erase id,
      weight ((tree.store id node).nodes.lookup other) =
      ∑ other ∈ (Finset.range tree.nextPageId).erase id, weight (tree.nodes.lookup other) := by
    apply Finset.sum_congr rfl
    intro other apart
    rw [lookup_store_of_ne (Finset.ne_of_mem_erase apart)]
  rw [charge, charge, show (tree.store id node).nextPageId = tree.nextPageId from rfl,
    ← Finset.add_sum_erase _ _ member, ← Finset.add_sum_erase _ _ member, others, lookup_store_self]
  omega

theorem charge_allocPage : (allocPage node tree).2.charge = tree.charge + weight (some node) := by
  have others : ∑ other ∈ Finset.range tree.nextPageId,
      weight ((allocPage node tree).2.nodes.lookup other) =
      ∑ other ∈ Finset.range tree.nextPageId, weight (tree.nodes.lookup other) := by
    apply Finset.sum_congr rfl
    intro other inside
    have apart : other ≠ tree.nextPageId := (Finset.mem_range.mp inside).ne
    rw [allocPage, AList.lookup_insert_ne apart]
  have new : (allocPage node tree).2.nodes.lookup tree.nextPageId = some node :=
    AList.lookup_insert _
  rw [charge, charge, show (allocPage node tree).2.nextPageId = tree.nextPageId + 1 from rfl,
    Finset.sum_range_succ, others, new]

/-- The addresses are below the next one, and no leaf has more keys than there were insertions. -/
structure Sized (count : ℕ) (tree : BTree Key Value) : Prop where
  bounded : ∀ id ∈ tree.nodes, id < tree.nextPageId
  small : ∀ id leaf, tree.nodes.lookup id = some (.leaf leaf) → leaf.keys.length ≤ count

theorem Sized.mono {count' : ℕ} (sized : Sized count tree) (less : count ≤ count') :
    Sized count' tree :=
  ⟨sized.bounded, fun id leaf found => (sized.small id leaf found).trans less⟩

theorem Sized.inside (sized : Sized count tree) (found : tree.nodes.lookup id = some node) :
    id < tree.nextPageId := by
  apply sized.bounded
  apply AList.lookup_isSome.mp
  rw [found]
  rfl

theorem Sized.store (sized : Sized count tree) (inside : id < tree.nextPageId)
    (fits : ∀ leaf, node = .leaf leaf → leaf.keys.length ≤ count) :
    Sized count (tree.store id node) := by
  apply Sized.mk
  · intro other isNode
    rcases mem_store.mp isNode with rfl | isOld
    · exact inside
    · exact sized.bounded other isOld
  · intro other leaf found
    by_cases same : other = id
    · subst same
      rw [lookup_store_self] at found
      exact fits leaf (Option.some.inj found)
    · rw [lookup_store_of_ne same] at found
      exact sized.small other leaf found

theorem Sized.allocPage (sized : Sized count tree)
    (fits : ∀ leaf, node = .leaf leaf → leaf.keys.length ≤ count) :
    Sized count (BTree.allocPage node tree).2 := by
  apply Sized.mk
  · intro other isNode
    rcases mem_allocPage.mp isNode with rfl | isOld
    · exact Nat.lt_succ_self _
    · exact Nat.lt_succ_of_lt (sized.bounded other isOld)
  · intro other leaf found
    by_cases same : other = tree.nextPageId
    · subst same
      have new : (BTree.allocPage node tree).2.nodes.lookup tree.nextPageId = some node :=
        AList.lookup_insert _
      rw [new] at found
      exact fits leaf (Option.some.inj found)
    · rw [BTree.allocPage, AList.lookup_insert_ne same] at found
      exact sized.small other leaf found

/-- The insertions so far cover the charge. -/
structure Charged (count : ℕ) (tree : BTree Key Value) : Prop extends Sized count tree where
  charge : tree.charge ≤ max count order

theorem Charged.mono {count' : ℕ} (charged : Charged count tree) (less : count ≤ count') :
    Charged count' tree :=
  ⟨charged.toSized.mono less, charged.charge.trans (max_le_max less (le_refl _))⟩

/-- Inner nodes account for nothing. -/
theorem Charged.storeInternal (charged : Charged count tree) (inside : id < tree.nextPageId)
    (internal : InternalNode Key) : Charged count (tree.store id (.internal internal)) := by
  refine ⟨charged.store inside nofun, ?_⟩
  have stored := @charge_store _ _ _ (.internal internal) _ inside
  have covered := charged.charge
  simp only [weight] at stored
  omega

theorem Charged.allocInternal (charged : Charged count tree) (internal : InternalNode Key) :
    Charged count (BTree.allocPage (.internal internal) tree).2 := by
  refine ⟨charged.allocPage nofun, ?_⟩
  rw [charge_allocPage]
  exact charged.charge

theorem Charged.splitInternal (charged : Charged count tree) (inside : id < tree.nextPageId)
    (internal : InternalNode Key) : Charged count (BTree.splitInternal id internal tree).2 := by
  apply Charged.storeInternal (charged.allocInternal _)
  exact Nat.lt_succ_of_lt inside

/-- A leaf with one more entry, which accounts for the new insertion. -/
theorem Charged.storeLeaf (charged : Charged count tree)
    (found : tree.nodes.lookup id = some (.leaf leaf)) {leaf' : LeafNode Key Value}
    (longer : leaf'.keys.length = leaf.keys.length + 1) :
    Charged (count + 1) (tree.store id (.leaf leaf')) := by
  have inside := charged.inside found
  have small := charged.small id leaf found
  apply Charged.mk
  · apply (charged.toSized.mono (Nat.le_succ count)).store inside
    rintro _ ⟨⟩
    omega
  · have stored := @charge_store _ _ _ (.leaf leaf') _ inside
    have covered := charged.charge
    rw [found] at stored
    simp only [weight, order] at stored covered ⊢
    omega

/-- The halves of a full leaf account for all of its entries. -/
theorem Charged.splitLeaf (charged : Charged count tree)
    (found : tree.nodes.lookup id = some (.leaf leaf)) {leaf' : LeafNode Key Value}
    (longer : leaf'.keys.length = leaf.keys.length + 1) (full : leaf'.isFull = true) :
    Charged (count + 1) (BTree.splitLeaf id leaf' tree).2 := by
  have inside := charged.inside found
  have small := charged.small id leaf found
  have long : 2 * order ≤ leaf'.keys.length := by simpa [LeafNode.isFull] using full
  let mid := leaf'.keys.length / 2
  let left : LeafNode Key Value :=
    ⟨leaf'.keys.take mid, leaf'.rids.take mid, some tree.nextPageId⟩
  let right : LeafNode Key Value := ⟨leaf'.keys.drop mid, leaf'.rids.drop mid, leaf'.nextLeaf⟩
  have halves : left.keys.length = leaf'.keys.length / 2 ∧
      right.keys.length = leaf'.keys.length - leaf'.keys.length / 2 := by
    constructor
    · rw [List.length_take]
      exact min_eq_left (Nat.div_le_self _ _)
    · exact List.length_drop
  let tree' := (BTree.allocPage (.leaf right) tree).2
  have inside' : id < tree'.nextPageId := Nat.lt_succ_of_lt inside
  have result : (BTree.splitLeaf id leaf' tree).2 = tree'.store id (.leaf left) := rfl
  rw [result]
  apply Charged.mk
  · apply Sized.store _ inside'
    · rintro _ ⟨⟩
      omega
    · apply (charged.toSized.mono (Nat.le_succ count)).allocPage
      rintro _ ⟨⟩
      omega
  · have stored := @charge_store _ _ _ (.leaf left) _ inside'
    have allocated : tree'.charge = tree.charge + weight (some (.leaf right)) := charge_allocPage
    have same : tree'.nodes.lookup id = some (.leaf leaf) := by
      rw [← found]
      exact AList.lookup_insert_ne inside.ne
    have covered := charged.charge
    rw [same] at stored
    simp only [weight, order, halves.1, halves.2] at stored allocated covered long ⊢
    omega

variable [LinearOrder Key]

/-- One insertion goes into one leaf. -/
theorem charged_insertRecursive (key : Key) (value : Value) (fuel : ℕ)
    (charged : Charged count tree) :
    Charged (count + 1) (insertRecursive key value fuel id tree).2 ∧
      tree.nextPageId ≤ (insertRecursive key value fuel id tree).2.nextPageId := by
  induction fuel generalizing id tree with
  | zero => exact ⟨charged.mono (Nat.le_succ count), le_refl _⟩
  | succ fuel ih =>
      rcases found : tree.nodes.lookup id with _ | internal | leaf
      · simp only [insertRecursive, found]
        exact ⟨charged.mono (Nat.le_succ count), le_refl _⟩
      · rcases next : internal.children[internal.findChildIndex key]? with _ | child
        · simp only [insertRecursive, found, next]
          exact ⟨charged.mono (Nat.le_succ count), le_refl _⟩
        · have below : Charged (count + 1) (insertRecursive key value fuel child tree).2 ∧
              tree.nextPageId ≤ (insertRecursive key value fuel child tree).2.nextPageId :=
            ih charged
          have inside : id < (insertRecursive key value fuel child tree).2.nextPageId :=
            lt_of_lt_of_le (charged.inside found) below.2
          simp only [insertRecursive, found, next]
          generalize insertRecursive key value fuel child tree = result at below inside ⊢
          rcases result with ⟨_ | split, tree'⟩
          · exact ⟨below.1.storeInternal inside internal, below.2⟩
          · dsimp only
            split_ifs
            · exact ⟨below.1.splitInternal inside _, below.2.trans (Nat.le_succ _)⟩
            · exact ⟨below.1.storeInternal inside _, below.2⟩
      · rw [insertRecursive_of_leaf value fuel found]
        have longer := leaf.length_insert key value
        split_ifs with full
        · exact ⟨charged.splitLeaf found longer full, Nat.le_succ _⟩
        · exact ⟨charged.storeLeaf found longer, le_refl _⟩

theorem Charged.insert (charged : Charged count tree) (key : Key) (value : Value) :
    Charged (count + 1) (tree.insert key value) := by
  have inserted : Charged (count + 1) (insertRecursive key value tree.fuel tree.rootId tree).2 :=
    (charged_insertRecursive key value tree.fuel charged).1
  rw [BTree.insert]
  generalize insertRecursive key value tree.fuel tree.rootId tree = result at inserted ⊢
  rcases result with ⟨_ | split, tree'⟩
  · exact inserted
  · have rooted := inserted.allocInternal ⟨[split.promotedKey], [tree'.rootId, split.newPageId]⟩
    exact ⟨⟨rooted.bounded, rooted.small⟩, rooted.charge⟩

/-- A deletion takes nothing off the charge that is needed. -/
theorem Charged.delete (charged : Charged count tree) (key : Key) :
    Charged count (tree.delete key).2 := by
  rw [BTree.delete]
  split
  · next leaf found =>
      split
      · have inside := charged.inside found
        have small := charged.small _ leaf found
        next index _ =>
          have shorter : (leaf.keys.eraseIdx index).length ≤ leaf.keys.length :=
            List.length_eraseIdx_le _ _
          dsimp only
          apply Charged.mk
          · apply charged.store inside
            rintro _ ⟨⟩
            exact shorter.trans small
          · have stored := @charge_store _ _ _
              (.leaf ⟨leaf.keys.eraseIdx index, leaf.rids.eraseIdx index, leaf.nextLeaf⟩) _ inside
            have covered := charged.charge
            rw [found] at stored
            simp only [weight] at stored
            omega
      · exact charged
  · exact charged

end Charge

section Height

variable [LinearOrder Key] {precedes : Key → Key → Prop} {low high : Option Key}
  {leaves : List (Leaf Key Value)} {ids : List ℕ} {depth id exception : ℕ} {tree : BTree Key Value}

/-- Every child brings its leaves. -/
theorem leaves_of_row
    {shape : Option Key → Option Key → ℕ → List (Leaf Key Value) → List ℕ → Prop} {keys : List Key}
    {children : List ℕ} {bound : ℕ} (row : Row precedes shape low high keys children leaves ids)
    (step : ∀ {low high child leaves ids}, shape low high child leaves ids →
      bound ≤ leaves.length) : children.length * bound ≤ leaves.length := by
  induction row with
  | last only =>
      rw [List.length_singleton, Nat.one_mul]
      exact step only
  | cons separates first rest ih =>
      rw [List.length_cons, List.length_append, Nat.succ_mul, Nat.add_comm]
      exact Nat.add_le_add (step first) ih

/-- A subtree that does not contain the exception has many leaves. -/
theorem Wide.pow_le (wide : Wide exception tree)
    (shape : Shape precedes tree.nodes depth low high id leaves ids) (apart : exception ∉ ids) :
    order ^ depth ≤ leaves.length := by
  induction depth generalizing low high id leaves ids with
  | zero =>
      rcases shape with ⟨leaf, -, -, -, rfl, -⟩
      exact le_refl _
  | succ depth ih =>
      rcases shape with ⟨node, childIds, found, -, row, rfl⟩
      rw [List.mem_cons, not_or] at apart
      rcases apart with ⟨notSelf, notBelow⟩
      have broad := wide id node found
      rw [if_neg (Ne.symm notSelf)] at broad
      have row' := row.imp fun low high child leaves childIds inside shape =>
        show order ^ depth ≤ leaves.length from
          ih shape fun isBelow => notBelow (inside exception isBelow)
      have many := leaves_of_row row' fun many => many
      rw [Nat.pow_succ, Nat.mul_comm]
      exact (Nat.mul_le_mul_right _ broad.2).trans many

theorem Wide.two_mul_pow_le (wide : Wide tree.rootId tree)
    (arranged : tree.Arranged precedes (depth + 1) leaves ids) :
    2 * order ^ depth ≤ leaves.length := by
  rcases arranged.shape with ⟨node, childIds, found, -, row, rfl⟩
  have apart := (List.nodup_cons.mp arranged.nodup).1
  have broad := wide tree.rootId node found
  rw [if_pos rfl] at broad
  have row' := row.imp fun low high child leaves childIds inside shape =>
    show order ^ depth ≤ leaves.length from
      wide.pow_le shape fun isBelow => apart (inside _ isBelow)
  exact (Nat.mul_le_mul_right _ broad.2).trans (leaves_of_row row' fun many => many)

/-- Each leaf accounts for at least `order` insertions. -/
theorem Arranged.charge (arranged : tree.Arranged precedes depth leaves ids) :
    leaves.length * order ≤ tree.charge := by
  have distinct : (leaves.map Prod.fst).Nodup :=
    arranged.nodup.sublist arranged.shape.leaves_sublist
  have inside : (leaves.map Prod.fst).toFinset ⊆ Finset.range tree.nextPageId := by
    intro id isLeaf
    apply Finset.mem_range.mpr
    apply arranged.bounded
    exact arranged.shape.leaves_sublist.subset (List.mem_toFinset.mp isLeaf)
  have heavy : ∀ id ∈ (leaves.map Prod.fst).toFinset, order ≤ weight (tree.nodes.lookup id) := by
    intro id isLeaf
    rcases List.mem_map.mp (List.mem_toFinset.mp isLeaf) with ⟨leaf, listed, rfl⟩
    rcases arranged.linked.isLeaf leaf listed with ⟨node, found⟩
    rw [found]
    exact le_max_right _ _
  have counted := Finset.card_nsmul_le_sum _ _ order heavy
  rw [List.toFinset_card_of_nodup distinct, List.length_map, smul_eq_mul] at counted
  exact counted.trans (Finset.sum_le_sum_of_subset inside)

/-- A tree of some height has seen many insertions. -/
theorem Arranged.depth_le_log {count : ℕ} (wide : Wide tree.rootId tree)
    (charged : Charged count tree) (arranged : tree.Arranged precedes depth leaves ids) :
    depth ≤ Nat.log order (count / 2) := by
  cases depth with
  | zero => exact Nat.zero_le _
  | succ depth =>
      have many := wide.two_mul_pow_le arranged
      have paid := arranged.charge
      have covered := charged.charge
      have positive : 0 < order ^ depth := Nat.pow_pos (by decide)
      apply Nat.le_log_of_pow_le (by decide)
      rw [Nat.le_div_iff_mul_le Nat.two_pos, Nat.pow_succ]
      simp only [order] at many paid covered positive ⊢
      omega

variable [Ascending precedes] {key : Key}

/-- Going on at a leaf leads nowhere else. -/
theorem findLeaf_of_shape (shape : Shape precedes tree.nodes depth low high id leaves ids)
    (within : Within precedes low high key) (fuel : ℕ) :
    ∃ leaf, tree.nodes.lookup (tree.findLeaf key (depth + fuel) id) = some (.leaf leaf) ∧
      tree.findLeaf key (depth + fuel) id = tree.findLeaf key depth id := by
  induction depth generalizing low high id leaves ids with
  | zero =>
      rcases shape with ⟨leaf, found, -⟩
      have stays : tree.findLeaf key (0 + fuel) id = id := by
        cases fuel with
        | zero => rfl
        | succ fuel =>
            rw [Nat.zero_add, findLeaf, found]
      rw [stays]
      exact ⟨leaf, found, rfl⟩
  | succ depth ih =>
      rcases shape with ⟨node, childIds, found, -, row, -⟩
      rcases row.focus within (fun shape => shape.within) (fun shape => shape.leaf_mem) with
        ⟨child, low', high', _, _, _, _, _, _, next, childShape, childWithin, -⟩
      have next' : node.children[node.findChildIndex key]? = some child := next
      have step (steps : ℕ) :
          tree.findLeaf key (steps + 1) id = tree.findLeaf key steps child := by
        rw [findLeaf, found]
        simp only [next']
      rw [Nat.succ_add, step, step]
      exact ih childShape childWithin

end Height

section Runs

variable [LinearOrder Key]

/-- How many of the calls are insertions. -/
def insertions (operations : List (Operation Key Value)) : ℕ :=
  operations.countP fun operation => match operation with
    | .insert .. => true
    | .delete _ => false

/-- What is known of a tree after some calls. -/
structure Balanced (count : ℕ) (tree : BTree Key Value) : Prop where
  arranged : ∃ depth leaves ids, tree.Arranged (· ≤ ·) depth leaves ids
  wide : Wide tree.rootId tree
  charged : Charged count tree

theorem balanced_new : Balanced 0 (new : BTree Key Value) where
  arranged := ⟨0, _, _, arranged_new⟩
  wide := by
    have empty : Wide 0 (⟨∅, 0, 0⟩ : BTree Key Value) := fun id node found => by
      rw [AList.lookup_empty] at found
      cases found
    exact @Wide.storeLeaf _ _ 0 0 _ empty LeafNode.new
  charged := by
    have empty : Sized 0 (⟨∅, 0, 0⟩ : BTree Key Value) := by
      apply Sized.mk
      · exact fun id isNode => absurd isNode (AList.notMem_empty id)
      · intro id leaf found
        rw [AList.lookup_empty] at found
        cases found
    have sized : Sized 0 (allocPage (.leaf LeafNode.new) (⟨∅, 0, 0⟩ : BTree Key Value)).2 := by
      apply empty.allocPage
      rintro _ ⟨⟩
      exact le_refl _
    have paid : (allocPage (.leaf LeafNode.new) (⟨∅, 0, 0⟩ : BTree Key Value)).2.charge = order :=
      charge_allocPage
    exact ⟨⟨sized.bounded, sized.small⟩, paid.le⟩

theorem rootId_delete (tree : BTree Key Value) (key : Key) :
    (tree.delete key).2.rootId = tree.rootId := by
  rw [delete]
  split
  · split <;> rfl
  · rfl

theorem Balanced.apply {count : ℕ} {tree : BTree Key Value} (balanced : Balanced count tree)
    (operation : Operation Key Value) :
    Balanced (count + insertions [operation]) (operation.apply tree) := by
  rcases balanced.arranged with ⟨depth, leaves, ids, arranged⟩
  have arranged' := arranged.apply operation
  cases operation with
  | insert key value =>
      exact ⟨arranged', balanced.wide.insert key value, balanced.charged.insert key value⟩
  | delete key =>
      refine ⟨arranged', ?_, balanced.charged.delete key⟩
      rw [Operation.apply, rootId_delete]
      exact balanced.wide.delete key

theorem Balanced.run {count : ℕ} {tree : BTree Key Value} (balanced : Balanced count tree)
    (operations : List (Operation Key Value)) :
    Balanced (count + insertions operations) (operations.foldl Operation.apply tree) := by
  induction operations generalizing count tree with
  | nil => exact balanced
  | cons operation operations ih =>
      have split : insertions (operation :: operations) =
          insertions [operation] + insertions operations :=
        @List.countP_append _ _ [operation] operations
      rw [List.foldl_cons, split, ← Nat.add_assoc]
      exact ih (balanced.apply operation)

/-- In every tree that insertions and deletions in any order make, also with repeated keys, a leaf
is reached by following at most `log (insertions / 2)` children, to the base `order`. -/
theorem findLeaf_log (operations : List (Operation Key Value)) (key : Key) :
    let tree := operations.foldl Operation.apply new
    let steps := Nat.log order (insertions operations / 2)
    ∃ leaf, tree.nodes.lookup (tree.findLeaf key steps tree.rootId) = some (.leaf leaf) ∧
      tree.findLeaf key steps tree.rootId = tree.findLeaf key tree.fuel tree.rootId := by
  intro tree steps
  have balanced : Balanced (insertions operations) tree := by
    have run := balanced_new.run operations
    rwa [Nat.zero_add] at run
  rcases balanced.arranged with ⟨depth, leaves, ids, arranged⟩
  have low : depth ≤ steps := arranged.depth_le_log balanced.wide balanced.charged
  have fueled : depth ≤ tree.fuel := (arranged.shape.fuel arranged.nodup).1.le
  rcases findLeaf_of_shape arranged.shape (within_all key) (steps - depth) with
    ⟨leaf, found, short⟩
  rcases findLeaf_of_shape arranged.shape (within_all key) (tree.fuel - depth) with ⟨_, -, long⟩
  rw [Nat.add_sub_cancel' low] at found short
  rw [Nat.add_sub_cancel' fueled] at long
  exact ⟨leaf, found, short.trans long.symm⟩

end Runs

end BTree

end VenomDb.Index
