import VenomDb.Hnsw.SearchLayer

/-!
# The links of the graph

What changing, linking and pruning neighbour lists do to the layers of a graph. Linking
adds edges in both directions and pruning removes them in both directions, so a layer stays
an undirected graph.
-/

namespace VenomDb.HnswGraph

variable {V D : Type} {graph : HnswGraph V} {layer : ℕ} {id : UInt32}

section Update

variable {change : List UInt32 → List UInt32}

theorem find?_changeFirst {nodes : List (HnswNode V)} {change : HnswNode V → HnswNode V}
    (keepsId : ∀ node, (change node).id = node.id) (id other : UInt32) :
    (changeFirst (·.id == id) change nodes).find? (·.id == other) =
      (nodes.find? (·.id == other)).map fun node => if other = id then change node else node := by
  induction nodes with
  | nil => rfl
  | cons head tail ih =>
      by_cases isHead : head.id = id
      · by_cases isOther : head.id = other
        · simp [changeFirst, ← isHead, keepsId, isOther]
        · have differs : other ≠ id := fun same => isOther (isHead.trans same.symm)
          simp [changeFirst, isHead, keepsId, differs, differs.symm]
      · by_cases isOther : head.id = other
        · have differs : other ≠ id := fun same => isHead (isOther.trans same)
          simp [changeFirst, isOther, differs]
        · simpa [changeFirst, isHead, isOther] using ih

theorem getNode_updateLayer (otherId : UInt32) :
    (graph.updateLayer layer id change).getNode otherId =
      (graph.getNode otherId).map fun node =>
        if otherId = id then { node with layers := node.layers.modify layer change } else node :=
  find?_changeFirst (by intro _; rfl) id otherId

/-- Only the list of one node on one layer changes. -/
theorem neighbors_updateLayer (other : ℕ) (otherId : UInt32) :
    (graph.updateLayer layer id change).neighbors other otherId =
      if other = layer ∧ otherId = id then (graph.neighbors other otherId).map change
      else graph.neighbors other otherId := by
  simp only [neighbors, getNode_updateLayer]
  rcases graph.getNode otherId with _ | node
  · simp
  · by_cases sameId : otherId = id
    · by_cases sameLayer : other = layer
      · simp [sameId, sameLayer]
      · simp [sameId, sameLayer, Ne.symm sameLayer]
    · simp [sameId]

/-- The nodes with all their lists emptied. -/
def skeleton (graph : HnswGraph V) : HnswGraph V :=
  { graph with
    nodes := graph.nodes.map fun node =>
      { node with layers := List.replicate node.layers.length [] } }

theorem skeleton_updateLayer : (graph.updateLayer layer id change).skeleton = graph.skeleton := by
  have unchanged : ∀ nodes : List (HnswNode V),
      (changeFirst (·.id == id)
        (fun node => { node with layers := node.layers.modify layer change }) nodes).map
          (fun node => { node with layers := List.replicate node.layers.length [] }) =
        nodes.map fun node => { node with layers := List.replicate node.layers.length [] } := by
    intro nodes
    induction nodes with
    | nil => rfl
    | cons head tail ih =>
        by_cases isHead : head.id = id
        · simp [changeFirst, isHead]
        · simpa [changeFirst, isHead] using ih
  simp [skeleton, updateLayer, unchanged]

/-- Changing the lists of several nodes of a layer in the same way. -/
theorem neighbors_foldl_updateLayer (again : ∀ list, change (change list) = change list)
    (ids : List UInt32) (other : ℕ) (otherId : UInt32) :
    (ids.foldl (fun graph id => graph.updateLayer layer id change) graph).neighbors other otherId =
      if other = layer ∧ otherId ∈ ids then (graph.neighbors other otherId).map change
      else graph.neighbors other otherId := by
  induction ids generalizing graph with
  | nil => simp
  | cons id rest ih =>
      rw [List.foldl_cons, ih, neighbors_updateLayer]
      by_cases sameLayer : other = layer
      · by_cases isRest : otherId ∈ rest
        · by_cases isId : otherId = id
          · simp [sameLayer, isId, Option.map_map, Function.comp_def, again]
          · simp [sameLayer, isRest, isId]
        · simp [sameLayer, isRest]
      · simp [sameLayer]

theorem skeleton_foldl_updateLayer (ids : List UInt32) :
    (ids.foldl (fun graph id => graph.updateLayer layer id change) graph).skeleton =
      graph.skeleton := by
  induction ids generalizing graph with
  | nil => rfl
  | cons id rest ih => rw [List.foldl_cons, ih, skeleton_updateLayer]

end Update

section Skeleton

/-- The node exists and has the layer. -/
def HasLayer (layer : ℕ) (graph : HnswGraph V) (id : UInt32) : Prop :=
  (graph.neighbors layer id).isSome

theorem hasLayer_iff :
    graph.HasLayer layer id ↔ ∃ node, graph.getNode id = some node ∧
      layer < node.layers.length := by
  rcases found : graph.getNode id with _ | node
  · simp [HasLayer, neighbors, found]
  · simp [HasLayer, neighbors, found]

theorem hasLayer_skeleton : graph.skeleton.HasLayer layer id ↔ graph.HasLayer layer id := by
  have found : graph.skeleton.getNode id = (graph.getNode id).map fun node =>
      { node with layers := List.replicate node.layers.length [] } := by
    rw [getNode, skeleton, List.find?_map]
    rfl
  simp [hasLayer_iff, found]

theorem ids_skeleton : graph.skeleton.nodes.map HnswNode.id = graph.nodes.map HnswNode.id := by
  simp [skeleton, Function.comp_def]

variable {after : HnswGraph V}

theorem hasLayer_iff_of_skeleton (same : after.skeleton = graph.skeleton) :
    after.HasLayer layer id ↔ graph.HasLayer layer id := by
  rw [← hasLayer_skeleton, same, hasLayer_skeleton]

theorem exists_iff_of_skeleton (same : after.skeleton = graph.skeleton) :
    after.Exists id ↔ graph.Exists id := by
  rw [exists_iff_mem, exists_iff_mem, ← ids_skeleton, same, ids_skeleton]

theorem HasLayer.exists (has : graph.HasLayer layer id) : graph.Exists id := by
  rcases hasLayer_iff.mp has with ⟨node, found, -⟩
  simp [Exists, found]

theorem HasLayer.lower {lower : ℕ} (has : graph.HasLayer layer id) (below : lower ≤ layer) :
    graph.HasLayer lower id := by
  rcases hasLayer_iff.mp has with ⟨node, found, within⟩
  exact hasLayer_iff.mpr ⟨node, found, by omega⟩

theorem Lists.hasLayer {other : UInt32} (lists : graph.Lists layer id other) :
    graph.HasLayer layer id := by
  rcases lists with ⟨list, found, -⟩
  simp [HasLayer, found]

end Skeleton

section Linked

/-- A layer is an undirected graph: links go both ways, no list names a node twice, and none
names its own node. -/
structure Linked (layer : ℕ) (graph : HnswGraph V) : Prop where
  symmetric : ∀ {first second}, graph.Lists layer first second → graph.Lists layer second first
  nodup : ∀ {id list}, graph.neighbors layer id = some list → list.Nodup
  irreflexive : ∀ {id}, ¬graph.Lists layer id id

theorem lists_congr {after : HnswGraph V}
    (same : ∀ id, after.neighbors layer id = graph.neighbors layer id) {first second : UInt32} :
    after.Lists layer first second ↔ graph.Lists layer first second := by
  simp only [Lists, same]

theorem Linked.congr {after : HnswGraph V} (linked : graph.Linked layer)
    (same : ∀ id, after.neighbors layer id = graph.neighbors layer id) : after.Linked layer where
  symmetric := fun lists => (lists_congr same).mpr (linked.symmetric ((lists_congr same).mp lists))
  nodup := fun found => linked.nodup (same _ ▸ found)
  irreflexive := fun lists => linked.irreflexive ((lists_congr same).mp lists)

theorem Linked.exists_of_lists (linked : graph.Linked layer) {first second : UInt32}
    (lists : graph.Lists layer first second) : graph.Exists second :=
  (linked.symmetric lists).exists

end Linked

section Linking

variable {neighbors : List UInt32}

/-- Links a node and its neighbours in both directions. -/
def link (layer : ℕ) (id : UInt32) (neighbors : List UInt32) (graph : HnswGraph V) :
    HnswGraph V :=
  neighbors.foldl (linkBack layer id) (graph.updateLayer layer id fun _ => neighbors)

theorem skeleton_link : (graph.link layer id neighbors).skeleton = graph.skeleton :=
  (skeleton_foldl_updateLayer neighbors).trans skeleton_updateLayer

theorem neighbors_link (other : ℕ) (otherId : UInt32) :
    (graph.link layer id neighbors).neighbors other otherId =
      if other = layer ∧ otherId ∈ neighbors then
        ((graph.updateLayer layer id fun _ => neighbors).neighbors other otherId).map
          fun list => if id ∈ list then list else list ++ [id]
      else (graph.updateLayer layer id fun _ => neighbors).neighbors other otherId := by
  apply neighbors_foldl_updateLayer
  intro list
  by_cases listed : id ∈ list
  · simp [listed]
  · simp [listed]

theorem neighbors_link_of_ne {other : ℕ} (differs : other ≠ layer) (otherId : UInt32) :
    (graph.link layer id neighbors).neighbors other otherId = graph.neighbors other otherId := by
  simp [neighbors_link, neighbors_updateLayer, differs]

variable (isEmpty : graph.neighbors layer id = some []) (isNew : id ∉ neighbors)
  (linked : graph.Linked layer)

include isEmpty isNew linked

/-- The lists after linking a node that had no links: its own, those of its neighbours, and
all others. -/
theorem neighbors_link_cases (otherId : UInt32) :
    (otherId = id ∧ (graph.link layer id neighbors).neighbors layer otherId = some neighbors) ∨
    (otherId ≠ id ∧ otherId ∈ neighbors ∧
      (graph.link layer id neighbors).neighbors layer otherId =
        (graph.neighbors layer otherId).map (· ++ [id])) ∨
    (otherId ≠ id ∧ otherId ∉ neighbors ∧
      (graph.link layer id neighbors).neighbors layer otherId =
        graph.neighbors layer otherId) := by
  by_cases isOwn : otherId = id
  · refine .inl ⟨isOwn, ?_⟩
    simp [neighbors_link, neighbors_updateLayer, isOwn, isNew, isEmpty]
  · by_cases isNeighbor : otherId ∈ neighbors
    · refine .inr (.inl ⟨isOwn, isNeighbor, ?_⟩)
      simp only [neighbors_link, neighbors_updateLayer, isNeighbor, isOwn, and_self, if_true,
        and_false, if_false]
      rcases found : graph.neighbors layer otherId with _ | list
      · rfl
      · -- nobody lists the node yet, as it lists nobody
        have fresh : id ∉ list := by
          intro listed
          rcases linked.symmetric ⟨list, found, listed⟩ with ⟨own, foundOwn, back⟩
          simp_all
        simp [fresh]
    · refine .inr (.inr ⟨isOwn, isNeighbor, ?_⟩)
      simp [neighbors_link, neighbors_updateLayer, isNeighbor, isOwn]

variable (present : ∀ neighbor ∈ neighbors, graph.HasLayer layer neighbor)

include present

theorem lists_link_iff {first second : UInt32} :
    (graph.link layer id neighbors).Lists layer first second ↔
      graph.Lists layer first second ∨ (first = id ∧ second ∈ neighbors) ∨
        (first ∈ neighbors ∧ second = id) := by
  have noneOwn : ∀ second, ¬graph.Lists layer id second := by
    rintro second ⟨list, found, listed⟩
    simp_all
  rcases neighbors_link_cases isEmpty isNew linked first with
    ⟨rfl, own⟩ | ⟨isOther, isNeighbor, extended⟩ | ⟨isOther, notNeighbor, same⟩
  · constructor
    · rintro ⟨list, found, listed⟩
      obtain rfl : neighbors = list := Option.some.inj (own.symm.trans found)
      exact .inr (.inl ⟨rfl, listed⟩)
    · rintro (lists | ⟨-, listed⟩ | ⟨isNeighbor, -⟩)
      · exact absurd lists (noneOwn second)
      · exact ⟨neighbors, own, listed⟩
      · exact absurd isNeighbor isNew
  · rcases Option.isSome_iff_exists.mp (present first isNeighbor) with ⟨list, found⟩
    simp [Lists, extended, found, isOther, isNeighbor]
  · simp [Lists, same, isOther, notNeighbor]

theorem Linked.link (nodup : neighbors.Nodup) : (graph.link layer id neighbors).Linked layer where
  symmetric := by
    intro first second lists
    rw [lists_link_iff isEmpty isNew linked present] at lists ⊢
    rcases lists with lists | ⟨isOwn, isNeighbor⟩ | ⟨isNeighbor, isOwn⟩
    · exact .inl (linked.symmetric lists)
    · exact .inr (.inr ⟨isNeighbor, isOwn⟩)
    · exact .inr (.inl ⟨isOwn, isNeighbor⟩)
  nodup := by
    intro otherId list found
    rcases neighbors_link_cases isEmpty isNew linked otherId with
      ⟨rfl, own⟩ | ⟨isOther, isNeighbor, extended⟩ | ⟨isOther, notNeighbor, same⟩
    · obtain rfl : neighbors = list := Option.some.inj (own.symm.trans found)
      exact nodup
    · rw [extended] at found
      rcases Option.map_eq_some_iff.mp found with ⟨old, foundOld, rfl⟩
      rw [← List.concat_eq_append]
      refine List.Nodup.concat ?_ (linked.nodup foundOld)
      intro listed
      rcases linked.symmetric ⟨old, foundOld, listed⟩ with ⟨own, foundOwn, back⟩
      simp_all
    · exact linked.nodup (same ▸ found)
  irreflexive := by
    intro otherId lists
    rw [lists_link_iff isEmpty isNew linked present] at lists
    rcases lists with lists | ⟨rfl, isNeighbor⟩ | ⟨isNeighbor, rfl⟩
    · exact linked.irreflexive lists
    · exact isNew isNeighbor
    · exact isNew isNeighbor

end Linking

section Pruning

variable {neighborId : UInt32} {kept dropped : List UInt32}

/-- Cuts the links between a node and the neighbours dropped from its list. -/
def cut (layer : ℕ) (neighborId : UInt32) (kept dropped : List UInt32) (graph : HnswGraph V) :
    HnswGraph V :=
  dropped.foldl
    (fun graph droppedId =>
      graph.updateLayer layer droppedId fun list => list.filter (· ≠ neighborId))
    (graph.updateLayer layer neighborId fun _ => kept)

theorem skeleton_cut : (graph.cut layer neighborId kept dropped).skeleton = graph.skeleton :=
  (skeleton_foldl_updateLayer dropped).trans skeleton_updateLayer

theorem neighbors_cut (other : ℕ) (otherId : UInt32) :
    (graph.cut layer neighborId kept dropped).neighbors other otherId =
      if other = layer ∧ otherId ∈ dropped then
        ((graph.updateLayer layer neighborId fun _ => kept).neighbors other otherId).map
          fun list => list.filter (· ≠ neighborId)
      else (graph.updateLayer layer neighborId fun _ => kept).neighbors other otherId := by
  apply neighbors_foldl_updateLayer
  intro list
  simp

theorem neighbors_cut_of_ne {other : ℕ} (differs : other ≠ layer) (otherId : UInt32) :
    (graph.cut layer neighborId kept dropped).neighbors other otherId =
      graph.neighbors other otherId := by
  simp [neighbors_cut, neighbors_updateLayer, differs]

section Cut

variable {list : List UInt32} (found : graph.neighbors layer neighborId = some list)
  (perm : list.Perm (kept ++ dropped)) (linked : graph.Linked layer)

include found perm linked

/-- The lists after a cut: that of the node, those of the nodes dropped, and all others. -/
theorem neighbors_cut_cases (otherId : UInt32) :
    (otherId = neighborId ∧
      (graph.cut layer neighborId kept dropped).neighbors layer otherId = some kept) ∨
    (otherId ≠ neighborId ∧ otherId ∈ dropped ∧
      (graph.cut layer neighborId kept dropped).neighbors layer otherId =
        (graph.neighbors layer otherId).map fun list => list.filter (· ≠ neighborId)) ∨
    (otherId ≠ neighborId ∧ otherId ∉ dropped ∧
      (graph.cut layer neighborId kept dropped).neighbors layer otherId =
        graph.neighbors layer otherId) := by
  have notSelf : neighborId ∉ dropped := by
    intro isDropped
    refine linked.irreflexive ⟨list, found, perm.mem_iff.mpr ?_⟩
    exact List.mem_append_right _ isDropped
  by_cases isOwn : otherId = neighborId
  · refine .inl ⟨isOwn, ?_⟩
    simp [neighbors_cut, neighbors_updateLayer, isOwn, notSelf, found]
  · by_cases isDropped : otherId ∈ dropped
    · refine .inr (.inl ⟨isOwn, isDropped, ?_⟩)
      simp [neighbors_cut, neighbors_updateLayer, isOwn, isDropped]
    · refine .inr (.inr ⟨isOwn, isDropped, ?_⟩)
      simp [neighbors_cut, neighbors_updateLayer, isOwn, isDropped]

/-- A cut removes the links between the node and the nodes dropped, in both directions. -/
theorem lists_cut_iff {first second : UInt32} :
    (graph.cut layer neighborId kept dropped).Lists layer first second ↔
      graph.Lists layer first second ∧ ¬(first = neighborId ∧ second ∈ dropped) ∧
        ¬(first ∈ dropped ∧ second = neighborId) := by
  have disjoint : ∀ id ∈ kept, id ∉ dropped := by
    have nodup := perm.nodup_iff.mp (linked.nodup found)
    exact fun id isKept isDropped => (List.nodup_append.mp nodup).2.2 id isKept id isDropped rfl
  rcases neighbors_cut_cases found perm linked first with
    ⟨rfl, own⟩ | ⟨isOther, isDropped, filtered⟩ | ⟨isOther, notDropped, same⟩
  · have notSelf : first ∉ dropped := by
      intro isDropped
      refine linked.irreflexive ⟨list, found, perm.mem_iff.mpr ?_⟩
      exact List.mem_append_right _ isDropped
    simp only [Lists, own, found, Option.some.injEq, exists_eq_left', perm.mem_iff,
      List.mem_append, notSelf, true_and, false_and, not_false_eq_true, and_true]
    constructor
    · exact fun isKept => ⟨.inl isKept, disjoint second isKept⟩
    · exact fun ⟨isOld, notDropped⟩ => isOld.resolve_right notDropped
  · simp only [Lists, filtered, isOther, isDropped, false_and, not_false_eq_true, true_and]
    rcases graph.neighbors layer first with _ | old
    · simp
    · simp
  · simp [Lists, same, isOther, notDropped]

theorem Linked.cut : (graph.cut layer neighborId kept dropped).Linked layer where
  symmetric := by
    intro first second lists
    rw [lists_cut_iff found perm linked] at lists ⊢
    rcases lists with ⟨lists, notForth, notBack⟩
    refine ⟨linked.symmetric lists, ?_, ?_⟩
    · exact fun ⟨isOwn, isDropped⟩ => notBack ⟨isDropped, isOwn⟩
    · exact fun ⟨isDropped, isOwn⟩ => notForth ⟨isOwn, isDropped⟩
  nodup := by
    intro otherId list' found'
    rcases neighbors_cut_cases found perm linked otherId with
      ⟨rfl, own⟩ | ⟨isOther, isDropped, filtered⟩ | ⟨isOther, notDropped, same⟩
    · obtain rfl : kept = list' := Option.some.inj (own.symm.trans found')
      exact (List.nodup_append.mp (perm.nodup_iff.mp (linked.nodup found))).1
    · rw [filtered] at found'
      rcases Option.map_eq_some_iff.mp found' with ⟨old, foundOld, rfl⟩
      exact (linked.nodup foundOld).filter _
    · exact linked.nodup (same ▸ found')
  irreflexive := by
    intro otherId lists
    exact linked.irreflexive ((lists_cut_iff found perm linked).mp lists).1

end Cut

variable [LinearOrder D] (distance : V → V → D)

omit [LinearOrder D] in
/-- The items that pruning sorts: the list with the distances from the node. -/
theorem ids_filterMap_getNode (node : HnswNode V) {list : List UInt32}
    (present : ∀ id ∈ list, graph.Exists id) :
    (list.filterMap fun id => (graph.getNode id).map fun other =>
      (id, distance node.vector other.vector)).map Prod.fst = list := by
  induction list with
  | nil => rfl
  | cons id rest ih =>
      rcases Option.isSome_iff_exists.mp (present id List.mem_cons_self) with ⟨other, found⟩
      rw [List.filterMap_cons, found]
      have := ih fun id listed => present id (List.mem_cons_of_mem _ listed)
      simpa using this

theorem exists_pruned_append_perm (layer : ℕ) (node : HnswNode V) {list : List UInt32}
    (present : ∀ id ∈ list, graph.Exists id) :
    ∃ rest, list.Perm (graph.pruned distance layer node list ++ rest) := by
  refine ⟨((sortByDistance (list.filterMap fun id => (graph.getNode id).map fun other =>
      (id, distance node.vector other.vector))).drop (graph.layerLimit layer)).map Prod.fst, ?_⟩
  rw [pruned, selectNeighbors, ← List.map_append, List.take_append_drop]
  have sorted := ((sortByDistance_perm (list.filterMap fun id =>
    (graph.getNode id).map fun other => (id, distance node.vector other.vector))).map Prod.fst).symm
  rwa [ids_filterMap_getNode distance node present] at sorted

theorem pruned_append_dropped_perm {node : HnswNode V} {list : List UInt32}
    (present : ∀ id ∈ list, graph.Exists id) (nodup : list.Nodup) :
    list.Perm (graph.pruned distance layer node list ++
      list.filter fun id => id ∉ graph.pruned distance layer node list) := by
  rcases exists_pruned_append_perm distance layer node present with ⟨rest, perm⟩
  have keptNodup := (List.nodup_append.mp (perm.nodup_iff.mp nodup)).1
  have isKept : (list.filter fun id => id ∈ graph.pruned distance layer node list).Perm
      (graph.pruned distance layer node list) := by
    rw [List.perm_ext_iff_of_nodup (nodup.filter _) keptNodup]
    intro id
    simp only [List.mem_filter, decide_eq_true_eq, and_iff_right_iff_imp]
    exact fun isKept => perm.mem_iff.mpr (List.mem_append_left _ isKept)
  have split := List.filter_append_perm
    (fun id => decide (id ∈ graph.pruned distance layer node list)) list
  have rests : (list.filter fun id => !decide (id ∈ graph.pruned distance layer node list)) =
      list.filter fun id => id ∉ graph.pruned distance layer node list := by
    simp
  rw [rests] at split
  exact split.symm.trans (isKept.append_right _)

theorem length_pruned {node : HnswNode V} {list : List UInt32}
    (present : ∀ id ∈ list, graph.Exists id) :
    (graph.pruned distance layer node list).length = min (graph.layerLimit layer) list.length := by
  have ids := congrArg List.length (ids_filterMap_getNode distance node present)
  simp only [List.length_map] at ids
  simp [pruned, selectNeighbors, ids]

/-- Pruning cuts a list that is too long down to the limit, and leaves all else alone. -/
theorem prune_cases (linked : graph.Linked layer) (neighborId : UInt32) :
    (graph.pruning distance layer neighborId = none ∧
      graph.prune distance layer neighborId = graph ∧
      ∀ list, graph.neighbors layer neighborId = some list →
        list.length ≤ graph.layerLimit layer) ∨
    ∃ list kept dropped, graph.pruning distance layer neighborId = some (kept, dropped) ∧
      graph.prune distance layer neighborId = graph.cut layer neighborId kept dropped ∧
      graph.neighbors layer neighborId = some list ∧ list.Perm (kept ++ dropped) ∧
      kept.length = graph.layerLimit layer ∧ graph.layerLimit layer < list.length := by
  rcases found : graph.getNode neighborId with _ | node
  · have : graph.pruning distance layer neighborId = none := by simp [pruning, found]
    refine .inl ⟨this, by simp [prune, this], by simp [neighbors, found]⟩
  · rcases foundList : node.layers[layer]? with _ | list
    · have : graph.pruning distance layer neighborId = none := by
        simp [pruning, found, foundList]
      refine .inl ⟨this, by simp [prune, this], by simp [neighbors, found, foundList]⟩
    · have isList : graph.neighbors layer neighborId = some list := by
        simp [neighbors, found, foundList]
      by_cases short : list.length ≤ graph.layerLimit layer
      · have : graph.pruning distance layer neighborId = none := by
          simp [pruning, found, foundList, short]
        refine .inl ⟨this, by simp [prune, this], ?_⟩
        intro other isOther
        obtain rfl : list = other := Option.some.inj (isList.symm.trans isOther)
        exact short
      · have : graph.pruning distance layer neighborId =
          some (graph.pruned distance layer node list,
            list.filter fun id => id ∉ graph.pruned distance layer node list) := by
          simp [pruning, found, foundList, short]
        have present : ∀ id ∈ list, graph.Exists id :=
          fun id listed => linked.exists_of_lists ⟨list, isList, listed⟩
        refine .inr ⟨list, _, _, this, by simp [prune, this, cut], isList, ?_, ?_, by omega⟩
        · exact pruned_append_dropped_perm distance present (linked.nodup isList)
        · rw [length_pruned distance present]
          omega

theorem skeleton_prune (linked : graph.Linked layer) (neighborId : UInt32) :
    (graph.prune distance layer neighborId).skeleton = graph.skeleton := by
  rcases prune_cases distance linked neighborId with
    ⟨-, unchanged, -⟩ | ⟨list, kept, dropped, -, isCut, -⟩
  · rw [unchanged]
  · rw [isCut, skeleton_cut]

theorem neighbors_prune_of_ne (linked : graph.Linked layer) (neighborId : UInt32) {other : ℕ}
    (differs : other ≠ layer) (otherId : UInt32) :
    (graph.prune distance layer neighborId).neighbors other otherId =
      graph.neighbors other otherId := by
  rcases prune_cases distance linked neighborId with
    ⟨-, unchanged, -⟩ | ⟨list, kept, dropped, -, isCut, -⟩
  · rw [unchanged]
  · rw [isCut, neighbors_cut_of_ne differs]

theorem Linked.prune (linked : graph.Linked layer) (neighborId : UInt32) :
    (graph.prune distance layer neighborId).Linked layer := by
  rcases prune_cases distance linked neighborId with
    ⟨-, unchanged, -⟩ | ⟨list, kept, dropped, -, isCut, found, perm, -⟩
  · rwa [unchanged]
  · rw [isCut]
    exact linked.cut found perm

end Pruning

end VenomDb.HnswGraph
