import VenomDb.Hnsw.Insertion
import VenomDb.Lib.Connectivity

/-!
# The reach of the lowest layer

Pruning a list on the lowest layer drops one neighbour. All nodes stay within reach of the
entry point exactly as long as no edge that is dropped is a bridge.
-/

namespace VenomDb.HnswGraph

open Relation VenomDb.Graph

variable {V D : Type} {graph after : HnswGraph V} {layer : ℕ} {id : UInt32}

section LayerGraph

/-- A layer as an undirected graph. -/
def layerGraph (layer : ℕ) (graph : HnswGraph V) : SimpleGraph UInt32 :=
  SimpleGraph.fromRel (graph.Lists layer)

theorem Linked.adj_iff (linked : graph.Linked layer) {first second : UInt32} :
    (graph.layerGraph layer).Adj first second ↔ graph.Lists layer first second := by
  rw [layerGraph, SimpleGraph.fromRel_adj]
  constructor
  · rintro ⟨-, forth | back⟩
    · exact forth
    · exact linked.symmetric back
  · refine fun lists => ⟨?_, .inl lists⟩
    rintro rfl
    exact linked.irreflexive lists

theorem Linked.reachable_iff (linked : graph.Linked layer) {first second : UInt32} :
    (graph.layerGraph layer).Reachable first second ↔
      ReflTransGen (graph.Lists layer) first second := by
  rw [SimpleGraph.reachable_iff_reflTransGen]
  have same : (graph.layerGraph layer).Adj = graph.Lists layer := by
    funext first second
    exact propext linked.adj_iff
  rw [same]

/-- All nodes lie in one component of a layer. -/
def Connects (layer : ℕ) (graph : HnswGraph V) : Prop :=
  ConnectedOn (graph.layerGraph layer) {id | graph.Exists id}

theorem layerGraph_congr
    (same : ∀ id, after.neighbors layer id = graph.neighbors layer id) :
    after.layerGraph layer = graph.layerGraph layer := by
  have : after.Lists layer = graph.Lists layer := by
    funext first second
    exact propext (lists_congr same)
  rw [layerGraph, layerGraph, this]

theorem connects_congr (sameNodes : ∀ id, after.Exists id ↔ graph.Exists id)
    (sameLists : ∀ id, after.neighbors layer id = graph.neighbors layer id) :
    after.Connects layer ↔ graph.Connects layer := by
  simp only [Connects, sameNodes, layerGraph_congr sameLists]

end LayerGraph

section Prune

variable [LinearOrder D] (distance : V → V → D)

/-- Pruning a list drops no bridge of the layer. -/
def DropsNoBridge (layer : ℕ) (neighborId : UInt32) (graph : HnswGraph V) : Prop :=
  ∀ kept dropped, graph.pruning distance layer neighborId = some (kept, dropped) →
    ∀ droppedId ∈ dropped, ¬(graph.layerGraph layer).IsBridge s(neighborId, droppedId)

/-- None of several prunings, one after the other, drops a bridge. -/
def SparesBridges (layer : ℕ) : List UInt32 → HnswGraph V → Prop
  | [], _ => True
  | neighborId :: rest, graph =>
      graph.DropsNoBridge distance layer neighborId ∧
        (graph.prune distance layer neighborId).SparesBridges layer rest

/-- The lists of a layer keep to its limit, up to one neighbour in lists still to be pruned. -/
def Limited (layer : ℕ) (pending : List UInt32) (graph : HnswGraph V) : Prop :=
  ∀ id list, graph.neighbors layer id = some list →
    list.length ≤ graph.layerLimit layer + if id ∈ pending then 1 else 0

theorem layerLimit_of_skeleton (same : after.skeleton = graph.skeleton) :
    after.layerLimit layer = graph.layerLimit layer := by
  have sameConfig : after.config = graph.config := by
    simpa [skeleton] using congrArg HnswGraph.config same
  rw [layerLimit, layerLimit, sameConfig]

theorem layerGraph_cut {neighborId droppedId : UInt32} {list kept : List UInt32}
    (linked : graph.Linked layer) (found : graph.neighbors layer neighborId = some list)
    (perm : list.Perm (kept ++ [droppedId])) :
    (graph.cut layer neighborId kept [droppedId]).layerGraph layer =
      (graph.layerGraph layer).deleteEdges {s(neighborId, droppedId)} := by
  ext first second
  rw [(linked.cut found perm).adj_iff, lists_cut_iff found perm linked,
    SimpleGraph.deleteEdges_adj, linked.adj_iff]
  simp only [List.mem_singleton, Set.mem_singleton_iff, Sym2.eq_iff, not_or]

/-- A list that may be one too long loses exactly one neighbour. -/
theorem prune_cases_of_limited {pending : List UInt32} (linked : graph.Linked layer)
    (limited : graph.Limited layer pending) (neighborId : UInt32) :
    (graph.pruning distance layer neighborId = none ∧
      graph.prune distance layer neighborId = graph ∧
      ∀ list, graph.neighbors layer neighborId = some list →
        list.length ≤ graph.layerLimit layer) ∨
    ∃ list kept droppedId,
      graph.pruning distance layer neighborId = some (kept, [droppedId]) ∧
      graph.prune distance layer neighborId = graph.cut layer neighborId kept [droppedId] ∧
      graph.neighbors layer neighborId = some list ∧ list.Perm (kept ++ [droppedId]) ∧
      kept.length = graph.layerLimit layer := by
  rcases prune_cases distance linked neighborId with
    unchanged | ⟨list, kept, dropped, pruning, isCut, found, perm, atLimit, tooLong⟩
  · exact .inl unchanged
  · right
    have bound := limited neighborId list found
    have lengths := perm.length_eq
    rw [List.length_append] at lengths
    have single : dropped.length = 1 := by
      split at bound
      · omega
      · omega
    rcases List.length_eq_one_iff.mp single with ⟨droppedId, rfl⟩
    exact ⟨list, kept, droppedId, pruning, isCut, found, perm, atLimit⟩

theorem Limited.prune {neighborId : UInt32} {rest : List UInt32} (linked : graph.Linked layer)
    (limited : graph.Limited layer (neighborId :: rest)) :
    (graph.prune distance layer neighborId).Limited layer rest := by
  intro otherId list found
  rw [layerLimit_of_skeleton (skeleton_prune distance linked neighborId)]
  -- a list that was not pruned now still keeps to its bound
  have kept : ∀ old, graph.neighbors layer otherId = some old → otherId ≠ neighborId →
      list.length ≤ old.length →
      list.length ≤ graph.layerLimit layer + if otherId ∈ rest then 1 else 0 := by
    intro old foundOld isOther shorter
    have bound := limited otherId old foundOld
    simp only [List.mem_cons, isOther, false_or] at bound
    omega
  rcases prune_cases_of_limited distance linked limited neighborId with
    ⟨-, unchanged, short⟩ | ⟨own, kept', droppedId, -, isCut, foundOwn, perm, atLimit⟩
  · rw [unchanged] at found
    by_cases isOwn : otherId = neighborId
    · have := short list (isOwn ▸ found)
      omega
    · exact kept list found isOwn le_rfl
  · rw [isCut] at found
    rcases neighbors_cut_cases foundOwn perm linked otherId with
      ⟨-, isKept⟩ | ⟨isOther, -, filtered⟩ | ⟨isOther, -, same⟩
    · obtain rfl : kept' = list := Option.some.inj (isKept.symm.trans found)
      omega
    · rw [filtered] at found
      rcases Option.map_eq_some_iff.mp found with ⟨old, foundOld, rfl⟩
      exact kept old foundOld isOther (List.length_filter_le _ _)
    · exact kept list (same ▸ found) isOther le_rfl

/-- A pruning keeps the nodes of a layer connected exactly if it drops no bridge. -/
theorem connects_prune_iff {neighborId : UInt32} {pending : List UInt32}
    (linked : graph.Linked layer) (limited : graph.Limited layer pending) :
    (graph.prune distance layer neighborId).Connects layer ↔
      graph.Connects layer ∧ graph.DropsNoBridge distance layer neighborId := by
  rcases prune_cases_of_limited distance linked limited neighborId with
    ⟨isNone, unchanged, -⟩ | ⟨list, kept, droppedId, pruning, isCut, found, perm, -⟩
  · have spares : graph.DropsNoBridge distance layer neighborId := by
      intro kept dropped pruning
      simp [isNone] at pruning
    rw [unchanged]
    exact ⟨fun connects => ⟨connects, spares⟩, And.left⟩
  · have spares : graph.DropsNoBridge distance layer neighborId ↔
        ¬(graph.layerGraph layer).IsBridge s(neighborId, droppedId) := by
      simp [DropsNoBridge, pruning]
    have lists : graph.Lists layer neighborId droppedId :=
      ⟨list, found, perm.mem_iff.mpr (by simp)⟩
    have sameNodes : ∀ id, (graph.cut layer neighborId kept [droppedId]).Exists id ↔
        graph.Exists id := fun id => exists_iff_of_skeleton skeleton_cut
    rw [isCut, spares, Connects, layerGraph_cut linked found perm]
    simp only [sameNodes]
    exact connectedOn_deleteEdges_iff lists.exists (linked.exists_of_lists lists)

theorem connects_foldl_prune_iff (ids : List UInt32) (linked : graph.Linked layer)
    (limited : graph.Limited layer ids) :
    ((ids.foldl (prune distance layer) graph).Connects layer ↔
      graph.Connects layer ∧ graph.SparesBridges distance layer ids) ∧
    (ids.foldl (prune distance layer) graph).Limited layer [] := by
  induction ids generalizing graph with
  | nil => exact ⟨by simp [SparesBridges], limited⟩
  | cons neighborId rest ih =>
      rcases ih (linked.prune distance neighborId) (limited.prune distance linked) with
        ⟨connects, lastLimited⟩
      refine ⟨?_, lastLimited⟩
      rw [List.foldl_cons, connects, connects_prune_iff distance linked limited, SparesBridges,
        and_assoc]

end Prune

section Insert

variable [LinearOrder D] [OrderTop D] (distance : V → V → D)

/-- Nodes and neighbour lists keep to the limits of the lowest layer. -/
structure Ready (graph : HnswGraph V) : Prop where
  layered : graph.Layered
  limited : graph.Limited 0 []
  efPositive : 0 < graph.config.efConstruction
  limitPositive : 0 < graph.layerLimit 0

/-- No pruning that an insertion makes on the lowest layer drops a bridge. -/
def InsertSpares (insertion : Insertion V) (graph : HnswGraph V) : Prop :=
  ∀ epId ground,
    graph.connectUpper distance insertion.id insertion.vector insertion.level =
      some (epId, ground) →
    let neighbors := ground.chosen distance insertion.vector epId 0
    (ground.link 0 insertion.id neighbors).SparesBridges distance 0 neighbors

variable {epId : UInt32} {vector : V}

theorem chosen_reachable (linked : graph.Linked layer) (query : V) (epId : UInt32) :
    ∀ other ∈ graph.chosen distance query epId layer,
      (graph.layerGraph layer).Reachable epId other := by
  have closed : graph.Closed layer ((graph.layerGraph layer).Reachable epId) :=
    fun _ _ reaches lists _ => reaches.trans (linked.adj_iff.mpr lists).reachable
  have found := (searchLayer_within distance query graph.config.efConstruction [epId]
    closed (by simp)).2
  intro other isChosen
  exact found other (((List.take_sublist _ _).map Prod.fst).subset isChosen)

theorem chosen_ne_nil (positive : 0 < graph.config.efConstruction)
    (limit : 0 < graph.layerLimit layer) (present : graph.Exists epId) (query : V) :
    graph.chosen distance query epId layer ≠ [] := by
  have found := searchLayer_ne_nil distance query layer positive present
  apply List.ne_nil_of_length_pos
  have := List.length_pos_iff.mpr found
  simp only [chosen, selectNeighbors, List.length_map, List.length_take]
  omega

theorem Limited.link {neighbors : List UInt32} (limited : graph.Limited layer [])
    (linked : graph.Linked layer) (isEmpty : graph.neighbors layer id = some [])
    (isNew : id ∉ neighbors) (short : neighbors.length ≤ graph.layerLimit layer) :
    (graph.link layer id neighbors).Limited layer neighbors := by
  intro otherId list found
  rw [layerLimit_of_skeleton skeleton_link]
  rcases neighbors_link_cases isEmpty isNew linked otherId with
    ⟨-, own⟩ | ⟨-, isNeighbor, extended⟩ | ⟨-, -, same⟩
  · obtain rfl : neighbors = list := Option.some.inj (own.symm.trans found)
    omega
  · rw [extended] at found
    rcases Option.map_eq_some_iff.mp found with ⟨old, foundOld, rfl⟩
    have bound := limited otherId old foundOld
    simpa [isNeighbor] using bound
  · have bound := limited otherId list (same ▸ found)
    simp only [List.not_mem_nil, if_false] at bound
    omega

theorem layerGraph_push {nodeLevel : ℕ} (fresh : ¬graph.Exists id) :
    (graph.push id vector nodeLevel).layerGraph layer = graph.layerGraph layer := by
  have same : (graph.push id vector nodeLevel).Lists layer = graph.Lists layer := by
    funext first second
    exact propext (lists_push fresh)
  rw [layerGraph, layerGraph, same]

theorem exists_push {nodeLevel : ℕ} {otherId : UInt32} :
    (graph.push id vector nodeLevel).Exists otherId ↔ otherId = id ∨ graph.Exists otherId := by
  simp [exists_iff_mem, push, emptyNode, or_comm]

theorem Connecting.limited_link (connecting : graph.Connecting id (layer + 1) epId)
    (query : V) (limited : graph.Limited layer []) :
    (graph.link layer id (graph.chosen distance query epId layer)).Limited layer
      (graph.chosen distance query epId layer) := by
  apply limited.link (connecting.linked layer) (connecting.unlinked layer (by omega))
  · intro isChosen
    exact ((connecting.chosen_spec distance query).2 id isChosen).2 rfl
  · simp [HnswGraph.chosen, selectNeighbors]

/-- Linking a new node into a layer neither connects nor separates the nodes it had. -/
theorem connects_link_iff {ground : HnswGraph V} {nodeLevel : ℕ} (linked : graph.Linked 0)
    (fresh : ¬graph.Exists id) (connecting : ground.Connecting id 1 epId)
    (same : ground.skeleton = (graph.push id vector nodeLevel).skeleton)
    (sameLists : ∀ otherId, ground.neighbors 0 otherId =
      (graph.push id vector nodeLevel).neighbors 0 otherId)
    (nonempty : ground.chosen distance vector epId 0 ≠ []) :
    (ground.link 0 id (ground.chosen distance vector epId 0)).Connects 0 ↔
      graph.Connects 0 := by
  rcases connecting.chosen_spec distance vector with ⟨-, found⟩
  have sameGraph : ground.layerGraph 0 = graph.layerGraph 0 :=
    (layerGraph_congr sameLists).trans (layerGraph_push fresh)
  have sameNodes : ∀ otherId, ground.Exists otherId ↔ otherId = id ∨ graph.Exists otherId :=
    fun otherId => (exists_iff_of_skeleton same).trans exists_push
  have vertices : {otherId | (ground.link 0 id
      (ground.chosen distance vector epId 0)).Exists otherId} =
      Insert.insert id {otherId | graph.Exists otherId} := by
    ext otherId
    exact (exists_iff_of_skeleton skeleton_link).trans (sameNodes otherId)
  have edges : ∀ first second, ((ground.link 0 id
      (ground.chosen distance vector epId 0)).layerGraph 0).Adj first second ↔
      (graph.layerGraph 0).Adj first second ∨
        (first = id ∧ second ∈ {other | other ∈ ground.chosen distance vector epId 0}) ∨
        (first ∈ {other | other ∈ ground.chosen distance vector epId 0} ∧ second = id) := by
    intro first second
    rw [(connecting.linked_link distance vector).adj_iff, ← sameGraph,
      (connecting.linked 0).adj_iff]
    exact lists_link_iff (connecting.unlinked 0 (by omega))
      (fun isChosen => (found id isChosen).2 rfl) (connecting.linked 0)
      (fun other isChosen => (found other isChosen).1)
  have reachable := chosen_reachable distance (connecting.linked 0) vector epId
  rw [sameGraph] at reachable
  rw [Connects, vertices]
  apply connectedOn_attached_iff edges
  · intro other edge
    exact fresh (linked.adj_iff.mp edge).exists
  · intro first isFirst second isSecond
    exact (reachable first isFirst).symm.trans (reachable second isSecond)
  · exact fresh
  · intro other isChosen
    rcases found other isChosen with ⟨has, differs⟩
    exact ((sameNodes other).mp has.exists).resolve_left differs
  · exact List.exists_mem_of_ne_nil _ nonempty

theorem Limited.congr {pending : List UInt32} (limited : graph.Limited layer pending)
    (sameConfig : after.config = graph.config)
    (same : ∀ id, after.neighbors layer id = graph.neighbors layer id) :
    after.Limited layer pending := by
  intro otherId list found
  rw [layerLimit, sameConfig]
  exact limited otherId list (same otherId ▸ found)

theorem Limited.push {nodeLevel : ℕ} (limited : graph.Limited layer [])
    (fresh : ¬graph.Exists id) : (graph.push id vector nodeLevel).Limited layer [] := by
  intro otherId list found
  rw [neighbors_push fresh] at found
  by_cases isNew : otherId = id
  · simp only [isNew, if_true] at found
    split at found
    · obtain rfl := Option.some.inj found
      simp
    · simp at found
  · exact limited otherId list (by simpa [isNew] using found)

theorem config_raise (nodeLevel : ℕ) : (graph.raise id nodeLevel).config = graph.config := by
  rw [raise]
  split
  · rfl
  · rfl

theorem connects_raise (nodeLevel : ℕ) :
    (graph.raise id nodeLevel).Connects layer ↔ graph.Connects layer :=
  connects_congr (fun _ => by rw [exists_iff_mem, exists_iff_mem, nodes_raise])
    (neighbors_raise id nodeLevel layer)

theorem config_of_skeleton_push {nodeLevel : ℕ}
    (same : after.skeleton = (graph.push id vector nodeLevel).skeleton) :
    after.config = graph.config := by
  simpa [skeleton, push] using congrArg HnswGraph.config same

theorem Ready.of_config (ready : graph.Ready) (layered : after.Layered)
    (limited : after.Limited 0 []) (same : after.config = graph.config) : after.Ready where
  layered := layered
  limited := limited
  efPositive := by
    rw [same]
    exact ready.efPositive
  limitPositive := by
    rw [layerLimit, same]
    exact ready.limitPositive

/-- The first insertion: one node, which is connected. -/
theorem Ready.insert_first (ready : graph.Ready) (isEmpty : graph.nodes = []) (vector : V)
    (nodeLevel : ℕ) :
    ({ graph.push id vector nodeLevel with
      entryPoint := some id, maxLayer := nodeLevel } : HnswGraph V).Ready ∧
    ({ graph.push id vector nodeLevel with
      entryPoint := some id, maxLayer := nodeLevel } : HnswGraph V).Connects 0 := by
  have fresh : ¬graph.Exists id := by simp [exists_iff_mem, isEmpty]
  refine ⟨ready.of_config (ready.layered.insert_first isEmpty vector nodeLevel)
    ((ready.limited.push fresh).congr rfl fun _ => rfl) rfl, ?_⟩
  intro first isFirst second isSecond
  have isNew : ∀ otherId, (graph.push id vector nodeLevel).Exists otherId → otherId = id := by
    intro otherId present
    rcases exists_push.mp present with isNew | isOld
    · exact isNew
    · simp [exists_iff_mem, isEmpty] at isOld
  rw [isNew first isFirst, isNew second isSecond]

/-- An insertion leaves all nodes connected exactly if they were connected before and it spares
the bridges. -/
theorem Ready.insert {insertion : Insertion V} (ready : graph.Ready)
    (fresh : ¬graph.Exists insertion.id) :
    ∃ next, graph.insert distance insertion.id insertion.vector insertion.level = some next ∧
      next.Ready ∧
      next.nodes.map HnswNode.id = graph.nodes.map HnswNode.id ++ [insertion.id] ∧
      (next.Connects 0 ↔ graph.Connects 0 ∧ graph.InsertSpares distance insertion) := by
  by_cases isEmpty : graph.nodes = []
  · rcases ready.insert_first isEmpty insertion.vector insertion.level with ⟨nextReady, connects⟩
    refine ⟨_, by rw [HnswGraph.insert, if_pos isEmpty], nextReady, by simp [push, emptyNode], ?_⟩
    refine iff_of_true connects ⟨?_, ?_⟩
    · intro first isFirst
      simp [exists_iff_mem, isEmpty] at isFirst
    · intro epId ground upper
      simp [connectUpper, isEmpty] at upper
  · rcases ready.layered.insert_eq distance isEmpty fresh insertion.vector insertion.level with
      ⟨epId, ground, upper, connecting, same, sameLists, inserted⟩
    rcases connecting.connectLayer_eq distance insertion.vector with ⟨nextId, -, -, connected⟩
    rcases connecting.next distance insertion.vector with
      ⟨nextId', next, isNext, nextConnecting, sameNext, -⟩
    obtain ⟨rfl, rfl⟩ := Prod.mk.inj (Option.some.inj (connected.symm.trans isNext))
    rw [connected] at inserted
    have sameAll := sameNext.trans same
    have present : ground.Exists epId := (connecting.entry 0 (by omega)).exists
    have sameConfig : ground.config = graph.config := config_of_skeleton_push same
    have efPositive : 0 < ground.config.efConstruction := sameConfig ▸ ready.efPositive
    have limitPositive : 0 < ground.layerLimit 0 := by
      rw [layerLimit, sameConfig]
      exact ready.limitPositive
    have limited : ground.Limited 0 [] := (ready.limited.push fresh).congr sameConfig sameLists
    rcases connects_foldl_prune_iff distance (ground.chosen distance insertion.vector epId 0)
      (connecting.linked_link distance insertion.vector)
      (connecting.limited_link distance insertion.vector limited) with ⟨connects, lastLimited⟩
    refine ⟨_, inserted, ?_, ?_, ?_⟩
    · refine ready.of_config (ready.layered.raise fresh isEmpty sameAll nextConnecting.linked)
        (lastLimited.congr (config_raise _) (neighbors_raise _ _ 0)) ?_
      rw [config_raise]
      exact config_of_skeleton_push sameAll
    · rw [nodes_raise]
      exact ids_of_skeleton_push sameAll
    · have nonempty := chosen_ne_nil distance efPositive limitPositive present insertion.vector
      have spares : graph.InsertSpares distance insertion ↔
          (ground.link 0 insertion.id
            (ground.chosen distance insertion.vector epId 0)).SparesBridges
            distance 0 (ground.chosen distance insertion.vector epId 0) := by
        simp [InsertSpares, upper]
      rw [connects_raise, connects, spares, connects_link_iff distance (ready.layered.linked 0)
        fresh connecting same sameLists nonempty]

end Insert

section Search

variable [LinearOrder D] [OrderTop D] (distance : V → V → D)

/-- Every node can be reached from the entry point along the lists of the lowest layer. -/
def AllReachable (graph : HnswGraph V) : Prop :=
  ∀ node ∈ graph.nodes, ∃ epId, graph.entryPoint = some epId ∧
    ReflTransGen (graph.Lists 0) epId node.id

/-- A search returns every node once, if it may return as many as there are. -/
def ReturnsAll (graph : HnswGraph V) : Prop :=
  ∀ query k, graph.nodes.length ≤ k → graph.nodes.length ≤ graph.config.efSearch →
    ∃ results, graph.search distance query k = some results ∧
      (results.map Prod.fst).Perm (graph.nodes.map HnswNode.id)

theorem Layered.allReachable_iff (layered : graph.Layered) :
    graph.AllReachable ↔ graph.Connects 0 := by
  constructor
  · intro reachable
    have fromEntry : ∀ id, graph.Exists id → ∃ epId, graph.entryPoint = some epId ∧
        (graph.layerGraph 0).Reachable epId id := by
      intro id present
      rcases List.mem_map.mp (exists_iff_mem.mp present) with ⟨node, isNode, rfl⟩
      rcases reachable node isNode with ⟨epId, isEntry, path⟩
      exact ⟨epId, isEntry, (layered.linked 0).reachable_iff.mpr path⟩
    intro first isFirst second isSecond
    rcases fromEntry first isFirst with ⟨epId, isEntry, toFirst⟩
    rcases fromEntry second isSecond with ⟨epId', isEntry', toSecond⟩
    obtain rfl : epId = epId' := Option.some.inj (isEntry.symm.trans isEntry')
    exact toFirst.symm.trans toSecond
  · intro connects node isNode
    rcases layered.entry (List.ne_nil_of_mem isNode) with ⟨epId, isEntry, has⟩
    refine ⟨epId, isEntry, (layered.linked 0).reachable_iff.mp ?_⟩
    exact connects epId has.exists node.id (exists_iff_mem.mpr (List.mem_map_of_mem isNode))

theorem Layered.returnsAll (layered : graph.Layered) (connects : graph.Connects 0) :
    graph.ReturnsAll distance := by
  intro query k enough _
  by_cases isEmpty : graph.nodes = []
  · exact ⟨[], by rw [search, if_pos isEmpty], by simp [isEmpty]⟩
  · rcases layered.entry isEmpty with ⟨topId, isEntry, hasTop⟩
    generalize descended : (List.range' 1 graph.maxLayer).reverse.foldl
      (graph.descend distance query) topId = epId
    have has : graph.HasLayer 0 epId := by
      rw [← descended]
      exact hasLayer_foldl_descend distance query layered.linked (by omega)
        (hasTop.lower (by omega))
    have roomy : graph.nodes.length ≤ max graph.config.efSearch k := by omega
    generalize isFound : graph.searchLayer distance query [epId]
      (max graph.config.efSearch k) 0 = found
    have closed : graph.Closed 0 graph.Exists := fun _ _ _ _ present => present
    rcases searchLayer_within distance query (max graph.config.efSearch k) [epId] closed
      (fun _ _ here => here) with ⟨nodup, present⟩
    have perm : (found.map Prod.fst).Perm (graph.nodes.map HnswNode.id) := by
      rw [← isFound, List.perm_ext_iff_of_nodup nodup layered.distinct]
      intro id
      rw [← exists_iff_mem]
      refine ⟨present id, fun isNode => ?_⟩
      have few := List.toFinset_card_le (graph.nodes.map HnswNode.id)
      rw [List.length_map] at few
      refine mem_searchLayer_of_reaches (graph.nodes.map HnswNode.id).toFinset
        (few.trans roomy) ?_ ?_ (List.mem_singleton_self epId) ?_ isNode
      · exact fun _ _ _ _ here => by simpa using exists_iff_mem.mp here
      · exact fun _ _ here => by simpa using exists_iff_mem.mp here
      exact (layered.linked 0).reachable_iff.mp (connects epId has.exists id isNode)
    have short : found.length ≤ k := by
      have := perm.length_eq
      simp only [List.length_map] at this
      omega
    refine ⟨found, ?_, perm⟩
    rw [search, if_neg isEmpty, isEntry]
    simp only [Option.bind_eq_bind, Option.bind_some, descended, isFound,
      List.take_of_length_le short]

end Search

section Build

variable [LinearOrder D] [OrderTop D] (distance : V → V → D)

/-- No insertion of a sequence drops a bridge of the lowest layer. -/
def Spares : List (Insertion V) → HnswGraph V → Prop
  | [], _ => True
  | insertion :: rest, graph =>
      graph.InsertSpares distance insertion ∧
        ∀ next, graph.insert distance insertion.id insertion.vector insertion.level = some next →
          next.Spares rest

theorem Ready.insertAll {insertions : List (Insertion V)} (ready : graph.Ready)
    (distinct : (insertions.map Insertion.id).Nodup)
    (fresh : ∀ insertion ∈ insertions, ¬graph.Exists insertion.id) :
    ∃ last, graph.insertAll distance insertions = some last ∧ last.Ready ∧
      (last.Connects 0 ↔ graph.Connects 0 ∧ graph.Spares distance insertions) := by
  induction insertions generalizing graph with
  | nil => exact ⟨graph, rfl, ready, by simp [Spares]⟩
  | cons insertion rest ih =>
      rcases ready.insert distance (fresh insertion List.mem_cons_self) with
        ⟨next, inserted, nextReady, ids, connects⟩
      rw [List.map_cons, List.nodup_cons] at distinct
      rcases ih nextReady distinct.2 (fresh_rest ids distinct.1 fresh) with
        ⟨last, insertedAll, lastReady, lastConnects⟩
      refine ⟨last, ?_, lastReady, ?_⟩
      · rw [HnswGraph.insertAll, List.foldlM_cons, inserted]
        exact insertedAll
      · rw [lastConnects, connects, Spares]
        simp [inserted, and_assoc]

theorem ready_new {config : HnswConfig} (efPositive : 0 < config.efConstruction)
    (limitPositive : 0 < config.mMax) : (new config : HnswGraph V).Ready where
  layered := layered_new config
  limited := fun _ _ found => by simp [neighbors, getNode, new] at found
  efPositive := efPositive
  limitPositive := limitPositive

/-- All nodes of a graph stay within reach of the entry point, and of a search, exactly as long
as no insertion drops a bridge of the lowest layer. -/
theorem build_allReachable_iff {config : HnswConfig} (efPositive : 0 < config.efConstruction)
    (limitPositive : 0 < config.mMax) (insertions : List (Insertion V))
    (distinct : (insertions.map Insertion.id).Nodup) :
    ∃ graph, build distance config insertions = some graph ∧
      (graph.AllReachable ∧ graph.ReturnsAll distance ↔
        (new config).Spares distance insertions) := by
  have ready : (new config : HnswGraph V).Ready := ready_new efPositive limitPositive
  have fresh : ∀ insertion ∈ insertions, ¬(new config : HnswGraph V).Exists insertion.id :=
    fun _ _ => by simp [exists_iff_mem, new]
  have starts : (new config : HnswGraph V).Connects 0 := by
    intro first isFirst
    simp [exists_iff_mem, new] at isFirst
  rcases ready.insertAll distance distinct fresh with ⟨graph, built, last, connects⟩
  refine ⟨graph, built, ?_⟩
  rw [last.layered.allReachable_iff]
  constructor
  · exact fun holds => (connects.mp holds.1).2
  · intro spares
    have connected := connects.mpr ⟨starts, spares⟩
    exact ⟨connected, last.layered.returnsAll distance connected⟩

end Build

end VenomDb.HnswGraph

namespace VenomDb.Sample

open HnswGraph

theorem build_allReachable_iff_outlier :
    (outlier.map Insertion.id).Nodup ∧
    ∃ graph, build squaredDistance (.new 2 1 10) outlier = some graph ∧
      (graph.AllReachable ∧ graph.ReturnsAll squaredDistance ↔
        (new (.new 2 1 10)).Spares squaredDistance outlier) :=
  ⟨by decide, build_allReachable_iff squaredDistance (by decide) (by decide) outlier (by decide)⟩

/-- The last insertion prunes the list of the first point and drops its only link to the
point far away. -/
theorem outlier_unreachable : (outlier.map Insertion.id).Nodup ∧
    ∃ graph, build squaredDistance (.new 2 1 10) outlier = some graph ∧
      ¬graph.AllReachable := by
  have distinct : (outlier.map Insertion.id).Nodup := by decide
  have fresh : ∀ insertion ∈ outlier,
      ¬(new (.new 2 1 10) : HnswGraph (ℤ × ℤ)).Exists insertion.id :=
    fun _ _ => by simp [exists_iff_mem, new]
  rcases (layered_new (.new 2 1 10)).insertAll squaredDistance distinct fresh with
    ⟨graph, built, layered, ids⟩
  have entry : (build squaredDistance (.new 2 1 10) outlier).map HnswGraph.entryPoint =
      some (some 0) := by decide +kernel
  have alone : (build squaredDistance (.new 2 1 10) outlier).map (HnswGraph.neighbors 0 1) =
      some (some []) := by decide +kernel
  have isBuilt : build squaredDistance (.new 2 1 10) outlier = some graph := built
  rw [isBuilt] at entry alone
  refine ⟨distinct, graph, isBuilt, fun reachable => ?_⟩
  have isNode : (1 : UInt32) ∈ graph.nodes.map HnswNode.id := by
    rw [ids]
    decide
  rcases List.mem_map.mp isNode with ⟨node, found, isOne⟩
  rcases reachable node found with ⟨epId, isEntry, path⟩
  obtain rfl : epId = 0 := by simpa [isEntry] using entry
  rw [isOne] at path
  rcases path.cases_tail with isSame | ⟨last, -, lists⟩
  · exact absurd isSame (by decide)
  · rcases (layered.linked 0).symmetric lists with ⟨list, isList, listed⟩
    simp_all

end VenomDb.Sample
