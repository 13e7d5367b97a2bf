import Mathlib.Order.WithBot
import VenomDb.Hnsw.Links

/-!
# Building the graph

Every graph that is built by inserting nodes with different ids is undirected on each of
its layers, and its entry point is a node of the top layer.
-/

namespace VenomDb.HnswGraph

variable {V D : Type} {graph : HnswGraph V} {id : UInt32}

section Push

variable {vector : V} {nodeLevel : ℕ}

theorem getNode_push (fresh : ¬graph.Exists id) (otherId : UInt32) :
    (graph.push id vector nodeLevel).getNode otherId =
      if otherId = id then some (emptyNode id vector nodeLevel) else graph.getNode otherId := by
  have missing : graph.nodes.find? (·.id == id) = none :=
    Option.not_isSome_iff_eq_none.mp fresh
  by_cases isNew : otherId = id
  · subst isNew
    simp only [getNode, push, List.find?_append, missing]
    simp [emptyNode]
  · have differs : id ≠ otherId := Ne.symm isNew
    simp [getNode, push, emptyNode, isNew, differs]

theorem neighbors_push (fresh : ¬graph.Exists id) (layer : ℕ) (otherId : UInt32) :
    (graph.push id vector nodeLevel).neighbors layer otherId =
      if otherId = id then (if layer ≤ nodeLevel then some [] else none)
      else graph.neighbors layer otherId := by
  rw [neighbors, getNode_push fresh]
  by_cases isNew : otherId = id
  · by_cases below : layer ≤ nodeLevel
    · simp [isNew, below, emptyNode, Nat.lt_succ_of_le below]
    · have outside : (List.replicate (nodeLevel + 1) ([] : List UInt32))[layer]? = none :=
        List.getElem?_eq_none (by rw [List.length_replicate]; omega)
      simp only [isNew, below, emptyNode, if_true, if_false, Option.bind_some, outside]
  · simp [isNew, neighbors]

theorem lists_push (fresh : ¬graph.Exists id) {layer : ℕ} {first second : UInt32} :
    (graph.push id vector nodeLevel).Lists layer first second ↔
      graph.Lists layer first second := by
  by_cases isNew : first = id
  · have noneOld : ¬graph.Lists layer first second := fun lists => fresh (isNew ▸ lists.exists)
    refine iff_of_false ?_ noneOld
    rintro ⟨list, found, listed⟩
    rw [neighbors_push fresh, if_pos isNew] at found
    split at found
    · simp_all
    · simp at found
  · simp [Lists, neighbors_push fresh, isNew]

theorem Linked.push {layer : ℕ} (linked : graph.Linked layer) (fresh : ¬graph.Exists id) :
    (graph.push id vector nodeLevel).Linked layer where
  symmetric := fun lists => (lists_push fresh).mpr (linked.symmetric ((lists_push fresh).mp lists))
  nodup := by
    intro otherId list found
    rw [neighbors_push fresh] at found
    by_cases isNew : otherId = id
    · simp only [isNew, if_true] at found
      split at found
      · obtain rfl := Option.some.inj found
        exact List.nodup_nil
      · simp at found
    · exact linked.nodup (by simpa [isNew] using found)
  irreflexive := fun lists => linked.irreflexive ((lists_push fresh).mp lists)

end Push

section Descent

variable [LinearOrder D] [OrderTop D] (distance : V → V → D) (query : V)

/-- On the way down the entry point never loses a layer below. -/
theorem hasLayer_descend {low layer : ℕ} (linked : graph.Linked layer) (below : low ≤ layer)
    {epId : UInt32} (has : graph.HasLayer low epId) :
    graph.HasLayer low (graph.descend distance query epId layer) := by
  have closed : graph.Closed layer (graph.HasLayer low) :=
    fun _ _ _ lists _ => (linked.symmetric lists).hasLayer.lower below
  have found := (searchLayer_within distance query 1 [epId] closed (by simp [has])).2
  rw [descend]
  split
  · exact has
  · next results =>
      rw [results] at found
      exact found _ (by simp)

theorem hasLayer_foldl_descend {low : ℕ} (linked : ∀ layer, graph.Linked layer)
    {layers : List ℕ} (below : ∀ layer ∈ layers, low ≤ layer) {epId : UInt32}
    (has : graph.HasLayer low epId) :
    graph.HasLayer low (layers.foldl (graph.descend distance query) epId) := by
  refine List.foldlRecOn layers _ (motive := graph.HasLayer low) has ?_
  intro epId has layer isLayer
  exact hasLayer_descend distance query (linked layer) (below layer isLayer) has

end Descent

section Connect

variable [LinearOrder D] (distance : V → V → D)

/-- What pruning the lists of a layer keeps. -/
theorem Linked.foldl_prune {layer : ℕ} (linked : graph.Linked layer) (ids : List UInt32) :
    (ids.foldl (HnswGraph.prune distance layer) graph).Linked layer ∧
    (ids.foldl (HnswGraph.prune distance layer) graph).skeleton = graph.skeleton ∧
    ∀ other, other ≠ layer → ∀ otherId,
      (ids.foldl (HnswGraph.prune distance layer) graph).neighbors other otherId =
        graph.neighbors other otherId := by
  induction ids generalizing graph with
  | nil => exact ⟨linked, rfl, fun _ _ _ => rfl⟩
  | cons neighborId rest ih =>
      rcases ih (linked.prune distance neighborId) with ⟨last, sameNodes, sameLists⟩
      refine ⟨last, sameNodes.trans (skeleton_prune distance linked neighborId), ?_⟩
      intro other differs otherId
      rw [List.foldl_cons, sameLists other differs otherId,
        neighbors_prune_of_ne distance linked neighborId differs]

/-- A new node that is still to be connected on the lowest `count` layers. -/
structure Connecting (id : UInt32) (count : ℕ) (epId : UInt32) (graph : HnswGraph V) : Prop where
  linked : ∀ layer, graph.Linked layer
  entry : ∀ layer < count, graph.HasLayer layer epId
  differs : epId ≠ id
  unlinked : ∀ layer < count, graph.neighbors layer id = some []

variable [OrderTop D] (query : V) {epId : UInt32} {layer : ℕ}

/-- The neighbours that the search of a layer selects for a new node. -/
def chosen (epId : UInt32) (layer : ℕ) (graph : HnswGraph V) : List UInt32 :=
  selectNeighbors (graph.searchLayer distance query [epId] graph.config.efConstruction layer)
    (graph.layerLimit layer)

/-- The search finds nodes of the layer, and not the new node, which nobody lists. -/
theorem Connecting.search_spec (connecting : graph.Connecting id (layer + 1) epId) (ef : ℕ) :
    ((graph.searchLayer distance query [epId] ef layer).map Prod.fst).Nodup ∧
      ∀ other ∈ (graph.searchLayer distance query [epId] ef layer).map Prod.fst,
        graph.HasLayer layer other ∧ other ≠ id := by
  have closed : graph.Closed layer fun other => graph.HasLayer layer other ∧ other ≠ id := by
    intro first second _ lists _
    have back := (connecting.linked layer).symmetric lists
    refine ⟨back.hasLayer, ?_⟩
    rintro rfl
    rcases back with ⟨list, found, listed⟩
    rw [connecting.unlinked layer (by omega)] at found
    obtain rfl := Option.some.inj found
    simp at listed
  have isEntry := And.intro (connecting.entry layer (by omega)) connecting.differs
  exact searchLayer_within distance query ef [epId] closed (by simp [isEntry])

theorem Connecting.chosen_spec (connecting : graph.Connecting id (layer + 1) epId) :
    (graph.chosen distance query epId layer).Nodup ∧
      ∀ other ∈ graph.chosen distance query epId layer,
        graph.HasLayer layer other ∧ other ≠ id := by
  rcases connecting.search_spec distance query graph.config.efConstruction with ⟨nodup, found⟩
  have sublist : (graph.chosen distance query epId layer).Sublist
      ((graph.searchLayer distance query [epId] graph.config.efConstruction layer).map Prod.fst) :=
    (List.take_sublist _ _).map Prod.fst
  exact ⟨nodup.sublist sublist, fun other isChosen => found other (sublist.subset isChosen)⟩

theorem Connecting.linked_link (connecting : graph.Connecting id (layer + 1) epId) :
    (graph.link layer id (graph.chosen distance query epId layer)).Linked layer := by
  rcases connecting.chosen_spec distance query with ⟨nodup, found⟩
  exact (connecting.linked layer).link (connecting.unlinked layer (by omega))
    (fun isChosen => (found id isChosen).2 rfl) (fun other isChosen => (found other isChosen).1)
    nodup

/-- Connecting a layer never panics: it links the new node to the chosen neighbours and prunes
their lists. -/
theorem Connecting.connectLayer_eq (connecting : graph.Connecting id (layer + 1) epId) :
    ∃ nextId, graph.HasLayer layer nextId ∧ nextId ≠ id ∧
      connectLayer distance id query (epId, graph) layer =
        some (nextId, (graph.chosen distance query epId layer).foldl (prune distance layer)
          (graph.link layer id (graph.chosen distance query epId layer))) := by
  have own := connecting.unlinked layer (by omega)
  have set : graph.setNeighbors layer id (graph.chosen distance query epId layer) =
      some (graph.updateLayer layer id fun _ => graph.chosen distance query epId layer) := by
    have has : graph.HasLayer layer id := by simp [HasLayer, own]
    rcases hasLayer_iff.mp has with ⟨node, found, within⟩
    simp [setNeighbors, found, within]
  have found := (connecting.search_spec distance query graph.config.efConstruction).2
  rcases results : graph.searchLayer distance query [epId] graph.config.efConstruction layer with
    _ | ⟨⟨closestId, closestDist⟩, rest⟩
  · refine ⟨epId, connecting.entry layer (by omega), connecting.differs, ?_⟩
    rw [chosen, results] at set ⊢
    simp [connectLayer, results, set, link]
  · rw [results] at found
    rcases found closestId (by simp) with ⟨has, differs⟩
    refine ⟨closestId, has, differs, ?_⟩
    rw [chosen, results] at set ⊢
    simp [connectLayer, results, set, link]

/-- Connecting one layer leaves the new node to be connected on the layers below. -/
theorem Connecting.next (connecting : graph.Connecting id (layer + 1) epId) :
    ∃ nextId next, connectLayer distance id query (epId, graph) layer = some (nextId, next) ∧
      next.Connecting id layer nextId ∧ next.skeleton = graph.skeleton ∧
      ∀ other, other ≠ layer → ∀ otherId,
        next.neighbors other otherId = graph.neighbors other otherId := by
  rcases connecting.connectLayer_eq distance query with ⟨nextId, has, differs, connected⟩
  rcases (connecting.linked_link distance query).foldl_prune distance
    (graph.chosen distance query epId layer) with ⟨linked, sameNodes, sameLists⟩
  have unchanged : ∀ other, other ≠ layer → ∀ otherId, _ = graph.neighbors other otherId :=
    fun other differs otherId =>
      (sameLists other differs otherId).trans (neighbors_link_of_ne differs otherId)
  have same := sameNodes.trans skeleton_link
  refine ⟨nextId, _, connected, ⟨?_, ?_, differs, ?_⟩, same, unchanged⟩
  · intro other
    by_cases isLayer : other = layer
    · exact isLayer ▸ linked
    · exact (connecting.linked other).congr (unchanged other isLayer)
  · intro lower below
    exact (hasLayer_iff_of_skeleton same).mpr (has.lower (by omega))
  · intro lower below
    rw [unchanged lower (by omega)]
    exact connecting.unlinked lower (by omega)

/-- Connecting several layers, from the top. -/
theorem Connecting.connectLayers (start count : ℕ) {epId : UInt32} {graph : HnswGraph V}
    (connecting : graph.Connecting id (start + count) epId) :
    ∃ nextId next,
      (List.range' start count).reverse.foldlM (connectLayer distance id query)
        (epId, graph) = some (nextId, next) ∧
      next.Connecting id start nextId ∧ next.skeleton = graph.skeleton ∧
      ∀ other < start, ∀ otherId,
        next.neighbors other otherId = graph.neighbors other otherId := by
  induction count generalizing epId graph with
  | zero => exact ⟨epId, graph, rfl, connecting, rfl, fun _ _ _ => rfl⟩
  | succ count ih =>
      have top : graph.Connecting id (start + count + 1) epId := connecting
      rcases top.next distance query with
        ⟨nextId, next, connected, nextConnecting, nextSame, nextLists⟩
      rcases ih nextConnecting with ⟨lastId, last, rest, lastConnecting, lastSame, lastLists⟩
      refine ⟨lastId, last, ?_, lastConnecting, lastSame.trans nextSame, ?_⟩
      · rw [List.range'_concat, List.reverse_append, List.reverse_singleton, List.singleton_append,
          List.foldlM_cons, Nat.one_mul, connected]
        exact rest
      · intro other below otherId
        rw [lastLists other below, nextLists other (by omega)]

end Connect

section Insert

/-- What holds between insertions. -/
structure Layered (graph : HnswGraph V) : Prop where
  distinct : (graph.nodes.map HnswNode.id).Nodup
  linked : ∀ layer, graph.Linked layer
  entry : graph.nodes ≠ [] → ∃ epId, graph.entryPoint = some epId ∧
    graph.HasLayer graph.maxLayer epId
  bounded : ∀ layer id, graph.HasLayer layer id → layer ≤ graph.maxLayer
  ground : ∀ id, graph.Exists id → graph.HasLayer 0 id

theorem layered_new (config : HnswConfig) : (new config : HnswGraph V).Layered where
  distinct := List.nodup_nil
  linked := fun _ =>
    { symmetric := fun ⟨_, found, _⟩ => by simp [neighbors, getNode, new] at found
      nodup := fun found => by simp [neighbors, getNode, new] at found
      irreflexive := fun ⟨_, found, _⟩ => by simp [neighbors, getNode, new] at found }
  entry := fun nonempty => absurd rfl nonempty
  bounded := fun _ _ has => by simp [HasLayer, neighbors, getNode, new] at has
  ground := fun _ present => by simp [Exists, getNode, new] at present

theorem neighbors_raise (id : UInt32) (nodeLevel layer : ℕ) (otherId : UInt32) :
    (graph.raise id nodeLevel).neighbors layer otherId = graph.neighbors layer otherId := by
  rw [raise]
  split
  · rfl
  · rfl

theorem nodes_raise (id : UInt32) (nodeLevel : ℕ) :
    (graph.raise id nodeLevel).nodes = graph.nodes := by
  rw [raise]
  split
  · rfl
  · rfl

variable {vector : V} {nodeLevel : ℕ}

theorem hasLayer_push (fresh : ¬graph.Exists id) {layer : ℕ} {otherId : UInt32} :
    (graph.push id vector nodeLevel).HasLayer layer otherId ↔
      (otherId = id ∧ layer ≤ nodeLevel) ∨ (otherId ≠ id ∧ graph.HasLayer layer otherId) := by
  by_cases isNew : otherId = id
  · by_cases below : layer ≤ nodeLevel
    · simp [HasLayer, neighbors_push fresh, isNew, below]
    · simp [HasLayer, neighbors_push fresh, isNew, below]
  · simp [HasLayer, neighbors_push fresh, isNew]

theorem ids_of_skeleton_push {after : HnswGraph V}
    (same : after.skeleton = (graph.push id vector nodeLevel).skeleton) :
    after.nodes.map HnswNode.id = graph.nodes.map HnswNode.id ++ [id] := by
  rw [← ids_skeleton, same, ids_skeleton]
  simp [push, emptyNode]

/-- A graph is layered again once the new node is connected on all its layers. -/
theorem Layered.raise {after : HnswGraph V} (layered : graph.Layered) (fresh : ¬graph.Exists id)
    (nonempty : graph.nodes ≠ [])
    (same : after.skeleton = (graph.push id vector nodeLevel).skeleton)
    (linked : ∀ layer, after.Linked layer) : (after.raise id nodeLevel).Layered := by
  have ids := ids_of_skeleton_push same
  have has : ∀ layer otherId, (after.raise id nodeLevel).HasLayer layer otherId ↔
      (otherId = id ∧ layer ≤ nodeLevel) ∨ (otherId ≠ id ∧ graph.HasLayer layer otherId) := by
    intro layer otherId
    rw [HasLayer, neighbors_raise, ← HasLayer, hasLayer_iff_of_skeleton same, hasLayer_push fresh]
  have sameTop : after.maxLayer = graph.maxLayer := by
    simpa [skeleton, HnswGraph.push] using congrArg HnswGraph.maxLayer same
  have sameEntry : after.entryPoint = graph.entryPoint := by
    simpa [skeleton, HnswGraph.push] using congrArg HnswGraph.entryPoint same
  have top : (after.raise id nodeLevel).maxLayer = max graph.maxLayer nodeLevel := by
    by_cases above : graph.maxLayer < nodeLevel
    · simp [HnswGraph.raise, sameTop, above, max_eq_right_of_lt above]
    · simp [HnswGraph.raise, sameTop, above, max_eq_left (Nat.le_of_not_lt above)]
  refine ⟨?_, ?_, ?_, ?_, ?_⟩
  · rw [nodes_raise, ids, ← List.concat_eq_append]
    exact List.Nodup.concat (fun isOld => fresh (exists_iff_mem.mpr isOld)) layered.distinct
  · exact fun layer => (linked layer).congr (neighbors_raise id nodeLevel layer)
  · intro _
    by_cases above : graph.maxLayer < nodeLevel
    · refine ⟨id, by simp [HnswGraph.raise, sameTop, above], ?_⟩
      rw [has, top]
      exact .inl ⟨rfl, by omega⟩
    · rcases layered.entry nonempty with ⟨epId, isEntry, hasTop⟩
      refine ⟨epId, by simp [HnswGraph.raise, sameTop, above, sameEntry, isEntry], ?_⟩
      rw [has, top, max_eq_left (by omega)]
      exact .inr ⟨fun isNew => fresh (isNew ▸ hasTop.exists), hasTop⟩
  · intro layer otherId hasLayer
    rw [top]
    rcases (has layer otherId).mp hasLayer with ⟨-, below⟩ | ⟨-, hasLayer⟩
    · omega
    · have := layered.bounded layer otherId hasLayer
      omega
  · intro otherId present
    rw [has]
    rw [exists_iff_mem, nodes_raise, ids, List.mem_append, List.mem_singleton] at present
    by_cases isNew : otherId = id
    · exact .inl ⟨isNew, by omega⟩
    · exact .inr ⟨isNew, layered.ground otherId
        (exists_iff_mem.mpr (present.resolve_right isNew))⟩

variable [LinearOrder D] [OrderTop D] (distance : V → V → D)

/-- The part of an insertion that comes before the lowest layer. -/
def connectUpper (id : UInt32) (vector : V) (nodeLevel : ℕ) (graph : HnswGraph V) :
    Option (UInt32 × HnswGraph V) :=
  if graph.nodes = [] then none
  else do
    let epId ← graph.entryPoint
    let epId := (List.range' (nodeLevel + 1) (graph.maxLayer - nodeLevel)).reverse.foldl
      (graph.descend distance vector) epId
    (List.range' 1 (min nodeLevel graph.maxLayer)).reverse.foldlM
      (connectLayer distance id vector) (epId, graph.push id vector nodeLevel)

/-- An insertion connects the new node on the layers that it shares with the graph, from the
top. -/
theorem Layered.connecting_push (layered : graph.Layered) (nonempty : graph.nodes ≠ [])
    (fresh : ¬graph.Exists id) (vector : V) (nodeLevel : ℕ) :
    ∃ epId, (graph.push id vector nodeLevel).Connecting id (1 + min nodeLevel graph.maxLayer)
        epId ∧
      graph.connectUpper distance id vector nodeLevel =
        (List.range' 1 (min nodeLevel graph.maxLayer)).reverse.foldlM
          (connectLayer distance id vector) (epId, graph.push id vector nodeLevel) ∧
      graph.insert distance id vector nodeLevel =
        ((List.range (min nodeLevel graph.maxLayer + 1)).reverse.foldlM
          (connectLayer distance id vector) (epId, graph.push id vector nodeLevel)).map fun last =>
            last.2.raise id nodeLevel := by
  rcases layered.entry nonempty with ⟨topId, isEntry, hasTop⟩
  generalize descended : (List.range' (nodeLevel + 1) (graph.maxLayer - nodeLevel)).reverse.foldl
    (graph.descend distance vector) topId = epId
  have has : graph.HasLayer (min nodeLevel graph.maxLayer) epId := by
    rw [← descended]
    refine hasLayer_foldl_descend distance vector layered.linked ?_ (hasTop.lower (by omega))
    intro layer isLayer
    rw [List.mem_reverse, List.mem_range'_1] at isLayer
    omega
  have isOther : epId ≠ id := fun isNew => fresh (isNew ▸ has.exists)
  refine ⟨epId, ⟨fun layer => (layered.linked layer).push fresh, ?_, isOther, ?_⟩, ?_, ?_⟩
  · intro layer below
    exact (hasLayer_push fresh).mpr (.inr ⟨isOther, has.lower (by omega)⟩)
  · intro layer below
    rw [neighbors_push fresh, if_pos rfl, if_pos (by omega)]
  · rw [connectUpper, if_neg nonempty, isEntry]
    simp only [Option.bind_eq_bind, Option.bind_some, descended]
  · rw [insert, if_neg nonempty, isEntry]
    simp only [Option.bind_eq_bind, Option.bind_some, descended]
    exact (Option.map_eq_bind ..).symm

/-- The moment at which an insertion connects the lowest layer. -/
theorem Layered.insert_eq (layered : graph.Layered) (nonempty : graph.nodes ≠ [])
    (fresh : ¬graph.Exists id) (vector : V) (nodeLevel : ℕ) :
    ∃ epId ground, graph.connectUpper distance id vector nodeLevel = some (epId, ground) ∧
      ground.Connecting id 1 epId ∧
      ground.skeleton = (graph.push id vector nodeLevel).skeleton ∧
      (∀ otherId, ground.neighbors 0 otherId =
        (graph.push id vector nodeLevel).neighbors 0 otherId) ∧
      graph.insert distance id vector nodeLevel =
        (connectLayer distance id vector (epId, ground) 0).map fun last =>
          last.2.raise id nodeLevel := by
  rcases layered.connecting_push distance nonempty fresh vector nodeLevel with
    ⟨epId, connecting, upper, inserted⟩
  rcases connecting.connectLayers distance vector with
    ⟨nextId, next, connected, nextConnecting, same, sameLists⟩
  refine ⟨nextId, next, upper.trans connected, nextConnecting, same, sameLists 0 (by omega), ?_⟩
  have layers : (List.range (min nodeLevel graph.maxLayer + 1)).reverse =
      (List.range' 1 (min nodeLevel graph.maxLayer)).reverse ++ [0] := by
    rw [List.range_eq_range', List.range'_succ, List.reverse_cons]
  rw [inserted, layers, List.foldlM_append, connected]
  rcases lowest : connectLayer distance id vector (nextId, next) 0 with _ | last
  · simp [lowest]
  · simp [lowest]

/-- The first insertion makes the new node the entry point. -/
theorem Layered.insert_first (layered : graph.Layered) (isEmpty : graph.nodes = [])
    (vector : V) (nodeLevel : ℕ) :
    ({ graph.push id vector nodeLevel with
      entryPoint := some id, maxLayer := nodeLevel } : HnswGraph V).Layered := by
  have fresh : ¬graph.Exists id := by simp [exists_iff_mem, isEmpty]
  have has : ∀ layer otherId, (graph.push id vector nodeLevel).HasLayer layer otherId ↔
      otherId = id ∧ layer ≤ nodeLevel := by
    intro layer otherId
    rw [hasLayer_push fresh]
    have missing : ¬graph.HasLayer layer otherId := by
      intro has
      simpa [exists_iff_mem, isEmpty] using has.exists
    simp [missing]
  refine ⟨?_, ?_, ?_, ?_, ?_⟩
  · simp [push, isEmpty]
  · exact fun layer => ((layered.linked layer).push fresh).congr fun _ => rfl
  · exact fun _ => ⟨id, rfl, (has nodeLevel id).mpr ⟨rfl, le_rfl⟩⟩
  · exact fun layer otherId hasLayer => ((has layer otherId).mp hasLayer).2
  · intro otherId present
    have isNew : otherId = id := by
      simpa [exists_iff_mem, push, isEmpty, emptyNode] using present
    exact (has 0 otherId).mpr ⟨isNew, by omega⟩

/-- An insertion of a new id never panics and keeps the graph layered. -/
theorem Layered.insert (layered : graph.Layered) (fresh : ¬graph.Exists id) (vector : V)
    (nodeLevel : ℕ) :
    ∃ next, graph.insert distance id vector nodeLevel = some next ∧ next.Layered ∧
      next.nodes.map HnswNode.id = graph.nodes.map HnswNode.id ++ [id] := by
  by_cases isEmpty : graph.nodes = []
  · exact ⟨_, by rw [HnswGraph.insert, if_pos isEmpty],
      layered.insert_first isEmpty vector nodeLevel,
      by simp [push, emptyNode]⟩
  · rcases layered.insert_eq distance isEmpty fresh vector nodeLevel with
      ⟨epId, ground, -, connecting, same, -, inserted⟩
    rcases connecting.next distance vector with ⟨nextId, next, connected, linked, sameNext, -⟩
    rw [connected] at inserted
    refine ⟨next.raise id nodeLevel, inserted,
      layered.raise fresh isEmpty (sameNext.trans same) linked.linked, ?_⟩
    rw [nodes_raise]
    exact ids_of_skeleton_push (sameNext.trans same)

end Insert

section Build

/-- A call of `insert` and the level that it draws. -/
structure Insertion (V : Type) where
  id : UInt32
  vector : V
  level : ℕ

variable [LinearOrder D] [OrderTop D] (distance : V → V → D)

/-- Inserts one node after the other. -/
def insertAll (insertions : List (Insertion V)) (graph : HnswGraph V) : Option (HnswGraph V) :=
  insertions.foldlM
    (fun graph insertion =>
      graph.insert distance insertion.id insertion.vector insertion.level) graph

/-- The graph after a sequence of insertions. -/
def build (config : HnswConfig) (insertions : List (Insertion V)) : Option (HnswGraph V) :=
  (new config).insertAll distance insertions

/-- After an insertion the ids still to come are new again. -/
theorem fresh_rest {insertion : Insertion V} {rest : List (Insertion V)} {next : HnswGraph V}
    (ids : next.nodes.map HnswNode.id = graph.nodes.map HnswNode.id ++ [insertion.id])
    (isOther : insertion.id ∉ rest.map Insertion.id)
    (fresh : ∀ other ∈ insertion :: rest, ¬graph.Exists other.id) :
    ∀ other ∈ rest, ¬next.Exists other.id := by
  intro other isRest present
  rw [exists_iff_mem, ids, List.mem_append, List.mem_singleton] at present
  rcases present with isOld | isNew
  · exact fresh other (List.mem_cons_of_mem _ isRest) (exists_iff_mem.mpr isOld)
  · exact isOther (isNew ▸ List.mem_map_of_mem isRest)

theorem Layered.insertAll {insertions : List (Insertion V)} (layered : graph.Layered)
    (distinct : (insertions.map Insertion.id).Nodup)
    (fresh : ∀ insertion ∈ insertions, ¬graph.Exists insertion.id) :
    ∃ last, graph.insertAll distance insertions = some last ∧ last.Layered ∧
      last.nodes.map HnswNode.id =
        graph.nodes.map HnswNode.id ++ insertions.map Insertion.id := by
  induction insertions generalizing graph with
  | nil => exact ⟨graph, rfl, layered, by simp⟩
  | cons insertion rest ih =>
      rcases layered.insert distance (fresh insertion List.mem_cons_self) insertion.vector
        insertion.level with ⟨next, inserted, nextLayered, ids⟩
      rw [List.map_cons, List.nodup_cons] at distinct
      rcases ih nextLayered distinct.2 (fresh_rest ids distinct.1 fresh) with
        ⟨last, insertedAll, lastLayered, lastIds⟩
      refine ⟨last, ?_, lastLayered, by simp [lastIds, ids]⟩
      rw [HnswGraph.insertAll, List.foldlM_cons, inserted]
      exact insertedAll

/-- The graph is undirected on every layer, and its entry point has the most layers. -/
structure WellLinked (graph : HnswGraph V) : Prop where
  symmetric : ∀ layer first second,
    graph.Lists layer first second ↔ graph.Lists layer second first
  present : ∀ layer first second, graph.Lists layer first second →
    ∃ node, graph.getNode second = some node ∧ layer < node.layers.length
  distinct : ∀ node ∈ graph.nodes, ∀ list ∈ node.layers, list.Nodup ∧ node.id ∉ list
  entry : graph.nodes ≠ [] → ∃ node ∈ graph.nodes, graph.entryPoint = some node.id ∧
    node.layers.length = graph.maxLayer + 1
  bounded : ∀ node ∈ graph.nodes, node.layers.length ≤ graph.maxLayer + 1

theorem Layered.getNode_eq (layered : graph.Layered) {node : HnswNode V}
    (isNode : node ∈ graph.nodes) : graph.getNode node.id = some node := by
  rcases found : graph.getNode node.id with _ | other
  · exact absurd (exists_iff_mem.mpr (List.mem_map_of_mem isNode)) (by simp [Exists, found])
  · have sameId : other.id = node.id := by simpa using List.find?_some found
    exact congrArg some
      (List.inj_on_of_nodup_map layered.distinct (List.mem_of_find?_eq_some found) isNode sameId)

theorem Layered.wellLinked (layered : graph.Layered) : graph.WellLinked where
  symmetric := fun layer _ _ => ⟨(layered.linked layer).symmetric, (layered.linked layer).symmetric⟩
  present := fun layer _ _ lists =>
    hasLayer_iff.mp ((layered.linked layer).symmetric lists).hasLayer
  distinct := by
    intro node isNode list isList
    rcases List.mem_iff_getElem?.mp isList with ⟨layer, found⟩
    have isNeighbors : graph.neighbors layer node.id = some list := by
      simp [neighbors, layered.getNode_eq isNode, found]
    refine ⟨(layered.linked layer).nodup isNeighbors, ?_⟩
    exact fun listed => (layered.linked layer).irreflexive ⟨list, isNeighbors, listed⟩
  entry := by
    intro nonempty
    rcases layered.entry nonempty with ⟨epId, isEntry, has⟩
    rcases hasLayer_iff.mp has with ⟨node, found, within⟩
    have isNode := List.mem_of_find?_eq_some found
    have sameId : node.id = epId := by simpa using List.find?_some found
    refine ⟨node, isNode, by rw [isEntry, sameId], ?_⟩
    have := layered.bounded (node.layers.length - 1) node.id
      (hasLayer_iff.mpr ⟨node, layered.getNode_eq isNode, by omega⟩)
    omega
  bounded := by
    intro node isNode
    by_contra above
    have := layered.bounded (graph.maxLayer + 1) node.id
      (hasLayer_iff.mpr ⟨node, layered.getNode_eq isNode, by omega⟩)
    omega

/-- Insertions of different ids never panic. Whatever the configuration, the distances and the
levels, the graph that they build has links in both directions on every layer. -/
theorem build_wellLinked (config : HnswConfig) (insertions : List (Insertion V))
    (distinct : (insertions.map Insertion.id).Nodup) :
    ∃ graph, build distance config insertions = some graph ∧ graph.WellLinked := by
  have fresh : ∀ insertion ∈ insertions, ¬(new config : HnswGraph V).Exists insertion.id :=
    fun _ _ => by simp [exists_iff_mem, new]
  rcases (layered_new config).insertAll distance distinct fresh with
    ⟨graph, built, layered, -⟩
  exact ⟨graph, built, layered.wellLinked⟩

end Build

end VenomDb.HnswGraph

namespace VenomDb.Sample

open HnswGraph

/-- The square of the Euclidean distance in the plane. -/
def squaredDistance (first second : ℤ × ℤ) : WithTop ℕ :=
  let width := (first.1 - second.1).natAbs
  let height := (first.2 - second.2).natAbs
  WithTop.some (width * width + height * height)

/-- A point, a second one far away from it, and four around the first. -/
def outlier : List (Insertion (ℤ × ℤ)) :=
  [⟨0, (0, 0), 0⟩, ⟨1, (100, 0), 0⟩, ⟨2, (1, 0), 0⟩, ⟨3, (-1, 0), 0⟩, ⟨4, (0, 1), 0⟩,
    ⟨5, (0, -1), 0⟩]

theorem build_wellLinked_outlier : (outlier.map Insertion.id).Nodup ∧
    ∃ graph, build squaredDistance (.new 2 1 10) outlier = some graph ∧ graph.WellLinked :=
  ⟨by decide, build_wellLinked squaredDistance (.new 2 1 10) outlier (by decide)⟩

end VenomDb.Sample
