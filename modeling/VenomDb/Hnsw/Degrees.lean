import VenomDb.Hnsw.Reachability

/-!
# The length of the neighbour lists

A new node makes the lists of its neighbours longer by one, and each of them is pruned before
the next layer is connected. What a pruning takes off other lists makes them only shorter.
-/

namespace VenomDb.HnswGraph

variable {V D : Type} {graph : HnswGraph V} {id : UInt32}

theorem Layered.length_le (layered : graph.Layered) (limited : ∀ layer, graph.Limited layer [])
    {node : HnswNode V} (isNode : node ∈ graph.nodes) {layer : ℕ} {list : List UInt32}
    (found : node.layers[layer]? = some list) : list.length ≤ graph.layerLimit layer := by
  have isNeighbors : graph.neighbors layer node.id = some list := by
    simp [neighbors, layered.getNode_eq isNode, found]
  simpa using limited layer node.id list isNeighbors

variable [LinearOrder D] [OrderTop D] (distance : V → V → D)

section Connect

variable (query : V) {epId nextId : UInt32} {next : HnswGraph V}

theorem Connecting.limited_next {layer : ℕ} (connecting : graph.Connecting id (layer + 1) epId)
    (limited : ∀ other, graph.Limited other [])
    (connected : connectLayer distance id query (epId, graph) layer = some (nextId, next)) :
    ∀ other, next.Limited other [] := by
  rcases connecting.next distance query with ⟨_, _, isNext, -, same, unchanged⟩
  obtain ⟨rfl, rfl⟩ := Prod.mk.inj (Option.some.inj (connected.symm.trans isNext))
  intro other
  by_cases isLayer : other = layer
  · subst isLayer
    rcases connecting.connectLayer_eq distance query with ⟨_, -, -, pruned⟩
    obtain ⟨-, rfl⟩ := Prod.mk.inj (Option.some.inj (connected.symm.trans pruned))
    exact (connects_foldl_prune_iff distance _ (connecting.linked_link distance query)
      (connecting.limited_link distance query (limited other))).2
  · have sameConfig : next.config = graph.config := by
      simpa [skeleton] using congrArg HnswGraph.config same
    exact (limited other).congr sameConfig (unchanged other isLayer)

/-- Connecting several layers, one after the other, leaves no list too long. -/
theorem Connecting.limited_connectLayers (start count : ℕ) {epId : UInt32} {graph : HnswGraph V}
    (connecting : graph.Connecting id (start + count) epId)
    (limited : ∀ layer, graph.Limited layer [])
    (connected : (List.range' start count).reverse.foldlM (connectLayer distance id query)
      (epId, graph) = some (nextId, next)) :
    ∀ layer, next.Limited layer [] := by
  induction count generalizing epId graph with
  | zero =>
      obtain ⟨-, rfl⟩ := Prod.mk.inj (Option.some.inj connected)
      exact limited
  | succ count ih =>
      have top : graph.Connecting id (start + count + 1) epId := connecting
      rcases top.next distance query with ⟨middleId, middle, first, rest, -, -⟩
      rw [List.range'_concat, List.reverse_append, List.reverse_singleton, List.singleton_append,
        List.foldlM_cons, Nat.one_mul, first] at connected
      exact ih rest (top.limited_next distance query limited first) connected

end Connect

/-- An insertion of a new id leaves no list too long. -/
theorem Layered.limited_insert {vector : V} {nodeLevel : ℕ} {next : HnswGraph V}
    (layered : graph.Layered) (fresh : ¬graph.Exists id)
    (limited : ∀ layer, graph.Limited layer [])
    (inserted : graph.insert distance id vector nodeLevel = some next) :
    (∀ layer, next.Limited layer []) ∧ next.config = graph.config := by
  have pushed : ∀ layer, (graph.push id vector nodeLevel).Limited layer [] :=
    fun layer => (limited layer).push fresh
  by_cases isEmpty : graph.nodes = []
  · rw [HnswGraph.insert, if_pos isEmpty] at inserted
    obtain rfl := Option.some.inj inserted
    exact ⟨fun layer => (pushed layer).congr rfl fun _ => rfl, rfl⟩
  · rcases layered.connecting_push distance isEmpty fresh vector nodeLevel with
      ⟨epId, connecting, -, isInsert⟩
    rw [Nat.add_comm, ← Nat.zero_add (_ + 1)] at connecting
    rcases connecting.connectLayers distance vector with ⟨lastId, last, connected, -, same, -⟩
    rw [List.range_eq_range', connected] at isInsert
    obtain rfl : last.raise id nodeLevel = next :=
      Option.some.inj (isInsert.symm.trans inserted)
    refine ⟨fun layer => ?_, (config_raise nodeLevel).trans (config_of_skeleton_push same)⟩
    exact (connecting.limited_connectLayers distance vector 0 _ pushed connected layer).congr
      (config_raise nodeLevel) (neighbors_raise id nodeLevel layer)

theorem Layered.limited_insertAll {insertions : List (Insertion V)} {last : HnswGraph V}
    (layered : graph.Layered) (limited : ∀ layer, graph.Limited layer [])
    (distinct : (insertions.map Insertion.id).Nodup)
    (fresh : ∀ insertion ∈ insertions, ¬graph.Exists insertion.id)
    (insertedAll : graph.insertAll distance insertions = some last) :
    (∀ layer, last.Limited layer []) ∧ last.config = graph.config := by
  induction insertions generalizing graph with
  | nil =>
      obtain rfl := Option.some.inj insertedAll
      exact ⟨limited, rfl⟩
  | cons insertion rest ih =>
      have isNew := fresh insertion List.mem_cons_self
      rcases layered.insert distance isNew insertion.vector insertion.level with
        ⟨next, inserted, nextLayered, ids⟩
      rw [List.map_cons, List.nodup_cons] at distinct
      rw [HnswGraph.insertAll, List.foldlM_cons, inserted] at insertedAll
      rcases layered.limited_insert distance isNew limited inserted with ⟨nextLimited, same⟩
      rcases ih nextLayered nextLimited distinct.2 (fresh_rest ids distinct.1 fresh)
        insertedAll with
        ⟨lastLimited, sameLast⟩
      exact ⟨lastLimited, sameLast.trans same⟩

/-- After every insertion of a sequence with different ids, no list is longer than the limit of
its layer in the configuration. -/
theorem build_degreeBounded (config : HnswConfig) (insertions : List (Insertion V))
    (distinct : (insertions.map Insertion.id).Nodup) (count : ℕ) :
    ∃ graph, build distance config (insertions.take count) = some graph ∧
      ∀ node ∈ graph.nodes, ∀ layer list, node.layers[layer]? = some list →
        list.length ≤ if layer = 0 then config.mMax else config.m := by
  have fresh : ∀ insertion ∈ insertions.take count,
      ¬(new config : HnswGraph V).Exists insertion.id :=
    fun _ _ => by simp [exists_iff_mem, new]
  have empty : ∀ layer, (new config : HnswGraph V).Limited layer [] :=
    fun _ _ _ found => by simp [neighbors, getNode, new] at found
  have distinctTaken : ((insertions.take count).map Insertion.id).Nodup :=
    distinct.sublist ((List.take_sublist count insertions).map Insertion.id)
  rcases (layered_new config).insertAll distance distinctTaken fresh with
    ⟨graph, built, layered, -⟩
  rcases (layered_new config).limited_insertAll distance empty distinctTaken fresh built with
    ⟨limited, same⟩
  refine ⟨graph, built, fun node isNode layer list found => ?_⟩
  have bound := layered.length_le limited isNode found
  rwa [layerLimit, same] at bound

end VenomDb.HnswGraph

namespace VenomDb.Sample

open HnswGraph

theorem build_degreeBounded_outlier : (outlier.map Insertion.id).Nodup ∧
    ∃ graph, build squaredDistance (.new 2 1 10) (outlier.take 6) = some graph ∧
      ∀ node ∈ graph.nodes, ∀ layer list, node.layers[layer]? = some list →
        list.length ≤ if layer = 0 then (HnswConfig.new 2 1 10).mMax else 2 :=
  ⟨by decide, build_degreeBounded squaredDistance (.new 2 1 10) outlier (by decide) 6⟩

end VenomDb.Sample
