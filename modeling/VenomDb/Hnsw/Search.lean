import VenomDb.Hnsw.Beam
import VenomDb.Hnsw.Degrees

/-!
# The search of the graph

A search goes down to a node of the lowest layer and from there finds as many nodes as it was
asked for, or all that can be reached: as long as the beam has room, nothing that was visited is
left out. With a beam as wide as what can be reached these are the nearest ones, and a wider beam
never gives a worse answer.
-/

namespace VenomDb.HnswGraph

open Relation

variable {V D : Type} [LinearOrder D] [OrderTop D]

section Fills

variable {distance : V → V → D} {query : V} {ef layer : ℕ} {graph : HnswGraph V}
  {members : Finset UInt32} {Current : UInt32 → Prop} {state : SearchState D}

variable (distance query graph) in
/-- Results give way to others, and never to none. -/
theorem full_visitNeighbor (full : ef ≤ state.results.length) (neighborId : UInt32) :
    ef ≤ (graph.visitNeighbor distance query ef state neighborId).results.length := by
  rcases visitNeighbor_cases distance query ef graph state neighborId with
    ⟨-, unchanged⟩ | ⟨-, -, marked⟩ | ⟨-, node, -, kept⟩
  · rwa [unchanged]
  · rwa [marked]
  · rw [kept, SearchState.keep]
    simp only [List.length_take, length_sortByDistance, List.length_append, List.length_singleton,
      SearchState.visit]
    omega

variable (distance query graph) in
theorem full_foldl_visitNeighbor (full : ef ≤ state.results.length) (ids : List UInt32) :
    ef ≤ (ids.foldl (graph.visitNeighbor distance query ef) state).results.length := by
  refine List.foldlRecOn ids _
    (motive := fun state : SearchState D => ef ≤ state.results.length) full ?_
  intro other full neighborId _
  exact full_visitNeighbor distance query graph full neighborId

omit [OrderTop D] in
/-- Nothing is cut off before the beam is full. -/
theorem Exhausts.trim_of_le (exhausts : graph.Exhausts distance query layer members Current state)
    (short : state.results.length ≤ ef) :
    graph.Exhausts distance query layer members Current (state.trim ef) := by
  have whole : (state.trim ef).results = sortByDistance state.results := by
    apply List.take_of_length_le
    rw [length_sortByDistance]
    exact short
  refine ⟨exhausts.within.trim ef, ?_, ?_⟩
  · intro id visited present
    rw [whole, ((sortByDistance_perm _).map Prod.fst).mem_iff]
    exact exhausts.kept id visited present
  · intro id visited
    rw [SearchState.trim, ((sortByDistance_perm _).map Prod.fst).mem_iff]
    exact exhausts.expanded id visited

/-- The beam is full, or the search has left out nothing on its way to another state. -/
def Fills (distance : V → V → D) (query : V) (ef layer : ℕ) (graph : HnswGraph V)
    (members : Finset UInt32) (Current : UInt32 → Prop) (state state' : SearchState D) : Prop :=
  ef ≤ state'.results.length ∨
    graph.Exhausts distance query layer members Current state' ∧ state.visited ⊆ state'.visited

theorem Exhausts.fills_visitNeighbor
    (exhausts : graph.Exhausts distance query layer members Current state) {neighborId : UInt32}
    (isMember : graph.Exists neighborId → neighborId ∈ members) :
    graph.Fills distance query ef layer members Current state
        (graph.visitNeighbor distance query ef state neighborId) ∧
      neighborId ∈ (graph.visitNeighbor distance query ef state neighborId).visited := by
  rcases visitNeighbor_cases distance query ef graph state neighborId with
    ⟨seen, unchanged⟩ | ⟨unseen, full, marked⟩ | ⟨unseen, node, found, kept⟩
  · rw [unchanged]
    exact ⟨.inr ⟨exhausts, subset_rfl⟩, seen⟩
  · rw [marked]
    refine ⟨?_, Finset.mem_insert_self _ _⟩
    by_cases present : graph.Exists neighborId
    · exact .inl (full present)
    · refine .inr ⟨⟨exhausts.within.visit neighborId, ?_, ?_⟩, Finset.subset_insert _ _⟩
      · intro id visited isNode
        rcases SearchState.mem_visited_visit.mp visited with rfl | visited
        · exact absurd isNode present
        · exact exhausts.kept id visited isNode
      · intro id visited
        rcases SearchState.mem_visited_visit.mp visited with rfl | visited
        · exact .inr (.inr fun other lists => absurd lists.exists present)
        · exact (exhausts.expanded id visited).imp_right (Or.imp_right fun all other lists =>
            Finset.mem_insert_of_mem (all other lists))
  · rw [kept]
    refine ⟨?_, Finset.mem_insert_self _ _⟩
    by_cases full : ef ≤ state.results.length
    · rw [← kept]
      exact .inl (full_visitNeighbor distance query graph full neighborId)
    · have added := exhausts.add unseen found (isMember (by simp [Exists, found]))
      refine .inr ⟨added.trim_of_le ?_, Finset.subset_insert _ _⟩
      simp only [SearchState.add, SearchState.visit, List.length_append, List.length_singleton]
      omega

theorem Exhausts.fills_foldl_visitNeighbor (ids : List UInt32)
    (isMember : ∀ id ∈ ids, graph.Exists id → id ∈ members)
    (exhausts : graph.Exhausts distance query layer members Current state) :
    let state' := ids.foldl (graph.visitNeighbor distance query ef) state
    graph.Fills distance query ef layer members Current state state' ∧
      (ef ≤ state'.results.length ∨ ∀ id ∈ ids, id ∈ state'.visited) := by
  induction ids generalizing state with
  | nil => exact ⟨.inr ⟨exhausts, subset_rfl⟩, .inr (by simp)⟩
  | cons neighborId rest ih =>
      rw [List.foldl_cons]
      rcases exhausts.fills_visitNeighbor (isMember neighborId List.mem_cons_self) with
        ⟨full | ⟨next, grows⟩, visited⟩
      · have last := full_foldl_visitNeighbor distance query graph full rest
        exact ⟨.inl last, .inl last⟩
      · rcases ih (fun id isRest => isMember id (List.mem_cons_of_mem _ isRest)) next with
          ⟨full | ⟨last, growsRest⟩, visitedRest⟩
        · exact ⟨.inl full, .inl full⟩
        · refine ⟨.inr ⟨last, grows.trans growsRest⟩, visitedRest.imp_right ?_⟩
          intro rest' id listed
          rcases List.mem_cons.mp listed with rfl | listed
          · exact growsRest visited
          · exact rest' id listed

theorem Exhausts.fills_round {currentId : UInt32} {currentDist : D}
    {candidates : List (UInt32 × D)} (closed : graph.Closed layer (· ∈ members))
    (split : state.candidates = (currentId, currentDist) :: candidates)
    (exhausts : graph.Exhausts distance query layer members (fun _ => False) state) :
    graph.Fills distance query ef layer members (fun _ => False) state
      (graph.visitNeighbors distance query ef layer currentId { state with candidates }) := by
  have isCurrent : currentId ∈ members :=
    (exhausts.within.member (currentId, currentDist) (.inl (split ▸ List.mem_cons_self))).1
  have popped : graph.Exhausts distance query layer members (· = currentId)
      { state with candidates } := by
    have isOld (item : UInt32 × D) (found : item ∈ candidates ∨ item ∈ state.results) :
        item ∈ state.candidates ∨ item ∈ state.results := by
      rw [split]
      exact found.imp_left (List.mem_cons_of_mem _)
    refine ⟨⟨fun item found => exhausts.within.member item (isOld item found),
      fun item found => exhausts.within.measured item (isOld item found),
      exhausts.within.nodup⟩, exhausts.kept, ?_⟩
    intro id visited
    rcases exhausts.expanded id visited with waits | current | all
    · rw [split, List.map_cons, List.mem_cons] at waits
      exact waits.elim (fun isCurrent => .inr (.inl isCurrent)) .inl
    · exact current.elim
    · exact .inr (.inr all)
  rcases popped.fills_foldl_visitNeighbor ((graph.neighbors layer currentId).getD [])
    (fun id listed => closed currentId id isCurrent (lists_of_mem_neighbors listed)) with
    ⟨full | ⟨last, grows⟩, full | visited⟩
  · exact .inl full
  · exact .inl full
  · exact .inl full
  · refine .inr ⟨⟨last.within, last.kept, fun id isVisited => ?_⟩, grows⟩
    rcases last.expanded id isVisited with waits | rfl | all
    · exact .inl waits
    · refine .inr (.inr ?_)
      rintro other ⟨list, found, listed⟩
      exact visited other (by simpa [found] using listed)
    · exact .inr (.inr all)

omit [OrderTop D] in
theorem exhausts_start {epId : UInt32} (present : graph.Exists epId) (positive : 1 ≤ ef)
    (isMember : epId ∈ members) :
    graph.Exhausts distance query layer members (fun _ => False)
        (graph.startSearch distance query [epId] ef) ∧
      epId ∈ (graph.startSearch distance query [epId] ef).visited := by
  rcases Option.isSome_iff_exists.mp present with ⟨node, found⟩
  have nothing : graph.Exhausts distance query layer members (fun _ => False)
      (⟨∅, [], []⟩ : SearchState D) :=
    ⟨⟨by simp, by simp, by simp⟩, by simp, by simp⟩
  have entered := nothing.add (Finset.notMem_empty epId) found isMember
  have start : graph.startSearch distance query [epId] ef =
      ((SearchState.visit epId ⟨∅, [], []⟩).add (epId, distance query node.vector)).trim ef := by
    simp [startSearch, visitEntryPoint, found, SearchState.trim, SearchState.add,
      SearchState.visit]
  rw [start]
  exact ⟨entered.trim_of_le positive, Finset.mem_insert_self _ _⟩

/-- The beam is full at the end, or everything that can be reached is in it. -/
theorem searchLayer_fills {epId : UInt32} (present : graph.Exists epId) (positive : 1 ≤ ef) :
    ef ≤ (graph.searchLayer distance query [epId] ef layer).length ∨
      ∀ id, graph.Reached layer [epId] id →
        id ∈ (graph.searchLayer distance query [epId] ef layer).map Prod.fst := by
  let members := (finite_reached layer [epId] graph).toFinset
  have isMember (id : UInt32) : id ∈ members ↔ graph.Reached layer [epId] id := by
    simp [members]
  have closed : graph.Closed layer (· ∈ members) := by
    simpa only [isMember] using closed_reached
  have starts := @exhausts_start V D _ distance query ef layer graph members epId present positive
    ((isMember epId).mpr ⟨present, epId, List.mem_singleton_self _, present, .refl⟩)
  have round (state : SearchState D) (currentId : UInt32) (currentDist : D)
      (candidates : List (UInt32 × D))
      (split : state.candidates = (currentId, currentDist) :: candidates)
      (kept : graph.Fills distance query ef layer members (fun _ => False) ⟨{epId}, [], []⟩ state) :
      graph.Fills distance query ef layer members (fun _ => False) ⟨{epId}, [], []⟩
        (graph.visitNeighbors distance query ef layer currentId { state with candidates }) := by
    rcases kept with full | ⟨exhausts, entered⟩
    · left
      rw [visitNeighbors]
      apply full_foldl_visitNeighbor
      exact full
    · exact (exhausts.fills_round closed split).imp_right fun next =>
        ⟨next.1, entered.trans next.2⟩
  rcases searchLayer_ends distance query ef layer graph _
    (.inr ⟨starts.1, Finset.singleton_subset_iff.mpr starts.2⟩) round with
    ⟨last, full | ⟨exhausts, entered⟩, stops, results⟩
  · rw [results]
    exact .inl full
  · rw [results]
    rcases stops with empty | full
    · right
      rintro id ⟨isNode, other, isEntry, -, path⟩
      obtain rfl := List.mem_singleton.mp isEntry
      apply exhausts.kept id _ isNode
      clear isNode
      induction path with
      | refl => exact entered (Finset.mem_singleton_self other)
      | tail _ lists ih =>
          rcases exhausts.expanded _ ih with waits | current | all
          · simp [empty] at waits
          · exact current.elim
          · exact all _ lists
    · exact .inl full

end Fills

section Search

variable {distance : V → V → D} {query : V} {graph : HnswGraph V} {k : ℕ}

variable (distance query) in
/-- The node of the lowest layer to which the way down from the entry point leads. -/
def landing (graph : HnswGraph V) : Option UInt32 :=
  graph.entryPoint.map fun epId =>
    (List.range' 1 graph.maxLayer).reverse.foldl (graph.descend distance query) epId

variable (distance query) in
/-- A node that can be reached from there along the lists of the lowest layer. -/
def InReach (graph : HnswGraph V) (id : UInt32) : Prop :=
  ∃ epId, graph.landing distance query = some epId ∧ graph.Reached 0 [epId] id

variable (distance query k) in
/-- An answer to a search: `k` different nodes in reach at their distances, or all of them if
they are fewer, the nearest first. -/
structure Answers (graph : HnswGraph V) (results : List (UInt32 × D)) : Prop where
  nodup : (results.map Prod.fst).Nodup
  sorted : results.Pairwise fun first second => first.2 ≤ second.2
  inReach : ∀ item ∈ results, graph.InReach distance query item.1
  measured : ∀ item ∈ results, ∃ node, graph.getNode item.1 = some node ∧
    item.2 = distance query node.vector
  length : results.length = min k {id | graph.InReach distance query id}.ncard

variable (distance query) in
/-- No node in reach that is not among the results is nearer than one of them. -/
def Nearest (graph : HnswGraph V) (results : List (UInt32 × D)) : Prop :=
  ∀ item ∈ results, ∀ id node, graph.InReach distance query id → graph.getNode id = some node →
    id ∉ results.map Prod.fst → item.2 ≤ distance query node.vector

theorem search_eq (nonempty : graph.nodes ≠ []) : graph.search distance query k =
    (graph.landing distance query).map fun epId =>
      (graph.searchLayer distance query [epId] (max graph.config.efSearch k) 0).take k := by
  rw [search, if_neg nonempty, landing]
  cases graph.entryPoint <;> rfl

theorem Layered.landing_exists (layered : graph.Layered) (nonempty : graph.nodes ≠ [])
    (distance : V → V → D) (query : V) :
    ∃ epId, graph.landing distance query = some epId ∧ graph.Exists epId := by
  rcases layered.entry nonempty with ⟨topId, isEntry, hasTop⟩
  rw [landing, isEntry]
  refine ⟨_, rfl, ?_⟩
  exact (hasLayer_foldl_descend distance query layered.linked (fun _ _ => Nat.zero_le _)
    (hasTop.lower (Nat.zero_le _))).exists

theorem inReach_iff {epId id : UInt32} (landed : graph.landing distance query = some epId) :
    graph.InReach distance query id ↔ graph.Reached 0 [epId] id := by
  constructor
  · rintro ⟨other, landed', reached⟩
    obtain rfl := Option.some.inj (landed.symm.trans landed')
    exact reached
  · exact fun reached => ⟨epId, landed, reached⟩

omit [OrderTop D] in
/-- Of a sorted list, what is taken comes before what is left. -/
theorem le_of_mem_take {items : List (UInt32 × D)}
    (sorted : items.Pairwise fun first second => first.2 ≤ second.2) {item other : UInt32 × D}
    (taken : item ∈ items.take k) (listed : other ∈ items) (left : other ∉ items.take k) :
    item.2 ≤ other.2 := by
  rw [← List.take_append_drop k items] at sorted listed
  exact (List.pairwise_append.mp sorted).2.2 item taken other
    ((List.mem_append.mp listed).resolve_left left)

/-- The results are as many as the nodes in reach if they are all of these, and fewer otherwise. -/
theorem length_searchLayer {ef : ℕ} {epId : UInt32} (present : graph.Exists epId)
    (positive : 1 ≤ ef) :
    (graph.searchLayer distance query [epId] ef 0).length =
      min ef {id | graph.Reached 0 [epId] id}.ncard := by
  rcases searchLayer_spec distance query ef 0 [epId] graph with
    ⟨-, short, nodup, -, reached, -⟩
  have finite := finite_reached 0 [epId] graph
  generalize isFound : graph.searchLayer distance query [epId] ef 0 = found at short nodup reached
  have count : ((found.map Prod.fst).toFinset : Set UInt32).ncard = found.length := by
    rw [Set.ncard_coe_finset, List.toFinset_card_of_nodup nodup, List.length_map]
  have few : found.length ≤ {id | graph.Reached 0 [epId] id}.ncard := by
    rw [← count]
    apply Set.ncard_le_ncard _ finite
    intro id isResult
    rcases List.mem_map.mp (List.mem_toFinset.mp isResult) with ⟨item, isItem, rfl⟩
    exact (reached item isItem).1
  have fills := @searchLayer_fills V D _ _ distance query ef 0 graph epId present positive
  rw [isFound] at fills
  rcases fills with full | all
  · omega
  · have many : {id | graph.Reached 0 [epId] id}.ncard ≤ found.length := by
      rw [← count]
      apply Set.ncard_le_ncard _ (Finset.finite_toSet _)
      intro id isReached
      exact List.mem_toFinset.mpr (all id isReached)
    omega

/-- A search of a graph that was built answers, and with the nearest nodes if its beam is as wide
as there are nodes in reach. -/
theorem Layered.search_answers (layered : graph.Layered) (distance : V → V → D) (query : V)
    (k : ℕ) :
    ∃ results, graph.search distance query k = some results ∧
      graph.Answers distance query k results ∧
      ({id | graph.InReach distance query id}.ncard ≤ max graph.config.efSearch k →
        graph.Nearest distance query results) := by
  by_cases isEmpty : graph.nodes = []
  · have nowhere : {id | graph.InReach distance query id} = ∅ := by
      ext id
      simp [InReach, Reached, exists_iff_mem, isEmpty]
    refine ⟨[], by rw [search, if_pos isEmpty], ⟨by simp, by simp, by simp, by simp, ?_⟩, ?_⟩
    · simp [nowhere]
    · simp [Nearest]
  rcases layered.landing_exists isEmpty distance query with ⟨epId, landed, present⟩
  have same : {id | graph.InReach distance query id} = {id | graph.Reached 0 [epId] id} :=
    Set.ext fun id => inReach_iff landed
  rw [search_eq isEmpty, landed, same, Option.map_some]
  refine ⟨_, rfl, ?_⟩
  rcases searchLayer_spec distance query (max graph.config.efSearch k) 0 [epId] graph with
    ⟨-, -, nodup, sorted, reached, all⟩
  have length : 1 ≤ k → _ := fun positive => @length_searchLayer V D _ _ distance query graph
    (max graph.config.efSearch k) epId present (positive.trans (le_max_right _ _))
  generalize graph.searchLayer distance query [epId] (max graph.config.efSearch k) 0 = found at *
  refine ⟨⟨?_, ?_, ?_, ?_, ?_⟩, ?_⟩
  · exact nodup.sublist ((List.take_sublist k found).map Prod.fst)
  · exact sorted.sublist (List.take_sublist k found)
  · exact fun item taken => (inReach_iff landed).mpr (reached item (List.mem_of_mem_take taken)).1
  · exact fun item taken => (reached item (List.mem_of_mem_take taken)).2
  · rw [List.length_take, same]
    rcases Nat.eq_zero_or_pos k with rfl | positive
    · simp
    · rw [length positive]
      omega
  · intro wide item taken id node isInReach found' left
    have listed := all wide id ((inReach_iff landed).mp isInReach)
    rcases List.mem_map.mp listed with ⟨other, isFound, rfl⟩
    rcases (reached other isFound).2 with ⟨node', found'', measured⟩
    obtain rfl : node' = node := Option.some.inj (found''.symm.trans found')
    rw [← measured]
    apply le_of_mem_take sorted taken isFound
    exact fun taken' => left (List.mem_map_of_mem taken')

/-- Whatever was inserted, with whatever configuration: every search returns as many nodes as it
was asked for, or all that are in reach. With a beam as wide as these it returns the nearest ones,
and all nodes are in reach if they can all be reached from the entry point. -/
theorem build_search (distance : V → V → D) (config : HnswConfig)
    (insertions : List (Insertion V)) (distinct : (insertions.map Insertion.id).Nodup) :
    ∃ graph, build distance config insertions = some graph ∧ ∀ query k,
      (∃ results, graph.search distance query k = some results ∧
        graph.Answers distance query k results ∧
        ({id | graph.InReach distance query id}.ncard ≤ max config.efSearch k →
          graph.Nearest distance query results)) ∧
      (graph.AllReachable → ∀ id, graph.InReach distance query id ↔
        id ∈ insertions.map Insertion.id) := by
  have fresh : ∀ insertion ∈ insertions, ¬(new config : HnswGraph V).Exists insertion.id :=
    fun _ _ => by simp [exists_iff_mem, new]
  have empty : ∀ layer, (new config : HnswGraph V).Limited layer [] :=
    fun _ _ _ found => by simp [neighbors, getNode, new] at found
  rcases (layered_new config).insertAll distance distinct fresh with ⟨graph, built, layered, ids⟩
  have sameConfig : graph.config = config :=
    ((layered_new config).limited_insertAll distance empty distinct fresh built).2
  have inserted (id : UInt32) : graph.Exists id ↔ id ∈ insertions.map Insertion.id := by
    rw [exists_iff_mem, ids]
    simp [new]
  refine ⟨graph, built, fun query k => ⟨?_, fun reachable id => ?_⟩⟩
  · rw [← sameConfig]
    exact layered.search_answers distance query k
  · rw [← inserted]
    apply Iff.intro
    · rintro ⟨_, _, reached⟩
      exact reached.1
    intro present
    have nonempty : graph.nodes ≠ [] := by
      intro isEmpty
      simp [exists_iff_mem, isEmpty] at present
    rcases layered.landing_exists nonempty distance query with ⟨epId, landed, landing⟩
    have connects := layered.allReachable_iff.mp reachable
    apply (inReach_iff landed).mpr
    refine ⟨present, epId, List.mem_singleton_self _, landing, ?_⟩
    exact (layered.linked 0).reachable_iff.mp (connects epId landing id present)

end Search

section Wider

variable {distance : V → V → D} {query : V} {graph : HnswGraph V} {low high k l : ℕ}

omit [LinearOrder D] [OrderTop D] in
/-- The same graph with another width of its searches. -/
def withBeam (efSearch : ℕ) (graph : HnswGraph V) : HnswGraph V :=
  { graph with config := { graph.config with efSearch } }

theorem searchLoop_withBeam (efSearch ef layer fuel : ℕ) (state : SearchState D) :
    (graph.withBeam efSearch).searchLoop distance query ef layer fuel state =
      graph.searchLoop distance query ef layer fuel state := by
  induction fuel generalizing state with
  | zero => rfl
  | succ fuel ih =>
      rw [searchLoop, searchLoop]
      rcases state.candidates with _ | ⟨⟨currentId, currentDist⟩, candidates⟩
      · rfl
      · dsimp only
        split_ifs
        · rfl
        · exact ih _

/-- The width is read by nothing but the last step of a search. -/
theorem searchLayer_withBeam (efSearch ef layer : ℕ) (entryPoints : List UInt32) :
    (graph.withBeam efSearch).searchLayer distance query entryPoints ef layer =
      graph.searchLayer distance query entryPoints ef layer :=
  searchLoop_withBeam efSearch ef layer _ _

theorem landing_withBeam (efSearch : ℕ) :
    (graph.withBeam efSearch).landing distance query = graph.landing distance query := by
  have same : (graph.withBeam efSearch).descend distance query = graph.descend distance query := by
    funext epId layer
    rw [descend, descend, searchLayer_withBeam]
  rw [landing, landing, same]
  rfl

/-- A search with a wider beam, or for more nodes, never gives a worse answer: it returns at least
as many nodes, and at every place one that is not further away. -/
theorem search_wider (distance : V → V → D) (query : V) (graph : HnswGraph V)
    (distinct : graph.DistinctDistances distance query) (wider : low ≤ high) (more : k ≤ l)
    {results : List (UInt32 × D)}
    (searched : (graph.withBeam low).search distance query k = some results) :
    ∃ results', (graph.withBeam high).search distance query l = some results' ∧
      ∀ index (inside : index < results.length), ∃ inside' : index < results'.length,
        results'[index].2 ≤ results[index].2 := by
  by_cases isEmpty : graph.nodes = []
  · have nothing (efSearch count : ℕ) :
        (graph.withBeam efSearch).search distance query count = some [] := if_pos isEmpty
    obtain rfl := Option.some.inj ((nothing low k).symm.trans searched)
    exact ⟨[], nothing high l, by simp⟩
  have result (efSearch count : ℕ) : (graph.withBeam efSearch).search distance query count =
      (graph.landing distance query).map fun epId =>
        (graph.searchLayer distance query [epId] (max efSearch count) 0).take count := by
    have nonempty : (graph.withBeam efSearch).nodes ≠ [] := isEmpty
    rw [search_eq nonempty, landing_withBeam]
    simp only [searchLayer_withBeam]
    rfl
  rw [result] at searched
  rcases landed : graph.landing distance query with _ | epId
  · rw [landed] at searched
    cases searched
  rw [landed] at searched
  obtain rfl := Option.some.inj searched
  rw [result, landed]
  refine ⟨_, rfl, fun index inside => ?_⟩
  rw [List.length_take] at inside
  have positive : 1 ≤ max low k := by omega
  have widens : max low k ≤ max high l := by omega
  rcases (searchLayer_wider distance query [epId] 0 graph distinct positive widens).2 index
    (by omega) with ⟨inside', closer⟩
  refine ⟨?_, ?_⟩
  · rw [List.length_take]
    omega
  · rw [List.getElem_take, List.getElem_take]
    exact closer

end Wider

end VenomDb.HnswGraph

namespace VenomDb.Sample

open HnswGraph

theorem build_search_outlier : (outlier.map Insertion.id).Nodup ∧
    ∃ graph, build squaredDistance (.new 2 1 10) outlier = some graph ∧ ∀ query k,
      (∃ results, graph.search squaredDistance query k = some results ∧
        graph.Answers squaredDistance query k results ∧
        ({id | graph.InReach squaredDistance query id}.ncard ≤ max 10 k →
          graph.Nearest squaredDistance query results)) ∧
      (graph.AllReachable → ∀ id, graph.InReach squaredDistance query id ↔
        id ∈ outlier.map Insertion.id) :=
  ⟨by decide, build_search squaredDistance (.new 2 1 10) outlier (by decide)⟩

theorem search_wider_detour :
    (detour.withBeam 1).search gap 0 1 = some [(0, gap 0 5)] ∧
    ∃ results', (detour.withBeam 2).search gap 0 1 = some results' ∧
      ∀ index (inside : index < [((0 : UInt32), gap 0 5)].length),
        ∃ inside' : index < results'.length,
          results'[index].2 ≤ [((0 : UInt32), gap 0 5)][index].2 := by
  have distinct : detour.DistinctDistances gap 0 := by
    unfold DistinctDistances
    decide
  have searched : (detour.withBeam 1).search gap 0 1 = some [(0, gap 0 5)] := by decide
  exact ⟨searched, search_wider gap 0 detour distinct (by decide) le_rfl searched⟩

end VenomDb.Sample
