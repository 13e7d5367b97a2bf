import Mathlib.Data.Set.Card
import Mathlib.Logic.Relation
import VenomDb.Hnsw.Graph

/-!
# The search of a layer

The search ends, and stays inside every set of nodes that holds its entry points and is
closed under the neighbour lists of the layer. If it may keep as many results as such a set
has nodes, it finds all that can be reached. Nothing is asked of the lists: they may lead in
circles, to nodes that do not exist and to nodes that lack the layer.
-/

namespace VenomDb.HnswGraph

open Relation

variable {V D : Type}

/-- The list of a node on a layer contains another node. -/
def Lists (layer : ℕ) (graph : HnswGraph V) (first second : UInt32) : Prop :=
  ∃ list, graph.neighbors layer first = some list ∧ second ∈ list

def Exists (graph : HnswGraph V) (id : UInt32) : Prop := (graph.getNode id).isSome

theorem exists_iff_mem {graph : HnswGraph V} {id : UInt32} :
    graph.Exists id ↔ id ∈ graph.nodes.map HnswNode.id := by
  simp [Exists, getNode, List.find?_isSome]

theorem Lists.exists {layer : ℕ} {graph : HnswGraph V} {first second : UInt32}
    (lists : graph.Lists layer first second) : graph.Exists first := by
  rcases lists with ⟨list, found, -⟩
  rcases Option.bind_eq_some_iff.mp found with ⟨node, isNode, -⟩
  simp [Exists, isNode]

section Sorting

variable [LinearOrder D]

theorem sortByDistance_perm (candidates : List (UInt32 × D)) :
    (sortByDistance candidates).Perm candidates :=
  List.perm_insertionSort _ _

@[simp]
theorem mem_sortByDistance {candidates : List (UInt32 × D)} {item : UInt32 × D} :
    item ∈ sortByDistance candidates ↔ item ∈ candidates :=
  (sortByDistance_perm candidates).mem_iff

@[simp]
theorem length_sortByDistance (candidates : List (UInt32 × D)) :
    (sortByDistance candidates).length = candidates.length :=
  (sortByDistance_perm candidates).length_eq

theorem nodup_ids_sortByDistance {candidates : List (UInt32 × D)} :
    ((sortByDistance candidates).map Prod.fst).Nodup ↔ (candidates.map Prod.fst).Nodup :=
  ((sortByDistance_perm candidates).map Prod.fst).nodup_iff

theorem pairwise_sortByDistance (candidates : List (UInt32 × D)) :
    (sortByDistance candidates).Pairwise fun first second => first.2 ≤ second.2 := by
  have total : Std.Total fun first second : UInt32 × D => first.2 ≤ second.2 :=
    ⟨fun first second => le_total first.2 second.2⟩
  have transitive : IsTrans (UInt32 × D) fun first second => first.2 ≤ second.2 :=
    ⟨fun _ _ _ first second => first.trans second⟩
  exact List.pairwise_insertionSort _ _

end Sorting

namespace SearchState

variable [LinearOrder D]

/-- A node as a further candidate and result. -/
def add (item : UInt32 × D) (state : SearchState D) : SearchState D :=
  { state with candidates := state.candidates ++ [item], results := state.results ++ [item] }

/-- Sorted, and with the `ef` closest results only. -/
def trim (ef : ℕ) (state : SearchState D) : SearchState D :=
  { state with
    candidates := sortByDistance state.candidates
    results := (sortByDistance state.results).take ef }

theorem keep_eq (ef : ℕ) (item : UInt32 × D) (state : SearchState D) :
    state.keep ef item = (state.add item).trim ef := rfl

omit [LinearOrder D] in
@[simp]
theorem mem_visited_visit {state : SearchState D} {id other : UInt32} :
    other ∈ (state.visit id).visited ↔ other = id ∨ other ∈ state.visited :=
  Finset.mem_insert

omit [LinearOrder D] in
/-- Nothing but the new node is found anew. -/
theorem mem_add {state : SearchState D} {item other : UInt32 × D}
    (found : other ∈ (state.add item).candidates ∨ other ∈ (state.add item).results) :
    (other ∈ state.candidates ∨ other ∈ state.results) ∨ other = item := by
  simp only [add, List.mem_append, List.mem_singleton] at found
  tauto

theorem mem_trim {state : SearchState D} {ef : ℕ} {item : UInt32 × D}
    (found : item ∈ (state.trim ef).candidates ∨ item ∈ (state.trim ef).results) :
    item ∈ state.candidates ∨ item ∈ state.results :=
  found.imp mem_sortByDistance.mp fun taken => mem_sortByDistance.mp (List.mem_of_mem_take taken)

end SearchState

variable [LinearOrder D] [OrderTop D]

section Loop

variable (distance : V → V → D) (query : V) (ef layer : ℕ) (graph : HnswGraph V)

omit [LinearOrder D] [OrderTop D] in
/-- An entry point is passed over, or it becomes a candidate and a result. -/
theorem visitEntryPoint_cases (state : SearchState D) (epId : UInt32) :
    ((graph.Exists epId → epId ∈ state.visited) ∧
      graph.visitEntryPoint distance query state epId = state) ∨
    (epId ∉ state.visited ∧ ∃ node, graph.getNode epId = some node ∧
      graph.visitEntryPoint distance query state epId =
        (state.visit epId).add (epId, distance query node.vector)) := by
  by_cases seen : epId ∈ state.visited
  · exact .inl ⟨fun _ => seen, by simp [visitEntryPoint, seen]⟩
  · rcases found : graph.getNode epId with _ | node
    · exact .inl ⟨by simp [Exists, found], by simp [visitEntryPoint, seen, found]⟩
    · exact .inr ⟨seen, node, rfl, by
        simp [visitEntryPoint, seen, found, SearchState.add, SearchState.visit]⟩

/-- A neighbour was visited before, or it is noted as visited and not kept, or it becomes a
candidate and a result. -/
theorem visitNeighbor_cases (state : SearchState D) (neighborId : UInt32) :
    (neighborId ∈ state.visited ∧ graph.visitNeighbor distance query ef state neighborId = state) ∨
    (neighborId ∉ state.visited ∧ (graph.Exists neighborId → ef ≤ state.results.length) ∧
      graph.visitNeighbor distance query ef state neighborId = state.visit neighborId) ∨
    (neighborId ∉ state.visited ∧ ∃ node, graph.getNode neighborId = some node ∧
      graph.visitNeighbor distance query ef state neighborId =
        (state.visit neighborId).keep ef (neighborId, distance query node.vector)) := by
  by_cases seen : neighborId ∈ state.visited
  · exact .inl ⟨seen, by simp [visitNeighbor, seen]⟩
  · right
    rcases found : graph.getNode neighborId with _ | neighborNode
    · exact .inl ⟨seen, by simp [Exists, found], by simp [visitNeighbor, seen, found]⟩
    · by_cases keeps : (state.visit neighborId).results.length < ef ∨
          distance query neighborNode.vector < (state.visit neighborId).worstResultDist
      · exact .inr ⟨seen, neighborNode, rfl, by
          simp only [visitNeighbor, seen, found, keeps, if_false, if_true]⟩
      · refine .inl ⟨seen, fun _ => ?_, by
          simp only [visitNeighbor, seen, found, keeps, if_false]⟩
        exact Nat.not_lt.mp fun shorter => keeps (.inl shorter)

/-- A bound on the candidates that the loop still takes out. -/
def remaining (state : SearchState D) : ℕ :=
  state.candidates.length + ((graph.nodes.map HnswNode.id).toFinset \ state.visited).card

omit [LinearOrder D] [OrderTop D] in
/-- A new candidate is a node less to visit. -/
theorem remaining_add_visit {state : SearchState D} {id : UInt32} (unseen : id ∉ state.visited)
    (present : graph.Exists id) (dist : D) :
    graph.remaining ((state.visit id).add (id, dist)) = graph.remaining state := by
  have isNew : id ∈ (graph.nodes.map HnswNode.id).toFinset \ state.visited := by
    simpa [unseen] using exists_iff_mem.mp present
  have fewer := Finset.card_erase_add_one isNew
  rw [← Finset.sdiff_insert] at fewer
  simp only [remaining, SearchState.add, SearchState.visit, List.length_append,
    List.length_singleton]
  omega

omit [OrderTop D] in
theorem remaining_trim (state : SearchState D) :
    graph.remaining (state.trim ef) = graph.remaining state := by
  simp [remaining, SearchState.trim]

theorem remaining_visitNeighbor_le (state : SearchState D) (neighborId : UInt32) :
    graph.remaining (graph.visitNeighbor distance query ef state neighborId) ≤
      graph.remaining state := by
  rcases visitNeighbor_cases distance query ef graph state neighborId with
    ⟨-, unchanged⟩ | ⟨-, -, marked⟩ | ⟨unseen, node, found, kept⟩
  · rw [unchanged]
  · rw [marked]
    refine Nat.add_le_add_left (Finset.card_le_card ?_) _
    exact Finset.sdiff_subset_sdiff subset_rfl (Finset.subset_insert _ _)
  · rw [kept, SearchState.keep_eq, remaining_trim,
      remaining_add_visit graph unseen (by simp [Exists, found])]

theorem remaining_visitNeighbors_le (state : SearchState D) (currentId : UInt32) :
    graph.remaining (graph.visitNeighbors distance query ef layer currentId state) ≤
      graph.remaining state := by
  refine List.foldlRecOn _ _
    (motive := fun other => graph.remaining other ≤ graph.remaining state) le_rfl ?_
  intro other bounded neighborId _
  exact (remaining_visitNeighbor_le distance query ef graph other neighborId).trans bounded

omit [OrderTop D] in
theorem remaining_startSearch_le (entryPoints : List UInt32) :
    graph.remaining (graph.startSearch distance query entryPoints ef) ≤ graph.nodes.length := by
  have few : graph.remaining (⟨∅, [], []⟩ : SearchState D) ≤ graph.nodes.length := by
    simpa [remaining] using List.toFinset_card_le (graph.nodes.map HnswNode.id)
  refine (remaining_trim ef graph _).trans_le ?_
  refine List.foldlRecOn _ _
    (motive := fun state => graph.remaining state ≤ graph.nodes.length) few ?_
  intro state bounded epId _
  rcases visitEntryPoint_cases distance query graph state epId with
    ⟨-, unchanged⟩ | ⟨unseen, node, found, entered⟩
  · rwa [unchanged]
  · rw [entered, remaining_add_visit graph unseen (by simp [Exists, found])]
    exact bounded

/-- One round of the main loop. -/
def Round (state state' : SearchState D) : Prop :=
  ∃ currentId currentDist candidates,
    state.candidates = (currentId, currentDist) :: candidates ∧
    ¬(state.worstResultDist < currentDist ∧ ef ≤ state.results.length) ∧
    state' = graph.visitNeighbors distance query ef layer currentId { state with candidates }

/-- The loop ends here: no candidate is left, or the closest is too far away. -/
def Stops (ef : ℕ) (state : SearchState D) : Prop :=
  ∀ current ∈ state.candidates.head?,
    state.worstResultDist < current.2 ∧ ef ≤ state.results.length

/-- The state in which the loop ends. -/
def lastState : ℕ → SearchState D → SearchState D
  | 0, state => state
  | fuel + 1, state =>
      match state.candidates with
      | [] => state
      | (currentId, currentDist) :: candidates =>
          if state.worstResultDist < currentDist ∧ ef ≤ state.results.length then state
          else
            lastState fuel
              (graph.visitNeighbors distance query ef layer currentId { state with candidates })

theorem searchLoop_eq (fuel : ℕ) (state : SearchState D) :
    graph.searchLoop distance query ef layer fuel state =
      (lastState distance query ef layer graph fuel state).results := by
  induction fuel generalizing state with
  | zero => rfl
  | succ fuel ih =>
      rw [searchLoop, lastState]
      rcases state.candidates with _ | ⟨⟨currentId, currentDist⟩, candidates⟩
      · rfl
      · dsimp only
        split_ifs
        · rfl
        · exact ih _

/-- With enough fuel the loop runs to its end. -/
theorem lastState_stops (fuel : ℕ) (state : SearchState D)
    (enough : graph.remaining state ≤ fuel) :
    ReflTransGen (graph.Round distance query ef layer) state
        (lastState distance query ef layer graph fuel state) ∧
      Stops ef (lastState distance query ef layer graph fuel state) := by
  induction fuel generalizing state with
  | zero =>
      have none : state.candidates = [] := by
        apply List.eq_nil_of_length_eq_zero
        simp only [remaining] at enough
        omega
      exact ⟨.refl, by simp [Stops, lastState, none]⟩
  | succ fuel ih =>
      rcases state with ⟨visited, _ | ⟨⟨currentId, currentDist⟩, candidates⟩, results⟩
      · exact ⟨.refl, by simp [Stops, lastState]⟩
      · by_cases full : SearchState.worstResultDist
            ⟨visited, (currentId, currentDist) :: candidates, results⟩ < currentDist ∧
            ef ≤ results.length
        · simp only [lastState, full, and_self, if_true]
          refine ⟨.refl, ?_⟩
          intro current isFirst
          obtain rfl : (currentId, currentDist) = current := Option.some.inj isFirst
          exact full
        · have fewer := remaining_visitNeighbors_le distance query ef layer graph
            ⟨visited, candidates, results⟩ currentId
          have bounded : graph.remaining ⟨visited, candidates, results⟩ ≤ fuel := by
            simp only [remaining, List.length_cons] at enough ⊢
            omega
          rcases ih _ (fewer.trans bounded) with ⟨rounds, stops⟩
          simp only [lastState, full, if_false]
          exact ⟨.head ⟨currentId, currentDist, candidates, rfl, full, rfl⟩ rounds, stops⟩

/-- The search of a layer ends. -/
theorem searchLayer_stops (entryPoints : List UInt32) :
    ∃ last, ReflTransGen (graph.Round distance query ef layer)
        (graph.startSearch distance query entryPoints ef) last ∧ Stops ef last ∧
      graph.searchLayer distance query entryPoints ef layer = last.results := by
  rcases lastState_stops distance query ef layer graph _ _
    (remaining_startSearch_le distance query ef graph entryPoints) with ⟨rounds, stops⟩
  exact ⟨_, rounds, stops, searchLoop_eq distance query ef layer graph _ _⟩

/-- What holds at the start and is kept by every round holds at the end, where no candidates are
left or `ef` results are found. -/
theorem searchLayer_ends (Keeps : SearchState D → Prop) {entryPoints : List UInt32}
    (starts : Keeps (graph.startSearch distance query entryPoints ef))
    (round : ∀ state currentId currentDist candidates,
      state.candidates = (currentId, currentDist) :: candidates → Keeps state →
      Keeps (graph.visitNeighbors distance query ef layer currentId { state with candidates })) :
    ∃ last, Keeps last ∧ (last.candidates = [] ∨ ef ≤ last.results.length) ∧
      graph.searchLayer distance query entryPoints ef layer = last.results := by
  rcases searchLayer_stops distance query ef layer graph entryPoints with
    ⟨last, rounds, stops, results⟩
  refine ⟨last, ?_, ?_, results⟩
  · clear stops results
    induction rounds with
    | refl => exact starts
    | tail _ step ih =>
        rcases step with ⟨currentId, currentDist, candidates, split, -, rfl⟩
        exact round _ _ _ _ split ih
  · rcases waiting : last.candidates with _ | ⟨current, candidates⟩
    · exact .inl rfl
    · exact .inr (stops current (by rw [waiting]; rfl)).2

end Loop

section Closed

/-- Nodes that exist and are listed by a node of the set belong to the set. -/
def Closed (layer : ℕ) (graph : HnswGraph V) (Member : UInt32 → Prop) : Prop :=
  ∀ first second, Member first → graph.Lists layer first second → graph.Exists second →
    Member second

variable (distance : V → V → D) (query : V) (graph : HnswGraph V)

/-- All that a search has found lies in a set, at its distance from the query. -/
structure Within (Member : UInt32 → Prop) (state : SearchState D) : Prop where
  member : ∀ item, item ∈ state.candidates ∨ item ∈ state.results →
    Member item.1 ∧ item.1 ∈ state.visited
  measured : ∀ item, item ∈ state.candidates ∨ item ∈ state.results →
    ∃ node, graph.getNode item.1 = some node ∧ item.2 = distance query node.vector
  nodup : (state.results.map Prod.fst).Nodup

/-- The results are sorted, and no more than the search may keep. -/
structure Ranked (ef : ℕ) (state : SearchState D) : Prop where
  sorted : state.results.Pairwise fun first second => first.2 ≤ second.2
  length_le : state.results.length ≤ ef

variable {distance query graph} {ef layer : ℕ} {Member : UInt32 → Prop} {state : SearchState D}

omit [LinearOrder D] [OrderTop D] in
theorem Within.visit (within : graph.Within distance query Member state) (id : UInt32) :
    graph.Within distance query Member (state.visit id) where
  member := fun item found =>
    (within.member item found).imp_right fun visited => Finset.mem_insert_of_mem visited
  measured := within.measured
  nodup := within.nodup

omit [LinearOrder D] [OrderTop D] in
theorem Within.add {id : UInt32} {node : HnswNode V}
    (within : graph.Within distance query Member state) (unseen : id ∉ state.visited)
    (found : graph.getNode id = some node) (isMember : Member id) :
    graph.Within distance query Member
      ((state.visit id).add (id, distance query node.vector)) where
  member := by
    intro item isFound
    rcases SearchState.mem_add isFound with isOld | rfl
    · exact (within.visit id).member item isOld
    · exact ⟨isMember, Finset.mem_insert_self _ _⟩
  measured := by
    intro item isFound
    rcases SearchState.mem_add isFound with isOld | rfl
    · exact within.measured item isOld
    · exact ⟨node, found, rfl⟩
  nodup := by
    have fresh : id ∉ state.results.map Prod.fst := by
      intro isResult
      rcases List.mem_map.mp isResult with ⟨item, isItem, rfl⟩
      exact unseen (within.member item (.inr isItem)).2
    rw [SearchState.add, List.map_append, List.map_singleton, ← List.concat_eq_append]
    exact List.Nodup.concat fresh within.nodup

omit [OrderTop D] in
theorem Within.trim (within : graph.Within distance query Member state) (ef : ℕ) :
    graph.Within distance query Member (state.trim ef) where
  member := fun item found => within.member item (SearchState.mem_trim found)
  measured := fun item found => within.measured item (SearchState.mem_trim found)
  nodup := (nodup_ids_sortByDistance.mpr within.nodup).sublist
    ((List.take_sublist ef _).map Prod.fst)

omit [OrderTop D] in
theorem ranked_trim (ef : ℕ) (state : SearchState D) : Ranked ef (state.trim ef) where
  sorted := (pairwise_sortByDistance _).sublist (List.take_sublist ef _)
  length_le := List.length_take_le ef _

theorem Within.visitNeighbor (within : graph.Within distance query Member state)
    {neighborId : UInt32} (isMember : graph.Exists neighborId → Member neighborId) :
    graph.Within distance query Member
      (graph.visitNeighbor distance query ef state neighborId) := by
  rcases visitNeighbor_cases distance query ef graph state neighborId with
    ⟨-, unchanged⟩ | ⟨-, -, marked⟩ | ⟨unseen, node, found, kept⟩
  · rwa [unchanged]
  · rw [marked]
    exact within.visit neighborId
  · rw [kept]
    exact (within.add unseen found (isMember (by simp [Exists, found]))).trim ef

theorem Ranked.visitNeighbor (ranked : Ranked ef state) (neighborId : UInt32) :
    Ranked ef (graph.visitNeighbor distance query ef state neighborId) := by
  rcases visitNeighbor_cases distance query ef graph state neighborId with
    ⟨-, unchanged⟩ | ⟨-, -, marked⟩ | ⟨-, node, -, kept⟩
  · rwa [unchanged]
  · rw [marked]
    exact ⟨ranked.sorted, ranked.length_le⟩
  · rw [kept, SearchState.keep_eq]
    exact ranked_trim ef _

omit [LinearOrder D] [OrderTop D] in
/-- A neighbour that the loop comes to is listed. -/
theorem lists_of_mem_neighbors {layer : ℕ} {currentId neighborId : UInt32}
    (listed : neighborId ∈ (graph.neighbors layer currentId).getD []) :
    graph.Lists layer currentId neighborId := by
  rcases found : graph.neighbors layer currentId with _ | list
  · simp [found] at listed
  · exact ⟨list, found, by simpa [found] using listed⟩

theorem Within.visitNeighbors (closed : graph.Closed layer Member)
    (within : graph.Within distance query Member state) {currentId : UInt32}
    (isMember : Member currentId) :
    graph.Within distance query Member
      (graph.visitNeighbors distance query ef layer currentId state) := by
  refine List.foldlRecOn _ _ (motive := graph.Within distance query Member) within ?_
  intro other inside neighborId listed
  exact inside.visitNeighbor (closed currentId neighborId isMember (lists_of_mem_neighbors listed))

theorem Ranked.round {currentId : UInt32} {candidates : List (UInt32 × D)}
    (ranked : Ranked ef state) :
    Ranked ef
      (graph.visitNeighbors distance query ef layer currentId { state with candidates }) := by
  have popped : Ranked ef { state with candidates } := ⟨ranked.sorted, ranked.length_le⟩
  refine List.foldlRecOn _ _ (motive := Ranked ef) popped ?_
  intro other kept neighborId _
  exact kept.visitNeighbor neighborId

omit [OrderTop D] in
theorem within_startSearch {entryPoints : List UInt32}
    (isMember : ∀ epId ∈ entryPoints, graph.Exists epId → Member epId) :
    graph.Within distance query Member (graph.startSearch distance query entryPoints ef) := by
  refine Within.trim ?_ ef
  refine List.foldlRecOn _ _ (motive := graph.Within distance query Member)
    ⟨by simp, by simp, by simp⟩ ?_
  intro state within epId isEntry
  rcases visitEntryPoint_cases distance query graph state epId with
    ⟨-, unchanged⟩ | ⟨unseen, node, found, entered⟩
  · rwa [unchanged]
  · rw [entered]
    exact within.add unseen found (isMember epId isEntry (by simp [Exists, found]))

theorem Within.round (closed : graph.Closed layer Member)
    (within : graph.Within distance query Member state) {currentId : UInt32} {currentDist : D}
    {candidates : List (UInt32 × D)}
    (split : state.candidates = (currentId, currentDist) :: candidates) :
    graph.Within distance query Member
      (graph.visitNeighbors distance query ef layer currentId { state with candidates }) := by
  have isOld (item : UInt32 × D) (found : item ∈ candidates ∨ item ∈ state.results) :
      item ∈ state.candidates ∨ item ∈ state.results := by
    rw [split]
    exact found.imp_left (List.mem_cons_of_mem _)
  apply Within.visitNeighbors closed
  · exact ⟨fun item found => within.member item (isOld item found),
      fun item found => within.measured item (isOld item found), within.nodup⟩
  · exact (within.member (currentId, currentDist) (.inl (split ▸ List.mem_cons_self))).1

/-- The search finds every node at most once, and none outside a closed set that holds its
entry points. -/
theorem searchLayer_within (distance : V → V → D) (query : V) (ef : ℕ)
    (entryPoints : List UInt32) (closed : graph.Closed layer Member)
    (isMember : ∀ epId ∈ entryPoints, graph.Exists epId → Member epId) :
    ((graph.searchLayer distance query entryPoints ef layer).map Prod.fst).Nodup ∧
      ∀ id ∈ (graph.searchLayer distance query entryPoints ef layer).map Prod.fst, Member id := by
  rcases searchLayer_ends distance query ef layer graph (graph.Within distance query Member)
    (within_startSearch isMember) (fun _ _ _ _ split within => within.round closed split) with
    ⟨last, within, -, results⟩
  rw [results]
  refine ⟨within.nodup, ?_⟩
  intro id found
  rcases List.mem_map.mp found with ⟨item, isResult, rfl⟩
  exact (within.member item (.inr isResult)).1

end Closed

section Nonempty

variable {distance : V → V → D} {query : V} {ef : ℕ} {graph : HnswGraph V}

theorem visitNeighbor_results_ne_nil {state : SearchState D} (positive : 0 < ef)
    (found : state.results ≠ []) (neighborId : UInt32) :
    (graph.visitNeighbor distance query ef state neighborId).results ≠ [] := by
  rcases visitNeighbor_cases distance query ef graph state neighborId with
    ⟨-, unchanged⟩ | ⟨-, -, marked⟩ | ⟨-, node, -, kept⟩
  · rwa [unchanged]
  · rwa [marked]
  · rw [kept]
    apply List.ne_nil_of_length_pos
    simp only [SearchState.keep, List.length_take, length_sortByDistance, List.length_append,
      List.length_singleton]
    omega

/-- A search from a node finds something. -/
theorem searchLayer_ne_nil (distance : V → V → D) (query : V) (layer : ℕ) {epId : UInt32}
    (positive : 0 < ef) (present : graph.Exists epId) :
    graph.searchLayer distance query [epId] ef layer ≠ [] := by
  have starts : (graph.startSearch distance query [epId] ef).results ≠ [] := by
    rcases Option.isSome_iff_exists.mp present with ⟨node, found⟩
    rcases Nat.exists_eq_succ_of_ne_zero positive.ne' with ⟨count, rfl⟩
    simp [startSearch, visitEntryPoint, found, sortByDistance]
  have round : ∀ (state : SearchState D) currentId currentDist candidates,
      state.candidates = (currentId, currentDist) :: candidates → state.results ≠ [] →
      (graph.visitNeighbors distance query ef layer currentId
        { state with candidates }).results ≠ [] := by
    intro state currentId currentDist candidates _ found
    refine List.foldlRecOn _ _
      (motive := fun other : SearchState D => other.results ≠ []) found ?_
    intro other foundOther neighborId _
    exact visitNeighbor_results_ne_nil positive foundOther neighborId
  rcases searchLayer_ends distance query ef layer graph (fun state => state.results ≠ []) starts
    round with ⟨last, found, -, results⟩
  rwa [results]

end Nonempty

section Exhaustive

variable {distance : V → V → D} {query : V} {ef layer : ℕ} {graph : HnswGraph V}
  {members : Finset UInt32} {Current : UInt32 → Prop} {state : SearchState D}

variable (distance query) in
/-- The search keeps all that it visits, and has visited the neighbours of all that is
neither a candidate nor being visited. -/
structure Exhausts (layer : ℕ) (graph : HnswGraph V) (members : Finset UInt32)
    (Current : UInt32 → Prop) (state : SearchState D) : Prop where
  within : graph.Within distance query (· ∈ members) state
  kept : ∀ id ∈ state.visited, graph.Exists id → id ∈ state.results.map Prod.fst
  expanded : ∀ id ∈ state.visited, id ∈ state.candidates.map Prod.fst ∨ Current id ∨
    ∀ other, graph.Lists layer id other → other ∈ state.visited

omit [LinearOrder D] [OrderTop D] in
theorem Within.results_subset (within : graph.Within distance query (· ∈ members) state) :
    state.results.map Prod.fst ⊆ members.toList := by
  intro id found
  rcases List.mem_map.mp found with ⟨item, isResult, rfl⟩
  exact Finset.mem_toList.mpr (within.member item (.inr isResult)).1

omit [LinearOrder D] [OrderTop D] in
theorem Within.results_length_le (within : graph.Within distance query (· ∈ members) state) :
    state.results.length ≤ members.card := by
  have fits := (List.subperm_of_subset within.nodup within.results_subset).length_le
  simpa using fits

omit [LinearOrder D] [OrderTop D] in
theorem Exhausts.add {id : UInt32} {node : HnswNode V}
    (exhausts : graph.Exhausts distance query layer members Current state)
    (unseen : id ∉ state.visited) (found : graph.getNode id = some node)
    (isMember : id ∈ members) :
    graph.Exhausts distance query layer members Current
      ((state.visit id).add (id, distance query node.vector)) where
  within := exhausts.within.add unseen found isMember
  kept := by
    intro other visited present
    rw [SearchState.add, List.map_append, List.mem_append]
    rcases SearchState.mem_visited_visit.mp visited with rfl | visited
    · exact .inr (by simp)
    · exact .inl (exhausts.kept other visited present)
  expanded := by
    intro other visited
    rw [SearchState.add, List.map_append, List.mem_append]
    rcases SearchState.mem_visited_visit.mp visited with rfl | visited
    · exact .inl (.inr (by simp))
    · rcases exhausts.expanded other visited with waits | current | all
      · exact .inl (.inl waits)
      · exact .inr (.inl current)
      · exact .inr (.inr fun next lists => Finset.mem_insert_of_mem (all next lists))

omit [OrderTop D] in
/-- With room for all members, nothing is cut off. -/
theorem Exhausts.trim (exhausts : graph.Exhausts distance query layer members Current state)
    (roomy : members.card ≤ ef) :
    graph.Exhausts distance query layer members Current (state.trim ef) := by
  have whole : (state.trim ef).results = sortByDistance state.results := by
    apply List.take_of_length_le
    rw [length_sortByDistance]
    exact exhausts.within.results_length_le.trans roomy
  refine ⟨exhausts.within.trim ef, ?_, ?_⟩
  · intro id visited present
    rw [whole, ((sortByDistance_perm _).map Prod.fst).mem_iff]
    exact exhausts.kept id visited present
  · intro id visited
    rw [SearchState.trim, ((sortByDistance_perm _).map Prod.fst).mem_iff]
    exact exhausts.expanded id visited

omit [LinearOrder D] [OrderTop D] in
/-- There is room for one more result as long as a member is not visited. -/
theorem Within.results_length_lt {id : UInt32}
    (within : graph.Within distance query (· ∈ members) state) (unseen : id ∉ state.visited)
    (isMember : id ∈ members) : state.results.length < members.card := by
  have fresh : id ∉ state.results.map Prod.fst := by
    intro found
    rcases List.mem_map.mp found with ⟨item, isResult, rfl⟩
    exact unseen (within.member item (.inr isResult)).2
  have subset : id :: state.results.map Prod.fst ⊆ members.toList :=
    List.cons_subset.mpr ⟨Finset.mem_toList.mpr isMember, within.results_subset⟩
  have fits :=
    (List.subperm_of_subset (List.nodup_cons.mpr ⟨fresh, within.nodup⟩) subset).length_le
  simpa [Nat.add_one_le_iff] using fits

theorem Exhausts.visitNeighbor (roomy : members.card ≤ ef)
    (exhausts : graph.Exhausts distance query layer members Current state) {neighborId : UInt32}
    (isMember : graph.Exists neighborId → neighborId ∈ members) :
    graph.Exhausts distance query layer members Current
      (graph.visitNeighbor distance query ef state neighborId) ∧
    neighborId ∈ (graph.visitNeighbor distance query ef state neighborId).visited ∧
    state.visited ⊆ (graph.visitNeighbor distance query ef state neighborId).visited := by
  rcases visitNeighbor_cases distance query ef graph state neighborId with
    ⟨seen, unchanged⟩ | ⟨unseen, full, marked⟩ | ⟨unseen, node, found, kept⟩
  · rw [unchanged]
    exact ⟨exhausts, seen, subset_rfl⟩
  · -- results are never short of room, so only a node that does not exist is left out
    have missing : ¬graph.Exists neighborId := by
      intro present
      have short := exhausts.within.results_length_lt unseen (isMember present)
      have := full present
      omega
    rw [marked]
    refine ⟨⟨exhausts.within.visit neighborId, ?_, ?_⟩, Finset.mem_insert_self _ _,
      Finset.subset_insert _ _⟩
    · intro id visited present
      rcases SearchState.mem_visited_visit.mp visited with rfl | visited
      · exact absurd present missing
      · exact exhausts.kept id visited present
    · intro id visited
      rcases SearchState.mem_visited_visit.mp visited with rfl | visited
      · exact .inr (.inr fun other lists => absurd lists.exists missing)
      · exact (exhausts.expanded id visited).imp_right (Or.imp_right fun all other lists =>
          Finset.mem_insert_of_mem (all other lists))
  · rw [kept]
    have added := exhausts.add unseen found (isMember (by simp [Exists, found]))
    exact ⟨added.trim roomy, Finset.mem_insert_self _ _, Finset.subset_insert _ _⟩

theorem Exhausts.foldl_visitNeighbor (roomy : members.card ≤ ef) (list : List UInt32)
    (isMember : ∀ id ∈ list, graph.Exists id → id ∈ members)
    (exhausts : graph.Exhausts distance query layer members Current state) :
    graph.Exhausts distance query layer members Current
      (list.foldl (graph.visitNeighbor distance query ef) state) ∧
    (∀ id ∈ list, id ∈ (list.foldl (graph.visitNeighbor distance query ef) state).visited) ∧
    state.visited ⊆ (list.foldl (graph.visitNeighbor distance query ef) state).visited := by
  induction list generalizing state with
  | nil => exact ⟨exhausts, by simp, subset_rfl⟩
  | cons neighborId rest ih =>
      rcases exhausts.visitNeighbor roomy (isMember neighborId (by simp)) with
        ⟨next, visited, grows⟩
      rcases ih (fun id isRest => isMember id (List.mem_cons_of_mem _ isRest)) next with
        ⟨last, visitedRest, growsRest⟩
      refine ⟨last, ?_, grows.trans growsRest⟩
      intro id listed
      rcases List.mem_cons.mp listed with rfl | listed
      · exact growsRest visited
      · exact visitedRest id listed

theorem Exhausts.round {currentId : UInt32} {currentDist : D} {candidates : List (UInt32 × D)}
    (roomy : members.card ≤ ef) (closed : graph.Closed layer (· ∈ members))
    (split : state.candidates = (currentId, currentDist) :: candidates)
    (exhausts : graph.Exhausts distance query layer members (fun _ => False) state) :
    graph.Exhausts distance query layer members (fun _ => False)
      (graph.visitNeighbors distance query ef layer currentId { state with candidates }) ∧
    state.visited ⊆
      (graph.visitNeighbors distance query ef layer currentId
        { state with candidates }).visited := by
  have isCurrent : currentId ∈ members :=
    (exhausts.within.member (currentId, currentDist) (.inl (split ▸ List.mem_cons_self))).1
  have popped : graph.Exhausts distance query layer members (· = currentId)
      { state with candidates } := by
    have isOld (item : UInt32 × D) (found : item ∈ candidates ∨ item ∈ state.results) :
        item ∈ state.candidates ∨ item ∈ state.results := by
      rw [split]
      exact found.imp_left (List.mem_cons_of_mem _)
    refine ⟨⟨fun item found => exhausts.within.member item (isOld item found),
      fun item found => exhausts.within.measured item (isOld item found),
      exhausts.within.nodup⟩, exhausts.kept, ?_⟩
    intro id visited
    rcases exhausts.expanded id visited with waits | current | all
    · rw [split, List.map_cons, List.mem_cons] at waits
      exact waits.elim (fun isCurrent => .inr (.inl isCurrent)) .inl
    · exact current.elim
    · exact .inr (.inr all)
  rcases popped.foldl_visitNeighbor roomy ((graph.neighbors layer currentId).getD [])
    (fun id listed => closed currentId id isCurrent (lists_of_mem_neighbors listed)) with
    ⟨last, visited, grows⟩
  refine ⟨⟨last.within, last.kept, ?_⟩, grows⟩
  intro id isVisited
  rcases last.expanded id isVisited with waits | rfl | all
  · exact .inl waits
  · refine .inr (.inr ?_)
    rintro other ⟨list, found, listed⟩
    exact visited other (by simpa [found] using listed)
  · exact .inr (.inr all)

omit [OrderTop D] in
theorem exhausts_startSearch {entryPoints : List UInt32} (roomy : members.card ≤ ef)
    (isMember : ∀ epId ∈ entryPoints, graph.Exists epId → epId ∈ members) :
    graph.Exhausts distance query layer members (fun _ => False)
      (graph.startSearch distance query entryPoints ef) ∧
    ∀ epId ∈ entryPoints, graph.Exists epId →
      epId ∈ (graph.startSearch distance query entryPoints ef).visited := by
  suffices ∀ state : SearchState D,
      graph.Exhausts distance query layer members (fun _ => False) state →
      graph.Exhausts distance query layer members (fun _ => False)
        (entryPoints.foldl (graph.visitEntryPoint distance query) state) ∧
      state.visited ⊆ (entryPoints.foldl (graph.visitEntryPoint distance query) state).visited ∧
      ∀ epId ∈ entryPoints, graph.Exists epId →
        epId ∈ (entryPoints.foldl (graph.visitEntryPoint distance query) state).visited by
    rcases this ⟨∅, [], []⟩ ⟨⟨by simp, by simp, by simp⟩, by simp, by simp⟩ with
      ⟨exhausts, -, entered⟩
    exact ⟨exhausts.trim roomy, entered⟩
  induction entryPoints with
  | nil => exact fun state exhausts => ⟨exhausts, subset_rfl, by simp⟩
  | cons epId rest ih =>
      intro state exhausts
      have restMember : ∀ other ∈ rest, graph.Exists other → other ∈ members :=
        fun other isRest => isMember other (List.mem_cons_of_mem _ isRest)
      have first : graph.Exhausts distance query layer members (fun _ => False)
            (graph.visitEntryPoint distance query state epId) ∧
          state.visited ⊆ (graph.visitEntryPoint distance query state epId).visited ∧
          (graph.Exists epId → epId ∈
            (graph.visitEntryPoint distance query state epId).visited) := by
        rcases visitEntryPoint_cases distance query graph state epId with
          ⟨seen, unchanged⟩ | ⟨unseen, node, found, entered⟩
        · rw [unchanged]
          exact ⟨exhausts, subset_rfl, seen⟩
        · rw [entered]
          exact ⟨exhausts.add unseen found (isMember epId (by simp) (by simp [Exists, found])),
            Finset.subset_insert _ _, fun _ => Finset.mem_insert_self _ _⟩
      rcases ih restMember _ first.1 with ⟨last, grows, entered⟩
      refine ⟨last, first.2.1.trans grows, ?_⟩
      intro other isEntry present
      rcases List.mem_cons.mp isEntry with rfl | isRest
      · exact grows (first.2.2 present)
      · exact entered other isRest present

/-- With room for all members of a closed set, the search finds all that can be reached from its
entry points. -/
theorem mem_searchLayer_of_reaches (members : Finset UInt32) {entryPoints : List UInt32}
    {epId id : UInt32} (roomy : members.card ≤ ef) (closed : graph.Closed layer (· ∈ members))
    (isMember : ∀ epId ∈ entryPoints, graph.Exists epId → epId ∈ members)
    (isEntry : epId ∈ entryPoints) (reaches : ReflTransGen (graph.Lists layer) epId id)
    (present : graph.Exists id) :
    id ∈ (graph.searchLayer distance query entryPoints ef layer).map Prod.fst := by
  have entryPresent : graph.Exists epId := by
    rcases reaches.cases_head with rfl | ⟨other, lists, -⟩
    · exact present
    · exact lists.exists
  rcases @exhausts_startSearch V D _ distance query ef layer graph members entryPoints roomy
    isMember with ⟨starts, entered⟩
  rcases searchLayer_ends distance query ef layer graph
    (fun state => graph.Exhausts distance query layer members (fun _ => False) state ∧
      epId ∈ state.visited)
    ⟨starts, entered epId isEntry entryPresent⟩
    (fun _ _ _ _ split kept => (kept.1.round roomy closed split).imp_right fun grows =>
      grows kept.2) with ⟨last, ⟨exhausts, visitedEntry⟩, stops, results⟩
  rw [results]
  have isReached : id ∈ members := by
    induction reaches with
    | refl => exact isMember _ isEntry present
    | tail _ lists ih => exact closed _ _ (ih lists.exists) lists present
  rcases stops with empty | full
  · have visited : id ∈ last.visited := by
      clear isReached
      induction reaches with
      | refl => exact visitedEntry
      | tail _ lists ih =>
          rcases exhausts.expanded _ (ih lists.exists) with waits | current | all
          · simp [empty] at waits
          · exact current.elim
          · exact all _ lists
    exact exhausts.kept id visited present
  · -- as many results as members, and all different
    have perm : (last.results.map Prod.fst).Perm members.toList :=
      (List.subperm_of_subset exhausts.within.nodup
        exhausts.within.results_subset).perm_of_length_le (by simpa using roomy.trans full)
    exact perm.mem_iff.mpr (Finset.mem_toList.mpr isReached)

end Exhaustive

section Specification

/-- A node of the graph to which the lists of a layer lead from an entry point that exists. -/
def Reached (layer : ℕ) (entryPoints : List UInt32) (graph : HnswGraph V) (id : UInt32) : Prop :=
  graph.Exists id ∧ ∃ epId ∈ entryPoints, graph.Exists epId ∧
    ReflTransGen (graph.Lists layer) epId id

variable {layer : ℕ} {entryPoints : List UInt32} {graph : HnswGraph V}

theorem closed_reached : graph.Closed layer (graph.Reached layer entryPoints) := by
  rintro first second ⟨-, epId, isEntry, present, path⟩ lists isSecond
  exact ⟨isSecond, epId, isEntry, present, path.tail lists⟩

theorem finite_reached (layer : ℕ) (entryPoints : List UInt32) (graph : HnswGraph V) :
    Set.Finite {id | graph.Reached layer entryPoints id} :=
  (graph.nodes.map HnswNode.id).toFinset.finite_toSet.subset fun _ reached => by
    simpa using exists_iff_mem.mp reached.1

/-- The search of a layer ends, whatever the lists are. It finds at most `ef` nodes, each once,
sorted and at their distances, that are reached from the entry points, and all of these if they
are not more than `ef`. -/
theorem searchLayer_spec (distance : V → V → D) (query : V) (ef layer : ℕ)
    (entryPoints : List UInt32) (graph : HnswGraph V) :
    (∃ last, ReflTransGen (graph.Round distance query ef layer)
        (graph.startSearch distance query entryPoints ef) last ∧ Stops ef last ∧
      graph.searchLayer distance query entryPoints ef layer = last.results) ∧
    (graph.searchLayer distance query entryPoints ef layer).length ≤ ef ∧
    ((graph.searchLayer distance query entryPoints ef layer).map Prod.fst).Nodup ∧
    (graph.searchLayer distance query entryPoints ef layer).Pairwise
      (fun first second => first.2 ≤ second.2) ∧
    (∀ item ∈ graph.searchLayer distance query entryPoints ef layer,
      graph.Reached layer entryPoints item.1 ∧
      ∃ node, graph.getNode item.1 = some node ∧ item.2 = distance query node.vector) ∧
    ({id | graph.Reached layer entryPoints id}.ncard ≤ ef →
      ∀ id, graph.Reached layer entryPoints id →
        id ∈ (graph.searchLayer distance query entryPoints ef layer).map Prod.fst) := by
  have isEntry : ∀ epId ∈ entryPoints, graph.Exists epId →
      graph.Reached layer entryPoints epId :=
    fun epId isEntry present => ⟨present, epId, isEntry, present, .refl⟩
  refine ⟨searchLayer_stops distance query ef layer graph entryPoints, ?_⟩
  rcases searchLayer_ends distance query ef layer graph
    (fun state => graph.Within distance query (graph.Reached layer entryPoints) state ∧
      Ranked ef state)
    ⟨within_startSearch isEntry, ranked_trim ef _⟩
    (fun _ _ _ _ split kept => ⟨kept.1.round closed_reached split, kept.2.round⟩) with
    ⟨last, ⟨within, ranked⟩, -, results⟩
  rw [results]
  refine ⟨ranked.length_le, within.nodup, ranked.sorted, ?_, ?_⟩
  · intro item isResult
    exact ⟨(within.member item (.inr isResult)).1, within.measured item (.inr isResult)⟩
  · rintro roomy id ⟨present, epId, listed, entryPresent, path⟩
    let members := (finite_reached layer entryPoints graph).toFinset
    have isMember : ∀ other, other ∈ members ↔ graph.Reached layer entryPoints other := by
      simp [members]
    rw [← results]
    apply mem_searchLayer_of_reaches members
    · rwa [← Set.ncard_eq_toFinset_card _ (finite_reached layer entryPoints graph)]
    · simpa only [isMember] using closed_reached
    · simpa only [isMember] using isEntry
    · exact listed
    · exact path
    · exact present

end Specification

end VenomDb.HnswGraph
