import VenomDb.Hnsw.SearchLayer
import VenomDb.Lib.Ranking

/-!
# Searches with beams of different widths

A search keeps the `ef` closest of the nodes it has evaluated. Two searches of one layer that
differ in `ef` only take out the same candidates until the narrow one stops: what only the wide
one keeps as a candidate is further away than all results of the narrow one. So the wide
search evaluates every node that the narrow one does.
-/

namespace VenomDb.HnswGraph

open Relation Ranking

variable {V D : Type} [LinearOrder D] [OrderTop D]

/-- The nodes of the graph have different distances to the query. -/
def DistinctDistances (distance : V → V → D) (query : V) (graph : HnswGraph V) : Prop :=
  graph.nodes.Pairwise fun first second =>
    distance query first.vector ≠ distance query second.vector

/-- The search of a layer computes the distance of the node. -/
def Evaluated (distance : V → V → D) (query : V) (entryPoints : List UInt32) (ef layer : ℕ)
    (graph : HnswGraph V) (id : UInt32) : Prop :=
  id ∈ (lastState distance query ef layer graph graph.nodes.length
    (graph.startSearch distance query entryPoints ef)).visited ∧ graph.Exists id

variable {distance : V → V → D} {query : V} {graph : HnswGraph V} {low high ef layer : ℕ}
  {ranking : List (UInt32 × D)} {state state' : SearchState D}

section Ranking

omit [LinearOrder D] [OrderTop D] in
/-- The nodes that were visited and exist, with their distances. -/
def Evaluates (distance : V → V → D) (query : V) (graph : HnswGraph V) (visited : Finset UInt32)
    (ranking : List (UInt32 × D)) : Prop :=
  ∀ item, item ∈ ranking ↔ item.1 ∈ visited ∧
    ∃ node, graph.getNode item.1 = some node ∧ item.2 = distance query node.vector

omit [OrderTop D] in
theorem sortByDistance_eq {items sorted : List (UInt32 × D)} (ranked : Increasing Prod.snd sorted)
    (same : items.Perm sorted) : sortByDistance items = sorted :=
  ranked.eq_of_perm (pairwise_sortByDistance items) ((sortByDistance_perm items).trans same)

omit [LinearOrder D] [OrderTop D] in
theorem getNode_mem {id : UInt32} {node : HnswNode V} (found : graph.getNode id = some node) :
    node ∈ graph.nodes ∧ node.id = id :=
  ⟨List.mem_of_find?_eq_some found, by simpa using List.find?_some found⟩

omit [LinearOrder D] [OrderTop D] in
/-- Different nodes have different distances. -/
theorem DistinctDistances.ne (distinct : graph.DistinctDistances distance query)
    {id other : UInt32} {node node' : HnswNode V} (found : graph.getNode id = some node)
    (found' : graph.getNode other = some node') (ne : id ≠ other) :
    distance query node.vector ≠ distance query node'.vector := by
  have symmetric : Std.Symm fun first second : HnswNode V =>
      distance query first.vector ≠ distance query second.vector :=
    ⟨fun _ _ differ => differ.symm⟩
  apply List.Pairwise.forall distinct (getNode_mem found).1 (getNode_mem found').1
  rintro rfl
  exact ne ((getNode_mem found).2.symm.trans (getNode_mem found').2)

omit [OrderTop D] in
/-- A node that is visited for the first time has a place between those evaluated before. -/
theorem Evaluates.exists_between (distinct : graph.DistinctDistances distance query)
    {visited : Finset UInt32} (evaluates : graph.Evaluates distance query visited ranking)
    (ranked : Increasing Prod.snd ranking) {id : UInt32} {node : HnswNode V} (unseen : id ∉ visited)
    (found : graph.getNode id = some node) :
    ∃ front back, ranking = front ++ back ∧
      Between Prod.snd front (id, distance query node.vector) back := by
  apply Ranking.exists_between ranked
  rintro ⟨other, dist⟩ inside same
  rcases (evaluates _).mp inside with ⟨seen, node', found', rfl⟩
  have ne : other ≠ id := by
    rintro rfl
    exact unseen seen
  exact distinct.ne found' found ne same

omit [LinearOrder D] [OrderTop D] in
theorem Evaluates.insert {visited : Finset UInt32} {front back : List (UInt32 × D)}
    (evaluates : graph.Evaluates distance query visited (front ++ back)) {id : UInt32}
    {node : HnswNode V} (found : graph.getNode id = some node) :
    graph.Evaluates distance query (Insert.insert id visited)
      (front ++ (id, distance query node.vector) :: back) := by
  intro item
  have old := evaluates item
  rw [List.mem_append] at old
  rw [List.mem_append, List.mem_cons, Finset.mem_insert, or_left_comm, old]
  constructor
  · rintro (rfl | ⟨seen, present⟩)
    · exact ⟨.inl rfl, node, found, rfl⟩
    · exact ⟨.inr seen, present⟩
  · rintro ⟨isNew | seen, node', found', dist⟩
    · left
      rw [isNew, found] at found'
      cases found'
      exact Prod.ext isNew dist
    · exact .inr ⟨seen, node', found', dist⟩

omit [LinearOrder D] [OrderTop D] in
/-- Visiting an id without a node evaluates nothing. -/
theorem Evaluates.insert_missing {visited : Finset UInt32}
    (evaluates : graph.Evaluates distance query visited ranking) {id : UInt32}
    (missing : graph.getNode id = none) :
    graph.Evaluates distance query (Insert.insert id visited) ranking := by
  intro item
  rw [evaluates item, Finset.mem_insert]
  constructor
  · rintro ⟨seen, present⟩
    exact ⟨.inr seen, present⟩
  · rintro ⟨isNew | seen, node, found, dist⟩
    · rw [isNew, missing] at found
      simp at found
    · exact ⟨seen, node, found, dist⟩

end Ranking

section Keeping

variable {front back : List (UInt32 × D)} {id : UInt32} {dist : D}

/-- A node is kept exactly if fewer than `ef` nodes are closer. -/
theorem keeps_iff (positive : 1 ≤ ef) (between : Between Prod.snd front (id, dist) back)
    (results : state.results = (front ++ back).take ef) :
    (state.results.length < ef ∨ dist < state.worstResultDist) ↔ front.length < ef := by
  rw [SearchState.worstResultDist, results]
  constructor
  · intro keeps
    by_contra few
    have inFront : (front ++ back).take ef = front.take ef :=
      List.take_append_of_le_length (by omega)
    rcases keeps with short | closer
    · simp only [List.length_take, List.length_append] at short
      omega
    · have nonempty : front.take ef ≠ [] := by
        simp only [ne_eq, List.take_eq_nil_iff]
        rintro (none | rfl)
        · omega
        · simp only [List.length_nil] at few
          omega
      rw [inFront, List.getLast?_eq_some_getLast nonempty] at closer
      have last := List.mem_of_mem_take (List.getLast_mem nonempty)
      exact absurd (between.before _ last) (not_lt.mpr closer.le)
  · intro few
    by_cases short : ((front ++ back).take ef).length < ef
    · exact .inl short
    · right
      have behind : back.take (ef - front.length) ≠ [] := by
        simp only [List.length_take, List.length_append] at short
        simp only [ne_eq, List.take_eq_nil_iff]
        rintro (none | rfl)
        · omega
        · simp only [List.length_nil] at short
          omega
      rw [List.take_append, List.getLast?_append_of_ne_nil _ behind,
        List.getLast?_eq_some_getLast behind]
      exact between.behind _ (List.mem_of_mem_take (List.getLast_mem behind))

omit [OrderTop D] in
/-- The closest of the results and a further node are the closest of all nodes. -/
theorem take_sortByDistance (ranked : Increasing Prod.snd (front ++ back))
    (between : Between Prod.snd front (id, dist) back) :
    (sortByDistance ((front ++ back).take ef ++ [(id, dist)])).take ef =
      (front ++ (id, dist) :: back).take ef := by
  have shorter : Between Prod.snd (front.take ef) (id, dist) (back.take (ef - front.length)) :=
    ⟨fun item inside => between.before item (List.mem_of_mem_take inside),
      fun item inside => between.behind item (List.mem_of_mem_take inside)⟩
  have sublist : (front.take ef ++ back.take (ef - front.length)).Sublist (front ++ back) :=
    List.Sublist.append (List.take_sublist _ _) (List.take_sublist _ _)
  have sorted := shorter.ranked (List.Pairwise.sublist sublist ranked)
  rw [sortByDistance_eq sorted, take_middle]
  rw [List.take_append, List.append_assoc]
  exact List.Perm.append_left _ (List.perm_append_singleton _ _)

end Keeping

section Alike

variable (distance query graph) in
/-- A search with beam `low` and one with beam `high` that have taken out the same candidates.
`ranking` are the nodes evaluated, in the order of their distances. -/
structure Alike (low high : ℕ) (ranking : List (UInt32 × D)) (state state' : SearchState D) :
    Prop where
  visited : state'.visited = state.visited
  ranked : Increasing Prod.snd ranking
  evaluates : graph.Evaluates distance query state.visited ranking
  results : state.results = ranking.take low
  results' : state'.results = ranking.take high
  sorted : state.candidates.Pairwise fun first second => first.2 ≤ second.2
  sorted' : state'.candidates.Pairwise fun first second => first.2 ≤ second.2
  candidates : ∀ item ∈ state'.candidates, item ∈ ranking
  extras : ∃ extras, state'.candidates.Perm (state.candidates ++ extras) ∧
    ∀ item ∈ extras, item ∈ ranking.drop low

theorem visitNeighbor_new {id : UInt32} {node : HnswNode V} (unseen : id ∉ state.visited)
    (found : graph.getNode id = some node) :
    graph.visitNeighbor distance query ef state id =
      if state.results.length < ef ∨ distance query node.vector < state.worstResultDist then
        (state.visit id).keep ef (id, distance query node.vector)
      else state.visit id := by
  rw [visitNeighbor, if_neg unseen]
  simp only [found]
  rfl

/-- What a search with beam `ef` makes of a node it visits for the first time. -/
theorem visitNeighbor_ranked (positive : 1 ≤ ef) {front back : List (UInt32 × D)}
    (ranked : Increasing Prod.snd (front ++ back)) {id : UInt32} {node : HnswNode V}
    (between : Between Prod.snd front (id, distance query node.vector) back)
    (results : state.results = (front ++ back).take ef) (unseen : id ∉ state.visited)
    (found : graph.getNode id = some node) :
    (graph.visitNeighbor distance query ef state id).visited = Insert.insert id state.visited ∧
      (graph.visitNeighbor distance query ef state id).results =
        (front ++ (id, distance query node.vector) :: back).take ef ∧
      (graph.visitNeighbor distance query ef state id).candidates =
        if front.length < ef then
          sortByDistance (state.candidates ++ [(id, distance query node.vector)])
        else state.candidates := by
  rw [visitNeighbor_new unseen found]
  have keeps := keeps_iff positive between results
  by_cases few : front.length < ef
  · rw [if_pos (keeps.mpr few), if_pos few]
    refine ⟨rfl, ?_, rfl⟩
    rw [← take_sortByDistance ranked between, ← results]
    rfl
  · rw [if_neg (fun kept => few (keeps.mp kept)), if_neg few]
    refine ⟨rfl, ?_, rfl⟩
    rw [SearchState.visit, results, List.take_append_of_le_length (by omega),
      List.take_append_of_le_length (by omega)]

/-- Both searches visit one more neighbour. -/
theorem Alike.visitNeighbor (distinct : graph.DistinctDistances distance query)
    (positive : 1 ≤ low) (order : low ≤ high)
    (alike : graph.Alike distance query low high ranking state state') (id : UInt32) :
    ∃ ranking', graph.Alike distance query low high ranking'
      (graph.visitNeighbor distance query low state id)
      (graph.visitNeighbor distance query high state' id) := by
  by_cases seen : id ∈ state.visited
  · have seen' : id ∈ state'.visited := by rwa [alike.visited]
    refine ⟨ranking, ?_⟩
    rwa [HnswGraph.visitNeighbor, if_pos seen, HnswGraph.visitNeighbor, if_pos seen']
  · have unseen' : id ∉ state'.visited := by rwa [alike.visited]
    rcases found : graph.getNode id with _ | node
    · refine ⟨ranking, ?_⟩
      have marked : graph.visitNeighbor distance query low state id = state.visit id := by
        rw [HnswGraph.visitNeighbor, if_neg seen]
        simp only [found]
      have marked' : graph.visitNeighbor distance query high state' id = state'.visit id := by
        rw [HnswGraph.visitNeighbor, if_neg unseen']
        simp only [found]
      rw [marked, marked']
      refine ⟨?_, alike.ranked, alike.evaluates.insert_missing found, alike.results, alike.results',
        alike.sorted, alike.sorted', alike.candidates, alike.extras⟩
      simp only [SearchState.visit, alike.visited]
    · rcases alike.evaluates.exists_between distinct alike.ranked seen found with
        ⟨front, back, rfl, between⟩
      rcases visitNeighbor_ranked positive alike.ranked between alike.results seen found with
        ⟨visited, results, candidates⟩
      rcases visitNeighbor_ranked (positive.trans order) alike.ranked between alike.results' unseen'
        found with ⟨visited', results', candidates'⟩
      refine ⟨front ++ (id, distance query node.vector) :: back, ?_, between.ranked alike.ranked,
        ?_,
        results, results', ?_, ?_, ?_, ?_⟩
      · rw [visited, visited', alike.visited]
      · rw [visited]
        exact alike.evaluates.insert found
      · rw [candidates]
        split_ifs
        · exact pairwise_sortByDistance _
        · exact alike.sorted
      · rw [candidates']
        split_ifs
        · exact pairwise_sortByDistance _
        · exact alike.sorted'
      · have old (item : UInt32 × D) (inside : item ∈ state'.candidates) :
            item ∈ front ++ (id, distance query node.vector) :: back := by
          have known := alike.candidates item inside
          simp only [List.mem_append, List.mem_cons] at known ⊢
          tauto
        intro item inside
        rw [candidates'] at inside
        split_ifs at inside
        · rw [mem_sortByDistance, List.mem_append, List.mem_singleton] at inside
          rcases inside with inside | rfl
          · exact old item inside
          · simp
        · exact old item inside
      · rcases alike.extras with ⟨extras, same, behind⟩
        have still (item : UInt32 × D) (inside : item ∈ extras) :
            item ∈ (front ++ (id, distance query node.vector) :: back).drop low :=
          mem_drop_middle front back _ (behind item inside)
        rw [candidates, candidates']
        by_cases few : front.length < low
        · -- both keep the node
          refine ⟨extras, ?_, still⟩
          rw [if_pos few, if_pos (few.trans_le order)]
          refine (sortByDistance_perm _).trans ?_
          refine ((same.append_right _).trans ?_).trans
            ((sortByDistance_perm _).symm.append_right extras)
          rw [List.append_assoc, List.append_assoc]
          exact List.Perm.append_left _ List.perm_append_comm
        · rw [if_neg few]
          by_cases few' : front.length < high
          · -- only the wide search keeps it
            refine ⟨extras ++ [(id, distance query node.vector)], ?_, ?_⟩
            · rw [if_pos few', ← List.append_assoc]
              exact (sortByDistance_perm _).trans (same.append_right _)
            · intro item inside
              rcases List.mem_append.mp inside with inside | isNew
              · exact still item inside
              · rw [List.mem_singleton.mp isNew, List.drop_append]
                apply List.mem_append_right
                have none : low - front.length = 0 := by omega
                simp [none]
          · refine ⟨extras, ?_, still⟩
            rwa [if_neg few']

theorem Alike.visitNeighbors (distinct : graph.DistinctDistances distance query)
    (positive : 1 ≤ low) (order : low ≤ high)
    (alike : graph.Alike distance query low high ranking state state') (currentId : UInt32) :
    ∃ ranking', graph.Alike distance query low high ranking'
      (graph.visitNeighbors distance query low layer currentId state)
      (graph.visitNeighbors distance query high layer currentId state') := by
  unfold HnswGraph.visitNeighbors
  generalize (graph.neighbors layer currentId).getD [] = list
  induction list generalizing ranking state state' with
  | nil => exact ⟨ranking, alike⟩
  | cons id list ih =>
      rcases alike.visitNeighbor distinct positive order id with ⟨ranking', alike'⟩
      exact ih alike'

/-- The results of a search that has evaluated at least `ef` nodes end with one of them. -/
theorem worstResultDist_eq (positive : 1 ≤ ef) (results : state.results = ranking.take ef)
    (full : ef ≤ ranking.length) :
    ∃ last, ranking[ef - 1]? = some last ∧ state.worstResultDist = last.2 := by
  have inside : ef - 1 < ranking.length := by omega
  refine ⟨ranking[ef - 1], List.getElem?_eq_getElem inside, ?_⟩
  rw [SearchState.worstResultDist, results, List.getLast?_eq_getElem?, List.length_take,
    Nat.min_eq_left full, List.getElem?_take_of_lt (by omega), List.getElem?_eq_getElem inside]
  rfl

/-- When the narrow search takes out a candidate, the wide search takes out the same. -/
theorem Alike.round (distinct : graph.DistinctDistances distance query)
    (positive : 1 ≤ low) (order : low ≤ high)
    (alike : graph.Alike distance query low high ranking state state') {next : SearchState D}
    (round : graph.Round distance query low layer state next) :
    ∃ ranking' next', graph.Round distance query high layer state' next' ∧
      graph.Alike distance query low high ranking' next next' := by
  rcases round with ⟨currentId, currentDist, candidates, split, goesOn, rfl⟩
  rcases alike.extras with ⟨extras, same, behind⟩
  have current : (currentId, currentDist) ∈ state'.candidates := by
    apply same.mem_iff.mpr
    simp [split]
  rcases waiting : state'.candidates with _ | ⟨first, candidates'⟩
  · simp [waiting] at current
  have firstLeast : first.2 ≤ currentDist := by
    have sorted := alike.sorted'
    rw [waiting] at sorted current
    rcases List.mem_cons.mp current with rfl | later
    · exact le_rfl
    · exact (List.pairwise_cons.mp sorted).1 _ later
  have firstRanked : first ∈ ranking := alike.candidates first (by simp [waiting])
  -- the loop goes on, so the candidate is no further than the `low` closest nodes
  have within (full : low ≤ ranking.length) : ∃ last, ranking[low - 1]? = some last ∧
      currentDist ≤ last.2 := by
    rcases worstResultDist_eq positive alike.results full with ⟨last, isLast, worst⟩
    refine ⟨last, isLast, ?_⟩
    by_contra far
    apply goesOn
    rw [worst, alike.results, List.length_take]
    exact ⟨not_le.mp far, by omega⟩
  have isFirst : first = (currentId, currentDist) := by
    apply alike.ranked.eq_of_key firstRanked (alike.candidates _ current)
    apply le_antisymm firstLeast
    have found : first ∈ state.candidates ++ extras := same.mem_iff.mp (by simp [waiting])
    rcases List.mem_append.mp found with inside | extra
    · have sorted := alike.sorted
      rw [split] at sorted inside
      rcases List.mem_cons.mp inside with rfl | later
      · exact le_rfl
      · exact (List.pairwise_cons.mp sorted).1 _ later
    · -- an extra candidate would be further away than the one taken out
      rcases List.mem_drop_iff_getElem.mp (behind first extra) with ⟨offset, bound, isExtra⟩
      rcases within (by omega) with ⟨last, isLast, near⟩
      rcases List.getElem?_eq_some_iff.mp isLast with ⟨bound', rfl⟩
      refine near.trans ?_
      rw [← isExtra]
      exact (List.pairwise_iff_getElem.mp alike.ranked _ _ _ _ (by omega)).le
  subst isFirst
  have goesOn' : ¬ (state'.worstResultDist < currentDist ∧ high ≤ state'.results.length) := by
    rintro ⟨far, full⟩
    rw [alike.results', List.length_take] at full
    rcases within (by omega) with ⟨last, isLast, near⟩
    rcases worstResultDist_eq (positive.trans order) alike.results' (by omega) with
      ⟨last', isLast', worst⟩
    rcases List.getElem?_eq_some_iff.mp isLast with ⟨bound, rfl⟩
    rcases List.getElem?_eq_some_iff.mp isLast' with ⟨bound', rfl⟩
    rw [worst] at far
    have further : (ranking[low - 1]).2 ≤ (ranking[high - 1]).2 := by
      rcases Nat.eq_or_lt_of_le order with rfl | wider
      · exact le_rfl
      · exact (List.pairwise_iff_getElem.mp alike.ranked _ _ _ _ (by omega)).le
    exact absurd (near.trans further) (not_le.mpr far)
  have popped : graph.Alike distance query low high ranking { state with candidates }
      { state' with candidates := candidates' } := by
    have sorted := alike.sorted
    have sorted' := alike.sorted'
    rw [split] at sorted
    rw [waiting] at sorted'
    refine ⟨alike.visited, alike.ranked, alike.evaluates, alike.results, alike.results',
      (List.pairwise_cons.mp sorted).2, (List.pairwise_cons.mp sorted').2, ?_, extras, ?_, behind⟩
    · intro item inside
      exact alike.candidates item (by simp [waiting, show item ∈ candidates' from inside])
    · rw [waiting, split] at same
      exact same.cons_inv
  rcases popped.visitNeighbors distinct positive order currentId with ⟨ranking', alike'⟩
  exact ⟨ranking', _, ⟨currentId, currentDist, candidates', waiting, goesOn', rfl⟩, alike'⟩

theorem Alike.rounds (distinct : graph.DistinctDistances distance query)
    (positive : 1 ≤ low) (order : low ≤ high)
    (alike : graph.Alike distance query low high ranking state state') {last : SearchState D}
    (rounds : ReflTransGen (graph.Round distance query low layer) state last) :
    ∃ ranking' last', ReflTransGen (graph.Round distance query high layer) state' last' ∧
      graph.Alike distance query low high ranking' last last' := by
  induction rounds with
  | refl => exact ⟨ranking, state', .refl, alike⟩
  | tail _ round ih =>
      rcases ih with ⟨ranking', between, rounds', alike'⟩
      rcases alike'.round distinct positive order round with ⟨ranking'', last', round', alike''⟩
      exact ⟨ranking'', last', rounds'.tail round', alike''⟩

end Alike

section Start

variable (distance query graph) in
omit [LinearOrder D] [OrderTop D] in
/-- After the loop over the entry points all nodes visited are results and candidates. -/
theorem visitEntryPoints_evaluates (entryPoints : List UInt32) :
    let state := entryPoints.foldl (graph.visitEntryPoint distance query) ⟨∅, [], []⟩
    graph.Evaluates distance query state.visited state.results ∧
      (state.results.map Prod.fst).Nodup ∧ state.candidates = state.results := by
  refine List.foldlRecOn _ _ (motive := fun state : SearchState D =>
    graph.Evaluates distance query state.visited state.results ∧
      (state.results.map Prod.fst).Nodup ∧ state.candidates = state.results) ?_ ?_
  · exact ⟨by simp [Evaluates], by simp, rfl⟩
  · rintro state ⟨evaluates, nodup, same⟩ epId -
    rcases visitEntryPoint_cases distance query graph state epId with
      ⟨-, unchanged⟩ | ⟨unseen, node, found, entered⟩
    · rw [unchanged]
      exact ⟨evaluates, nodup, same⟩
    · rw [entered]
      refine ⟨?_, ?_, ?_⟩
      · have appended : graph.Evaluates distance query state.visited (state.results ++ []) := by
          rwa [List.append_nil]
        exact appended.insert found
      · have fresh : epId ∉ state.results.map Prod.fst := by
          intro isResult
          rcases List.mem_map.mp isResult with ⟨item, inside, rfl⟩
          exact unseen ((evaluates item).mp inside).1
        rw [SearchState.add, List.map_append, List.map_singleton, ← List.concat_eq_append]
        exact List.Nodup.concat fresh nodup
      · simp only [SearchState.add, SearchState.visit, same]

omit [OrderTop D] in
/-- Evaluated nodes, sorted, have increasing distances. -/
theorem Evaluates.increasing (distinct : graph.DistinctDistances distance query)
    {visited : Finset UInt32} {items : List (UInt32 × D)}
    (evaluates : graph.Evaluates distance query visited items)
    (nodup : (items.map Prod.fst).Nodup) : Increasing Prod.snd (sortByDistance items) := by
  have differ : (sortByDistance items).Pairwise fun first second => first.1 ≠ second.1 :=
    List.pairwise_map.mp (nodup_ids_sortByDistance.mpr nodup)
  refine List.Pairwise.imp_of_mem ?_ ((pairwise_sortByDistance items).and differ)
  rintro ⟨id, dist⟩ ⟨other, dist'⟩ isFirst isSecond ⟨le, ne⟩
  rcases (evaluates _).mp (mem_sortByDistance.mp isFirst) with ⟨-, node, found, rfl⟩
  rcases (evaluates _).mp (mem_sortByDistance.mp isSecond) with ⟨-, node', found', rfl⟩
  exact lt_of_le_of_ne le (distinct.ne found found' ne)

omit [OrderTop D] in
theorem alike_startSearch (distinct : graph.DistinctDistances distance query)
    (entryPoints : List UInt32) (low high : ℕ) :
    ∃ ranking, graph.Alike distance query low high ranking
      (graph.startSearch distance query entryPoints low)
      (graph.startSearch distance query entryPoints high) := by
  rcases visitEntryPoints_evaluates distance query graph entryPoints with ⟨evaluates, nodup, same⟩
  refine ⟨_, rfl, evaluates.increasing distinct nodup, ?_, rfl, rfl, pairwise_sortByDistance _,
    pairwise_sortByDistance _, ?_, [], ?_, by simp⟩
  · intro item
    rw [mem_sortByDistance]
    exact evaluates item
  · intro item inside
    rw [startSearch] at inside
    dsimp only at inside
    rwa [same] at inside
  · rw [List.append_nil]
    exact List.Perm.refl _

end Start

section Wider

theorem visited_subset_visitNeighbor (state : SearchState D) (id : UInt32) :
    state.visited ⊆ (graph.visitNeighbor distance query ef state id).visited := by
  rcases visitNeighbor_cases distance query ef graph state id with
    ⟨-, unchanged⟩ | ⟨-, -, marked⟩ | ⟨-, node, -, kept⟩
  · rw [unchanged]
  · rw [marked]
    exact Finset.subset_insert _ _
  · rw [kept]
    exact Finset.subset_insert _ _

theorem visited_subset_rounds {last : SearchState D}
    (rounds : ReflTransGen (graph.Round distance query ef layer) state last) :
    state.visited ⊆ last.visited := by
  induction rounds with
  | refl => exact Finset.Subset.refl _
  | tail _ round ih =>
      rcases round with ⟨currentId, currentDist, candidates, -, -, rfl⟩
      refine ih.trans ?_
      refine List.foldlRecOn _ _
        (motive := fun other : SearchState D => _ ⊆ other.visited) (Finset.Subset.refl _) ?_
      intro other grown id _
      exact grown.trans (visited_subset_visitNeighbor other id)

theorem round_unique : Relator.RightUnique (graph.Round distance query ef layer) := by
  rintro state next next' ⟨id, dist, candidates, split, -, rfl⟩ ⟨id', dist', candidates', split', -,
    rfl⟩
  rw [split] at split'
  cases split'
  rfl

theorem not_round_of_stops (stops : Stops ef state) {next : SearchState D} :
    ¬ graph.Round distance query ef layer state next := by
  rintro ⟨id, dist, candidates, split, goesOn, -⟩
  exact goesOn (stops (id, dist) (by rw [split]; rfl))

/-- A state that the search comes through is before its last one. -/
theorem rounds_to_last {start last : SearchState D}
    (rounds : ReflTransGen (graph.Round distance query ef layer) start state)
    (all : ReflTransGen (graph.Round distance query ef layer) start last) (stops : Stops ef last) :
    ReflTransGen (graph.Round distance query ef layer) state last := by
  rcases ReflTransGen.total_of_right_unique round_unique rounds all with before | after
  · exact before
  · rcases ReflTransGen.cases_head after with rfl | ⟨next, round, -⟩
    · exact .refl
    · exact absurd round (not_round_of_stops stops)

variable (layer) in
/-- The results are the closest of all nodes evaluated. -/
theorem searchLayer_ranking (distinct : graph.DistinctDistances distance query)
    (positive : 1 ≤ ef) (entryPoints : List UInt32) :
    ∃ ranking, Increasing Prod.snd ranking ∧
      graph.Evaluates distance query (lastState distance query ef layer graph graph.nodes.length
        (graph.startSearch distance query entryPoints ef)).visited ranking ∧
      graph.searchLayer distance query entryPoints ef layer = ranking.take ef := by
  rcases alike_startSearch distinct entryPoints ef ef with ⟨ranking, alike⟩
  rcases lastState_stops distance query ef layer graph _ _
    (remaining_startSearch_le distance query ef graph entryPoints) with ⟨rounds, -⟩
  rcases alike.rounds distinct positive le_rfl rounds with ⟨ranking', last', -, alike'⟩
  refine ⟨ranking', alike'.ranked, alike'.evaluates, ?_⟩
  rw [← alike'.results]
  exact searchLoop_eq distance query ef layer graph _ _

variable (layer) in
/-- A wider beam evaluates all nodes that a narrow one evaluates. -/
theorem visited_subset_wider (distinct : graph.DistinctDistances distance query)
    (positive : 1 ≤ low) (order : low ≤ high) (entryPoints : List UInt32) :
    (lastState distance query low layer graph graph.nodes.length
        (graph.startSearch distance query entryPoints low)).visited ⊆
      (lastState distance query high layer graph graph.nodes.length
        (graph.startSearch distance query entryPoints high)).visited := by
  rcases alike_startSearch distinct entryPoints low high with ⟨ranking, alike⟩
  rcases lastState_stops distance query low layer graph _ _
    (remaining_startSearch_le distance query low graph entryPoints) with ⟨rounds, -⟩
  rcases lastState_stops distance query high layer graph _ _
    (remaining_startSearch_le distance query high graph entryPoints) with ⟨rounds', stops'⟩
  rcases alike.rounds distinct positive order rounds with ⟨ranking', through, reached, alike'⟩
  rw [← alike'.visited]
  exact visited_subset_rounds (rounds_to_last reached rounds' stops')

/-- A wider beam never hurts: every node evaluated is evaluated again, and no distance returned
gets larger at its place. -/
theorem searchLayer_wider (distance : V → V → D) (query : V) (entryPoints : List UInt32)
    (layer : ℕ) (graph : HnswGraph V) (distinct : graph.DistinctDistances distance query)
    (positive : 1 ≤ low) (order : low ≤ high) :
    (∀ id, graph.Evaluated distance query entryPoints low layer id →
      graph.Evaluated distance query entryPoints high layer id) ∧
    ∀ index (inside : index < (graph.searchLayer distance query entryPoints low layer).length),
      ∃ inside' : index < (graph.searchLayer distance query entryPoints high layer).length,
        (graph.searchLayer distance query entryPoints high layer)[index].2 ≤
          (graph.searchLayer distance query entryPoints low layer)[index].2 := by
  have more := visited_subset_wider layer distinct positive order entryPoints
  refine ⟨fun id evaluated => ⟨more evaluated.1, evaluated.2⟩, ?_⟩
  rcases searchLayer_ranking layer distinct positive entryPoints with
    ⟨ranking, ranked, evaluates, results⟩
  rcases searchLayer_ranking layer distinct (positive.trans order) entryPoints with
    ⟨ranking', ranked', evaluates', results'⟩
  intro index inside
  have inside'' : index < low ∧ index < ranking.length := by
    rw [results, List.length_take] at inside
    omega
  simp only [results, results', List.length_take]
  have moreRanked : ∀ item ∈ ranking, item ∈ ranking' := by
    intro item found
    rcases (evaluates item).mp found with ⟨seen, present⟩
    exact (evaluates' item).mpr ⟨more seen, present⟩
  rcases ranked.getElem_le ranked' moreRanked inside''.2 with ⟨bound, le⟩
  refine ⟨by omega, ?_⟩
  rw [List.getElem_take, List.getElem_take]
  exact le

end Wider

end VenomDb.HnswGraph

namespace VenomDb.Sample

open HnswGraph

/-- The distance of two numbers. -/
def gap (first second : ℕ) : WithTop ℕ := WithTop.some (first - second + (second - first))

/-- The way from the first node to the one next to zero leads over a node further away. -/
def detour : HnswGraph ℕ where
  config := .new 2 1 1
  nodes := [⟨0, 5, [[1]]⟩, ⟨1, 7, [[0, 2]]⟩, ⟨2, 1, [[1]]⟩]
  entryPoint := some 0
  maxLayer := 0

example : detour.searchLayer gap 0 [0] 1 0 = [(0, gap 0 5)] ∧
    detour.searchLayer gap 0 [0] 2 0 = [(2, gap 0 1), (0, gap 0 5)] := by decide

theorem searchLayer_wider_detour : detour.DistinctDistances gap 0 ∧
    (∀ id, detour.Evaluated gap 0 [0] 1 0 id → detour.Evaluated gap 0 [0] 2 0 id) ∧
    ∀ index (inside : index < (detour.searchLayer gap 0 [0] 1 0).length),
      ∃ inside' : index < (detour.searchLayer gap 0 [0] 2 0).length,
        (detour.searchLayer gap 0 [0] 2 0)[index].2 ≤
          (detour.searchLayer gap 0 [0] 1 0)[index].2 := by
  have distinct : detour.DistinctDistances gap 0 := by
    unfold DistinctDistances
    decide
  exact ⟨distinct, searchLayer_wider gap 0 [0] 0 detour distinct (by decide) (by decide)⟩

end VenomDb.Sample
