import Mathlib.Data.Finset.Basic
import Mathlib.Data.List.Sort
import Mathlib.Order.BoundedOrder.Basic

/-!
# The HNSW graph

The layered graph of vectors behind the approximate nearest neighbour search. Vectors and
distances are arbitrary: a distance function gives values of a linear order whose top
stands for the infinite distance. The level that `random_level` draws for a new node is
an argument of `insert`.
-/

namespace VenomDb

structure HnswConfig where
  m : ℕ
  mMax : ℕ
  efConstruction : ℕ
  efSearch : ℕ

def HnswConfig.new (m efConstruction efSearch : ℕ) : HnswConfig :=
  { m, mMax := 2 * m, efConstruction, efSearch }

/-- A vertex: its vector and one list of neighbours for each of its layers. -/
structure HnswNode (V : Type) where
  id : UInt32
  vector : V
  layers : List (List UInt32)

structure HnswGraph (V : Type) where
  config : HnswConfig
  nodes : List (HnswNode V)
  entryPoint : Option UInt32
  maxLayer : ℕ

section Sorting

variable {D : Type} [LinearOrder D]

/-- The stable sort by distance. -/
def sortByDistance (candidates : List (UInt32 × D)) : List (UInt32 × D) :=
  candidates.insertionSort fun first second => first.2 ≤ second.2

/-- The ids of the first `m` candidates. -/
def selectNeighbors (candidates : List (UInt32 × D)) (m : ℕ) : List UInt32 :=
  (candidates.take m).map Prod.fst

end Sorting

namespace HnswGraph

variable {V D : Type}

def new (config : HnswConfig) : HnswGraph V :=
  { config, nodes := [], entryPoint := none, maxLayer := 0 }

def getNode (id : UInt32) (graph : HnswGraph V) : Option (HnswNode V) :=
  graph.nodes.find? (·.id == id)

/-- Changes the first element that has a property. -/
def changeFirst {α : Type} (p : α → Bool) (change : α → α) : List α → List α
  | [] => []
  | head :: tail => if p head then change head :: tail else head :: changeFirst p change tail

/-- Changes one neighbour list of the node that `get_node_mut` finds. Nothing happens when
there is no such node, or when it has no such layer. -/
def updateLayer (layer : ℕ) (id : UInt32) (change : List UInt32 → List UInt32)
    (graph : HnswGraph V) : HnswGraph V :=
  { graph with
    nodes := changeFirst (·.id == id)
      (fun node => { node with layers := node.layers.modify layer change }) graph.nodes }

/-- The neighbour list of a node on a layer, if the node exists and has this layer. -/
def neighbors (layer : ℕ) (id : UInt32) (graph : HnswGraph V) : Option (List UInt32) :=
  (graph.getNode id).bind fun node => node.layers[layer]?

section Search

variable [LinearOrder D] [OrderTop D]

/-- The variables of `search_layer`. -/
structure SearchState (D : Type) where
  visited : Finset UInt32
  candidates : List (UInt32 × D)
  results : List (UInt32 × D)

namespace SearchState

/-- The distance of the last result. -/
def worstResultDist (state : SearchState D) : D :=
  (state.results.getLast?.map Prod.snd).getD ⊤

def visit (id : UInt32) (state : SearchState D) : SearchState D :=
  { state with visited := insert id state.visited }

/-- Keeps a node as a candidate and among the `ef` closest results. -/
def keep (ef : ℕ) (item : UInt32 × D) (state : SearchState D) : SearchState D :=
  { state with
    candidates := sortByDistance (state.candidates ++ [item])
    results := (sortByDistance (state.results ++ [item])).take ef }

end SearchState

variable (distance : V → V → D) (query : V)

/-- The body of the loop over the entry points. -/
def visitEntryPoint (graph : HnswGraph V) (state : SearchState D) (epId : UInt32) :
    SearchState D :=
  if epId ∈ state.visited then state
  else
    match graph.getNode epId with
    | none => state
    | some node =>
        let dist := distance query node.vector
        { state.visit epId with
          candidates := state.candidates ++ [(epId, dist)]
          results := state.results ++ [(epId, dist)] }

/-- The state in which the search of a layer starts. -/
def startSearch (entryPoints : List UInt32) (ef : ℕ) (graph : HnswGraph V) : SearchState D :=
  let state := entryPoints.foldl (graph.visitEntryPoint distance query) ⟨∅, [], []⟩
  { state with
    candidates := sortByDistance state.candidates
    results := (sortByDistance state.results).take ef }

/-- The body of the loop over the neighbours of a candidate. -/
def visitNeighbor (ef : ℕ) (graph : HnswGraph V) (state : SearchState D)
    (neighborId : UInt32) : SearchState D :=
  if neighborId ∈ state.visited then state
  else
    let state := state.visit neighborId
    match graph.getNode neighborId with
    | none => state
    | some neighborNode =>
        let dist := distance query neighborNode.vector
        if state.results.length < ef ∨ dist < state.worstResultDist then
          state.keep ef (neighborId, dist)
        else state

/-- Visits the neighbours of a candidate. There are none if it lacks the layer. -/
def visitNeighbors (ef layer : ℕ) (graph : HnswGraph V) (currentId : UInt32)
    (state : SearchState D) : SearchState D :=
  ((graph.neighbors layer currentId).getD []).foldl (graph.visitNeighbor distance query ef) state

/-- The main loop of `search_layer`: takes out the closest candidate and visits its
neighbours, until it is further away than all of the `ef` results. A node becomes a
candidate at most once, so the fuel is a bound on the candidates still to come. -/
def searchLoop (ef layer : ℕ) (graph : HnswGraph V) : ℕ → SearchState D → List (UInt32 × D)
  | 0, state => state.results
  | fuel + 1, state =>
      match state.candidates with
      | [] => state.results
      | (currentId, currentDist) :: candidates =>
          if state.worstResultDist < currentDist ∧ ef ≤ state.results.length then state.results
          else
            searchLoop ef layer graph fuel
              (graph.visitNeighbors distance query ef layer currentId { state with candidates })

/-- The greedy beam search on a single layer. -/
def searchLayer (entryPoints : List UInt32) (ef layer : ℕ) (graph : HnswGraph V) :
    List (UInt32 × D) :=
  graph.searchLoop distance query ef layer graph.nodes.length
    (graph.startSearch distance query entryPoints ef)

/-- One layer of the way down to the layers of interest: the closest node found becomes the
entry point of the layer below. -/
def descend (graph : HnswGraph V) (epId : UInt32) (layer : ℕ) : UInt32 :=
  match graph.searchLayer distance query [epId] 1 layer with
  | [] => epId
  | (id, _) :: _ => id

end Search

section Insert

variable [LinearOrder D] [OrderTop D] (distance : V → V → D)

/-- The limit on the length of the neighbour lists of a layer. -/
def layerLimit (layer : ℕ) (graph : HnswGraph V) : ℕ :=
  if layer = 0 then graph.config.mMax else graph.config.m

/-- Sets the neighbour list of the new node. Its layers are indexed directly: `none` is the
panic of an index out of range. -/
def setNeighbors (layer : ℕ) (id : UInt32) (neighbors : List UInt32) (graph : HnswGraph V) :
    Option (HnswGraph V) :=
  match graph.getNode id with
  | none => some graph
  | some node =>
      if layer < node.layers.length then some (graph.updateLayer layer id fun _ => neighbors)
      else none

/-- Adds the new node to the list of one of its neighbours. -/
def linkBack (layer : ℕ) (id : UInt32) (graph : HnswGraph V) (neighborId : UInt32) :
    HnswGraph V :=
  graph.updateLayer layer neighborId fun list => if id ∈ list then list else list ++ [id]

/-- The closest neighbours in the list of a node, as many as the limit allows. -/
def pruned (layer : ℕ) (node : HnswNode V) (list : List UInt32) (graph : HnswGraph V) :
    List UInt32 :=
  selectNeighbors
    (sortByDistance (list.filterMap fun id =>
      (graph.getNode id).map fun other => (id, distance node.vector other.vector)))
    (graph.layerLimit layer)

/-- What is left of a list that is longer than the limit, and what is dropped from it. -/
def pruning (layer : ℕ) (neighborId : UInt32) (graph : HnswGraph V) :
    Option (List UInt32 × List UInt32) := do
  let neighbor ← graph.getNode neighborId
  let oldList ← neighbor.layers[layer]?
  if oldList.length ≤ graph.layerLimit layer then none
  else
    let pruned := graph.pruned distance layer neighbor oldList
    some (pruned, oldList.filter fun id => id ∉ pruned)

/-- Prunes the list of a node that has become too long, and takes the node off the lists of
all that it drops. -/
def prune (layer : ℕ) (graph : HnswGraph V) (neighborId : UInt32) : HnswGraph V :=
  match graph.pruning distance layer neighborId with
  | none => graph
  | some (pruned, dropped) =>
      dropped.foldl
        (fun graph droppedId =>
          graph.updateLayer layer droppedId fun list => list.filter (· ≠ neighborId))
        (graph.updateLayer layer neighborId fun _ => pruned)

/-- Connects the new node to its neighbours on one layer. Returns the entry point of the
layer below with the graph. -/
def connectLayer (id : UInt32) (query : V) (state : UInt32 × HnswGraph V) (layer : ℕ) :
    Option (UInt32 × HnswGraph V) := do
  let (epId, graph) := state
  let candidates := graph.searchLayer distance query [epId] graph.config.efConstruction layer
  let neighbors := selectNeighbors candidates (graph.layerLimit layer)
  let graph ← graph.setNeighbors layer id neighbors
  let graph := neighbors.foldl (linkBack layer id) graph
  let graph := neighbors.foldl (prune distance layer) graph
  match candidates with
  | [] => some (epId, graph)
  | (closestId, _) :: _ => some (closestId, graph)

/-- A new node with the empty layers `0..=level`. -/
def emptyNode (id : UInt32) (vector : V) (nodeLevel : ℕ) : HnswNode V :=
  { id, vector, layers := List.replicate (nodeLevel + 1) [] }

/-- The graph with a new node that has no links yet. -/
def push (id : UInt32) (vector : V) (nodeLevel : ℕ) (graph : HnswGraph V) : HnswGraph V :=
  { graph with nodes := graph.nodes ++ [emptyNode id vector nodeLevel] }

/-- The last step of an insertion: a node above all others becomes the entry point. -/
def raise (id : UInt32) (nodeLevel : ℕ) (graph : HnswGraph V) : HnswGraph V :=
  if graph.maxLayer < nodeLevel then { graph with entryPoint := some id, maxLayer := nodeLevel }
  else graph

/-- Inserts a node whose top layer is `nodeLevel`. `none` is a panic. -/
def insert (id : UInt32) (vector : V) (nodeLevel : ℕ) (graph : HnswGraph V) :
    Option (HnswGraph V) :=
  if graph.nodes = [] then
    some { graph.push id vector nodeLevel with entryPoint := some id, maxLayer := nodeLevel }
  else do
    let epId ← graph.entryPoint
    -- the layers `node_level + 1..=max_layer`, from the top
    let epId := (List.range' (nodeLevel + 1) (graph.maxLayer - nodeLevel)).reverse.foldl
      (graph.descend distance vector) epId
    let topConnect := min nodeLevel graph.maxLayer
    let (_, graph) ← (List.range (topConnect + 1)).reverse.foldlM
      (connectLayer distance id vector) (epId, graph.push id vector nodeLevel)
    some (graph.raise id nodeLevel)

/-- The `k` nearest neighbours of a vector. `none` is a panic. -/
def search (query : V) (k : ℕ) (graph : HnswGraph V) : Option (List (UInt32 × D)) :=
  if graph.nodes = [] then some []
  else do
    let epId ← graph.entryPoint
    let epId := (List.range' 1 graph.maxLayer).reverse.foldl
      (graph.descend distance query) epId
    some ((graph.searchLayer distance query [epId] (max graph.config.efSearch k) 0).take k)

end Insert

end HnswGraph

end VenomDb
