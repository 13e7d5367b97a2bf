import Mathlib.Tactic
import Mathlib.Logic.Relation

/-!
# Cycles of a finite graph

A depth first search that stops as soon as it meets a node a second time. If it never
does, no path leads from its start back to it. If it does, it has found a cycle, or
only two ways to one node.
-/

namespace VenomDb.Graph

open Relation

variable {α : Type}

/-- A node on a cycle can be reached. -/
def ReachesCycle (edge : α → α → Prop) (start : α) : Prop :=
  ∃ node, ReflTransGen edge start node ∧ TransGen edge node node

/-- Two different nodes that can be reached lead to one node. -/
def Converges (edge : α → α → Prop) (start : α) : Prop :=
  ∃ first second node, first ≠ second ∧ ReflTransGen edge start first ∧
    ReflTransGen edge start second ∧ edge first node ∧ edge second node

/-- No path leads from a node back to it. -/
def Acyclic (edge : α → α → Prop) : Prop := ∀ node, ¬TransGen edge node node

section Acyclic

variable {edge edge' : α → α → Prop}

theorem Acyclic.mono (acyclic : Acyclic edge)
    (sub : ∀ {first last}, edge' first last → edge first last) :
    Acyclic edge' :=
  fun node cycle => acyclic node (TransGen.mono (fun _ _ step => sub step) _ _ cycle)

/-- Either a path avoids the edges out of a node, or it leads through the node. -/
theorem transGen_or_through {node first last : α} (path : TransGen edge' first last)
    (others : ∀ {first last}, first ≠ node → edge' first last → edge first last) :
    TransGen edge first last ∨ ReflTransGen edge' first node ∧ TransGen edge' node last := by
  induction path using TransGen.head_induction_on with
  | @single first step =>
      by_cases isNode : first = node
      · subst isNode
        exact .inr ⟨.refl, .single step⟩
      · exact .inl (.single (others isNode step))
  | @head first second step rest ih =>
      by_cases isNode : first = node
      · subst isNode
        exact .inr ⟨.refl, .head step rest⟩
      · rcases ih with avoids | ⟨reaches, back⟩
        · exact .inl (.head (others isNode step) avoids)
        · exact .inr ⟨.head step reaches, back⟩

/-- New edges out of a node make a cycle only through this node. -/
theorem Acyclic.redirect {node : α} (acyclic : Acyclic edge) (free : ¬TransGen edge' node node)
    (others : ∀ {first last}, first ≠ node → edge' first last → edge first last) :
    Acyclic edge' := by
  intro start cycle
  rcases transGen_or_through cycle others with avoids | ⟨reaches, back⟩
  · exact acyclic start avoids
  · exact free (back.trans_left reaches)

end Acyclic

section Search

variable [DecidableEq α] (next : α → List α)

/-- Whether the search from the nodes of a stack meets a node a second time. No answer when
the fuel runs out. -/
def meetsTwice : ℕ → List α → List α → Option Bool
  | _, _, [] => some false
  | 0, _, _ :: _ => none
  | fuel + 1, visited, node :: stack =>
      if node ∈ visited then some true
      else meetsTwice fuel (node :: visited) ((next node).reverse ++ stack)

variable {next} {visited stack : List α} {fuel : ℕ}

theorem length_unvisited {nodes : List α} {node : α} (inside : node ∈ nodes)
    (fresh : node ∉ visited) :
    (nodes.filter (· ∉ node :: visited)).length < (nodes.filter (· ∉ visited)).length := by
  have split : nodes.filter (· ∉ node :: visited) =
      (nodes.filter (· ∉ visited)).filter (· ≠ node) := by
    rw [List.filter_filter]
    apply List.filter_congr
    intro other _
    simp
  rw [split, List.length_filter_lt_length_iff_exists]
  exact ⟨node, by simpa using ⟨inside, fresh⟩, by simp⟩

/-- Fuel for every node is enough. -/
theorem meetsTwice_isSome (nodes : List α)
    (closed : ∀ node ∈ nodes, ∀ other ∈ next node, other ∈ nodes)
    (inside : ∀ node ∈ stack, node ∈ nodes)
    (enough : (nodes.filter (· ∉ visited)).length < fuel) :
    (meetsTwice next fuel visited stack).isSome := by
  induction fuel generalizing visited stack with
  | zero => omega
  | succ fuel ih =>
      cases stack with
      | nil => rfl
      | cons node stack =>
          rw [meetsTwice]
          split
          next => rfl
          next fresh =>
            have isNode := inside node (by simp)
            apply ih
            · intro other found
              rcases List.mem_append.mp found with isNext | isOld
              · exact closed node isNode other (List.mem_reverse.mp isNext)
              · exact inside other (List.mem_cons_of_mem _ isOld)
            · have fewer := length_unvisited isNode fresh
              omega

/-- What a search without a second meeting reaches was not visited before it. -/
theorem not_visited_of_meetsTwice (never : meetsTwice next fuel visited stack = some false)
    {first last : α} (start : first ∈ stack)
    (path : ReflTransGen (fun node other => other ∈ next node) first last) : last ∉ visited := by
  induction fuel generalizing visited stack first with
  | zero =>
      cases stack with
      | nil => simp at start
      | cons node stack => simp [meetsTwice] at never
  | succ fuel ih =>
      cases stack with
      | nil => simp at start
      | cons node stack =>
          rw [meetsTwice] at never
          split at never
          next => simp at never
          next fresh =>
            rcases List.mem_cons.mp start with rfl | later
            · rcases path.cases_head with rfl | ⟨second, step, rest⟩
              · exact fresh
              · have reached := ih never (List.mem_append_left _ (List.mem_reverse.mpr step)) rest
                exact fun old => reached (List.mem_cons_of_mem _ old)
            · have reached := ih never (List.mem_append_right _ later) path
              exact fun old => reached (List.mem_cons_of_mem _ old)

theorem not_transGen_of_meetsTwice {start : α}
    (never : meetsTwice next fuel [] [start] = some false) :
    ¬TransGen (fun node other => other ∈ next node) start start := by
  intro cycle
  rcases TransGen.head'_iff.mp cycle with ⟨second, step, rest⟩
  cases fuel with
  | zero => simp [meetsTwice] at never
  | succ fuel =>
      rw [meetsTwice, if_neg (by simp)] at never
      have reached := not_visited_of_meetsTwice never (by simpa using step) rest
      simp at reached

section Met

variable {start node : α}

/-- The search so far: it met its start and, once for each edge, what the visited nodes lead to. -/
structure Met (next : α → List α) (start : α) (visited stack : List α) : Prop where
  nodup : visited.Nodup
  reached : ∀ node ∈ visited ++ stack,
    ReflTransGen (fun node other => other ∈ next node) start node
  perm : (visited ++ stack).Perm (start :: visited.flatMap next)

omit [DecidableEq α] in
theorem met_start : Met next start [] [start] where
  nodup := List.nodup_nil
  reached := by
    intro node isStart
    rw [List.mem_singleton.mp isStart]
  perm := .refl _

omit [DecidableEq α] in
theorem Met.visit (met : Met next start visited (node :: stack)) (fresh : node ∉ visited) :
    Met next start (node :: visited) ((next node).reverse ++ stack) where
  nodup := List.nodup_cons.mpr ⟨fresh, met.nodup⟩
  reached := by
    intro other found
    simp only [List.mem_append, List.mem_cons, List.mem_reverse] at found
    rcases found with (rfl | old) | isNext | waiting
    · exact met.reached other (by simp)
    · exact met.reached other (by simp [old])
    · exact (met.reached node (by simp)).tail isNext
    · exact met.reached other (by simp [waiting])
  perm := by
    have before : (node :: (visited ++ stack)).Perm (start :: visited.flatMap next) :=
      List.perm_middle.symm.trans met.perm
    have moved : (node :: visited ++ ((next node).reverse ++ stack)).Perm
        (next node ++ (node :: (visited ++ stack))) := by
      rw [← Multiset.coe_eq_coe]
      simp only [← Multiset.coe_add, ← Multiset.cons_coe, Multiset.coe_reverse,
        ← Multiset.singleton_add]
      abel
    refine moved.trans ((before.append_left _).trans ?_)
    rw [List.flatMap_cons]
    exact List.perm_middle

omit [DecidableEq α] in
/-- Without two ways to one node, visited nodes lead to different nodes. -/
theorem Met.nodup_flatMap (met : Met next start visited stack) (sets : ∀ node, (next node).Nodup)
    (apart : ¬Converges (fun node other => other ∈ next node) start) :
    (visited.flatMap next).Nodup := by
  rw [List.nodup_flatMap]
  refine ⟨fun node _ => sets node, met.nodup.imp_of_mem ?_⟩
  intro first second isFirst isSecond differ node fromFirst fromSecond
  exact apart ⟨first, second, node, differ, met.reached first (by simp [isFirst]),
    met.reached second (by simp [isSecond]), fromFirst, fromSecond⟩

/-- A second meeting is a cycle or two ways to one node. -/
theorem Met.twice (met : Met next start visited (node :: stack)) (sets : ∀ node, (next node).Nodup)
    (old : node ∈ visited) :
    ReachesCycle (fun node other => other ∈ next node) start ∨
      Converges (fun node other => other ∈ next node) start := by
  by_contra neither
  rw [not_or] at neither
  have once := List.nodup_iff_count_le_one.mp (met.nodup_flatMap sets neither.2) node
  have met' := met.perm.count_eq node
  have seen := List.one_le_count_iff.mpr old
  rw [List.count_append, List.count_cons_self, List.count_cons] at met'
  have isStart : start = node := by
    by_contra differ
    rw [if_neg (by simpa using differ)] at met'
    omega
  subst isStart
  rw [if_pos (by simp)] at met'
  obtain ⟨last, isLast, back⟩ := List.mem_flatMap.mp
    (List.one_le_count_iff.mp (show 1 ≤ (visited.flatMap next).count start by omega))
  exact neither.1 ⟨start, .refl, TransGen.tail' (met.reached last (by simp [isLast])) back⟩

/-- A finished search without a second meeting has met every node that can be reached once. -/
theorem Met.once (met : Met next start visited []) :
    ¬ReachesCycle (fun node other => other ∈ next node) start ∧
      ¬Converges (fun node other => other ∈ next node) start := by
  have perm : visited.Perm (start :: visited.flatMap next) := by simpa using met.perm
  have inside {node : α} (path : ReflTransGen (fun node other => other ∈ next node) start node) :
      node ∈ visited := by
    induction path with
    | refl => exact perm.mem_iff.mpr (by simp)
    | @tail last node _ step ih =>
        exact perm.mem_iff.mpr (List.mem_cons_of_mem _ (List.mem_flatMap.mpr ⟨last, ih, step⟩))
  have nodup := List.nodup_cons.mp (perm.nodup_iff.mp met.nodup)
  have apart : ¬Converges (fun node other => other ∈ next node) start := by
    rintro ⟨first, second, node, differ, toFirst, toSecond, fromFirst, fromSecond⟩
    have symmetric : Std.Symm (Function.onFun List.Disjoint next) :=
      ⟨fun _ _ disjoint => disjoint.symm⟩
    exact (List.nodup_flatMap.mp nodup.2).2.forall (inside toFirst) (inside toSecond) differ
      fromFirst fromSecond
  refine ⟨?_, apart⟩
  rintro ⟨node, path, cycle⟩
  -- the cycle leads back along the only path to the node
  induction path with
  | refl =>
      rcases TransGen.tail'_iff.mp cycle with ⟨last, toLast, back⟩
      exact nodup.1 (List.mem_flatMap.mpr ⟨last, inside toLast, back⟩)
  | @tail before node path step ih =>
      rcases TransGen.tail'_iff.mp cycle with ⟨last, toLast, back⟩
      by_cases same : last = before
      · subst same
        exact ih (TransGen.head' step toLast)
      · exact apart ⟨last, before, node, same, (path.tail step).trans toLast, path, back, step⟩

/-- What the answer of the search means. -/
theorem Met.answer {answer : Bool} (met : Met next start visited stack)
    (sets : ∀ node, (next node).Nodup)
    (search : meetsTwice next fuel visited stack = some answer) :
    answer = true ↔ ReachesCycle (fun node other => other ∈ next node) start ∨
      Converges (fun node other => other ∈ next node) start := by
  induction fuel generalizing visited stack with
  | zero =>
      cases stack with
      | nil =>
          obtain rfl : false = answer := Option.some.inj search
          simp [met.once]
      | cons node stack => simp [meetsTwice] at search
  | succ fuel ih =>
      cases stack with
      | nil =>
          obtain rfl : false = answer := Option.some.inj search
          simp [met.once]
      | cons node stack =>
          rw [meetsTwice] at search
          split at search
          next old =>
            obtain rfl : true = answer := Option.some.inj search
            simpa using met.twice sets old
          next fresh => exact ih (met.visit fresh) search

end Met

end Search

end VenomDb.Graph
