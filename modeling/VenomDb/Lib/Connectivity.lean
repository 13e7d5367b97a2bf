import Mathlib.Combinatorics.SimpleGraph.Connectivity.Connected

/-!
# Connected sets of vertices

A set of vertices of an undirected graph is connected if each of its vertices reaches every
other. Deleting an edge of the set keeps it connected exactly if the edge is no bridge;
attaching a new vertex inside one component neither connects nor separates the others.
-/

namespace VenomDb.Graph

variable {α : Type} {graph : SimpleGraph α} {vertices : Set α}

def ConnectedOn (graph : SimpleGraph α) (vertices : Set α) : Prop :=
  ∀ first ∈ vertices, ∀ second ∈ vertices, graph.Reachable first second

section Delete

variable {first second : α}

theorem reachable_deleteEdges {start last : α} (spared : ¬graph.IsBridge s(first, second))
    (reaches : graph.Reachable start last) :
    (graph.deleteEdges {s(first, second)}).Reachable start last := by
  have joined : (graph.deleteEdges {s(first, second)}).Reachable first second :=
    not_not.mp (fun apart => spared (SimpleGraph.isBridge_iff.mpr apart))
  rw [SimpleGraph.reachable_iff_reflTransGen] at reaches
  induction reaches with
  | refl => rfl
  | @tail middle last _ edge ih =>
      refine ih.trans ?_
      by_cases isDeleted : s(middle, last) = s(first, second)
      · rcases Sym2.eq_iff.mp isDeleted with ⟨rfl, rfl⟩ | ⟨rfl, rfl⟩
        · exact joined
        · exact joined.symm
      · apply SimpleGraph.Adj.reachable
        simpa [isDeleted] using edge

theorem connectedOn_deleteEdges_iff (isFirst : first ∈ vertices) (isSecond : second ∈ vertices) :
    ConnectedOn (graph.deleteEdges {s(first, second)}) vertices ↔
      ConnectedOn graph vertices ∧ ¬graph.IsBridge s(first, second) := by
  constructor
  · intro connected
    refine ⟨fun start isStart last isLast => ?_, fun bridge => ?_⟩
    · exact (connected start isStart last isLast).mono (SimpleGraph.deleteEdges_le _)
    · exact SimpleGraph.isBridge_iff.mp bridge (connected first isFirst second isSecond)
  · rintro ⟨connected, spared⟩ start isStart last isLast
    exact reachable_deleteEdges spared (connected start isStart last isLast)

end Delete

section Attach

variable {attached : SimpleGraph α} {new : α} {contacts : Set α}
  (edges : ∀ first second, attached.Adj first second ↔
    graph.Adj first second ∨ (first = new ∧ second ∈ contacts) ∨
      (first ∈ contacts ∧ second = new))
  (isolated : ∀ other, ¬graph.Adj new other)
  (together : ∀ first ∈ contacts, ∀ second ∈ contacts, graph.Reachable first second)

include edges isolated together

/-- A path through the new vertex leaves it into the component from which it came. -/
theorem reachable_of_attached {start last : α} (isOld : start ≠ new)
    (reaches : attached.Reachable start last) :
    (last ≠ new ∧ graph.Reachable start last) ∨
      (last = new ∧ ∃ contact ∈ contacts, graph.Reachable start contact) := by
  rw [SimpleGraph.reachable_iff_reflTransGen] at reaches
  induction reaches with
  | refl => exact .inl ⟨isOld, SimpleGraph.Reachable.refl _⟩
  | @tail middle last _ edge ih =>
      rcases ih with ⟨middleOld, reaches⟩ | ⟨rfl, contact, isContact, reaches⟩
      · rcases (edges middle last).mp edge with edge | ⟨isNew, -⟩ | ⟨isContact, isNew⟩
        · refine .inl ⟨?_, reaches.trans edge.reachable⟩
          rintro rfl
          exact isolated middle edge.symm
        · exact absurd isNew middleOld
        · exact .inr ⟨isNew, middle, isContact, reaches⟩
      · rcases (edges middle last).mp edge with edge | ⟨-, isContact'⟩ | ⟨isContact', rfl⟩
        · exact absurd edge (isolated last)
        · by_cases isNew : last = middle
          · exact .inr ⟨isNew, contact, isContact, reaches⟩
          · exact .inl ⟨isNew, reaches.trans (together contact isContact last isContact')⟩
        · exact .inr ⟨rfl, contact, isContact, reaches⟩

theorem connectedOn_attached_iff (isNew : new ∉ vertices) (inside : contacts ⊆ vertices)
    (nonempty : contacts.Nonempty) :
    ConnectedOn attached (insert new vertices) ↔ ConnectedOn graph vertices := by
  constructor
  · intro connected first isFirst second isSecond
    have firstOld : first ≠ new := fun same => isNew (same ▸ isFirst)
    have secondOld : second ≠ new := fun same => isNew (same ▸ isSecond)
    have reaches := connected first (.inr isFirst) second (.inr isSecond)
    rcases reachable_of_attached edges isolated together firstOld reaches with
      ⟨-, reaches⟩ | ⟨isNew, -⟩
    · exact reaches
    · exact absurd isNew secondOld
  · intro connected
    have grows : graph ≤ attached := fun first second edge => (edges first second).mpr (.inl edge)
    rcases nonempty with ⟨contact, isContact⟩
    -- every vertex reaches one contact of the new vertex
    have reaches : ∀ vertex ∈ insert new vertices, attached.Reachable vertex contact := by
      rintro vertex (rfl | isOld)
      · exact SimpleGraph.Adj.reachable ((edges _ _).mpr (.inr (.inl ⟨rfl, isContact⟩)))
      · exact (connected vertex isOld contact (inside isContact)).mono grows
    exact fun first isFirst second isSecond =>
      (reaches first isFirst).trans (reaches second isSecond).symm

end Attach

end VenomDb.Graph
