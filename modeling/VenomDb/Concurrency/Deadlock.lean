import VenomDb.Concurrency.WaitsFor

/-!
# Deadlock reports

The search behind a deadlock report stops when it meets a transaction twice. That is a
cycle, or just a transaction that two others wait for. A refused request is taken back
by the id of its transaction, and with it everything else that this transaction waits
for in the same queue and in the graph.
-/

namespace VenomDb.LockManager

open LockQueue Relation VenomDb.Graph

variable {manager : LockManager} {order : SetOrder} {txnId : UInt32} {rid : Rid} {mode : LockMode}

/-- The wait sets are sets. -/
def HasSets (manager : LockManager) : Prop := ∀ txnId, (manager.waits txnId).Nodup

/-- The graph with the wait of a new request. -/
def waitsForWith (txnId : UInt32) (rid : Rid) (mode : LockMode) (manager : LockManager) :
    AList fun _ : UInt32 => List UInt32 :=
  manager.waitsFor.insert txnId
    (((manager.queue rid).pushBack ⟨txnId, mode, false⟩).blockers txnId)

/-- The search answers that some transaction is met on two ways. -/
theorem hasCycle_iff (sets : manager.HasSets) (order : SetOrder) (start : UInt32) :
    manager.hasCycle order start = true ↔
      ReachesCycle (Edge manager.waitsFor) start ∨ Converges (Edge manager.waitsFor) start := by
  have answer := met_start.answer (fun waiter => (order.walk_perm _).nodup_iff.mpr (sets waiter))
    (search_eq_hasCycle order start manager)
  simpa only [mem_walk] using answer

theorem waits_insert (members : List UInt32) (other : UInt32)
    (lockTable : AList fun _ => LockQueue) :
    (LockManager.mk lockTable (manager.waitsFor.insert txnId members)).waits other =
      if other = txnId then members else manager.waits other := by
  rw [waits]
  split
  next same =>
    rw [same, AList.lookup_insert]
    rfl
  next differ =>
    rw [AList.lookup_insert_ne differ]
    rfl

theorem HasSets.with (sets : manager.HasSets) (txnId : UInt32) (rid : Rid) (mode : LockMode)
    (lockTable : AList fun _ => LockQueue) :
    HasSets ⟨lockTable, manager.waitsForWith txnId rid mode⟩ := by
  intro other
  rw [waitsForWith, waits_insert]
  split_ifs
  · exact List.nodup_dedup _
  · exact sets other

theorem Reachable.hasSets (reachable : Reachable manager) : manager.HasSets := by
  induction reachable with
  | new =>
      intro txnId
      simp [waits, LockManager.new]
  | @step manager call before ih =>
      cases call with
      | acquire order txnId rid mode =>
          rcases acquire_spec order manager txnId rid mode with ⟨queue, acquires, -⟩
          intro other
          rw [LockCall.run, waits]
          generalize (manager.acquire order txnId rid mode).2.waitsFor = waitsFor at acquires
          generalize (manager.acquire order txnId rid mode).1 = result at acquires
          cases acquires with
          | held => exact ih other
          | upgraded => exact ih other
          | granted => exact ih other
          | queued => exact ih.with txnId rid mode manager.lockTable other
          | deadlock =>
              by_cases same : other = txnId
              · subst same
                rw [AList.lookup_erase]
                exact List.nodup_nil
              · rw [AList.lookup_erase_ne same]
                exact ih.with txnId rid mode manager.lockTable other
      | releaseAll txnId =>
          intro other
          have members := ih other
          rw [waits] at members
          rw [LockCall.run, waits, lookup_waitsFor_releaseAll]
          split_ifs
          · exact List.nodup_nil
          · rcases found : manager.waitsFor.lookup other with _ | wanted
            · exact List.nodup_nil
            · rw [found] at members
              exact members.filter _

/-- A request is refused because of the search in the graph with its wait. -/
theorem hasCycle_of_refused {message : String}
    (refused : (manager.acquire order txnId rid mode).1 = .error message) :
    ∃ lockTable, hasCycle order txnId ⟨lockTable, manager.waitsForWith txnId rid mode⟩ = true := by
  have same : (manager.setQueue rid (manager.queue rid)).queue rid = manager.queue rid := by
    rw [queue_setQueue, if_pos rfl]
  have enqueued
      (refused : ((manager.setQueue rid (manager.queue rid)).enqueue order txnId rid mode).1 =
        .error message) :
      ∃ lockTable, hasCycle order txnId ⟨lockTable, manager.waitsForWith txnId rid mode⟩ =
        true := by
    rw [enqueue, same] at refused
    dsimp only at refused
    split at refused
    next => simp at refused
    next cannot =>
      split at refused
      next found =>
        rw [Bool.not_eq_true] at cannot
        rw [cannot] at found
        exact ⟨_, found⟩
      next => simp at refused
  rw [acquire] at refused
  dsimp only at refused
  split_ifs at refused
  · exact enqueued refused
  · exact enqueued refused

/-- The search is exact if and only if a cycle can be reached or no two transactions on its way
wait for the same one. A deadlock that `acquire` reports is one under the same condition. -/
theorem hasCycle_exact_iff (order : SetOrder) :
    (∀ (manager : LockManager) (start : UInt32), manager.HasSets →
      ((manager.hasCycle order start = true ↔ ReachesCycle (Edge manager.waitsFor) start) ↔
        ReachesCycle (Edge manager.waitsFor) start ∨ ¬Converges (Edge manager.waitsFor) start)) ∧
    ∀ (manager : LockManager) (txnId : UInt32) (rid : Rid) (mode : LockMode) (message : String),
      Reachable manager → (manager.acquire order txnId rid mode).1 = .error message →
      (TransGen (Edge (manager.waitsForWith txnId rid mode)) txnId txnId ↔
        ReachesCycle (Edge (manager.waitsForWith txnId rid mode)) txnId ∨
          ¬Converges (Edge (manager.waitsForWith txnId rid mode)) txnId) := by
  refine ⟨fun manager start sets => ?_, ?_⟩
  · rw [hasCycle_iff sets]
    tauto
  · intro manager txnId rid mode message reachable refused
    rcases hasCycle_of_refused refused with ⟨lockTable, found⟩
    rw [hasCycle_iff (reachable.hasSets.with txnId rid mode lockTable)] at found
    refine ⟨fun cycle => .inl ⟨txnId, .refl, cycle⟩, fun condition => ?_⟩
    have reaches : ReachesCycle (Edge (manager.waitsForWith txnId rid mode)) txnId :=
      condition.elim id fun apart => found.resolve_right apart
    by_contra free
    -- without the wait there was no cycle, so one that there is leads through the transaction
    have acyclic : Acyclic (Edge (manager.waitsForWith txnId rid mode)) := by
      apply reachable.acyclic.redirect free
      intro waiter holder differ edge
      rwa [waitsForWith, edge_insert, if_neg differ] at edge
    rcases reaches with ⟨node, -, cycle⟩
    exact acyclic node cycle

/-- A refused request leaves no trace if and only if its transaction waited for nothing before: it
had no waiting request in the queue and no wait set. -/
theorem refused_unchanged_iff {message : String}
    (refused : (manager.acquire order txnId rid mode).1 = .error message) :
    ((∀ other, ((manager.acquire order txnId rid mode).2.queue other).requests =
        (manager.queue other).requests) ∧
      ∀ other, (manager.acquire order txnId rid mode).2.waits other = manager.waits other) ↔
    (∀ request ∈ (manager.queue rid).requests, request.txnId = txnId → request.granted = true) ∧
      manager.waits txnId = [] := by
  rcases acquire_spec order manager txnId rid mode with ⟨queue, acquires, others⟩
  simp only [others, waits]
  rw [refused] at acquires
  generalize (manager.acquire order txnId rid mode).2.waitsFor = waitsFor at acquires
  cases acquires with
  | deadlock =>
      refine and_congr ?_ ?_
      · constructor
        · intro same request inside isOwn
          have kept := same rid
          rw [if_pos rfl, dropWaiting, List.filter_eq_self] at kept
          simpa [isOwn] using kept request inside
        · intro granted other
          split_ifs with isRid
          · rw [isRid, dropWaiting, List.filter_eq_self]
            intro request inside
            by_cases isOwn : request.txnId = txnId
            · simp [isOwn, granted request inside isOwn]
            · simp [isOwn]
          · rfl
      · constructor
        · intro same
          rw [← same txnId, AList.lookup_erase]
          rfl
        · intro nothing other
          by_cases isOwn : other = txnId
          · rw [isOwn, nothing, AList.lookup_erase]
            rfl
          · rw [AList.lookup_erase_ne isOwn, AList.lookup_insert_ne isOwn]

end VenomDb.LockManager

namespace VenomDb.Sample

open LockManager Relation VenomDb.Graph

/-- Transactions 2 and 3 share row 1 and wait for row 0, which transaction 4 holds. -/
def sharedByTwo : LockManager :=
  LockManager.new.runCalls
    [.acquire .ofInsertion 4 ⟨0, 0⟩ .exclusive, .acquire .ofInsertion 2 ⟨0, 1⟩ .shared,
      .acquire .ofInsertion 3 ⟨0, 1⟩ .shared, .acquire .ofInsertion 2 ⟨0, 0⟩ .shared,
      .acquire .ofInsertion 3 ⟨0, 0⟩ .shared]

theorem reachable_runCalls (calls : List LockCall) :
    Reachable (LockManager.new.runCalls calls) := by
  suffices ∀ manager : LockManager, Reachable manager → Reachable (manager.runCalls calls) from
    this _ .new
  induction calls with
  | nil => exact fun _ reachable => reachable
  | cons call calls ih => exact fun manager reachable => ih _ (.step call reachable)

theorem not_reachesCycle_of_lt {waitsFor : AList fun _ : UInt32 => List UInt32}
    (rising : waitsFor.keys.all fun waiter =>
      ((waitsFor.lookup waiter).getD []).all fun holder => waiter < holder) (start : UInt32) :
    ¬ReachesCycle (Edge waitsFor) start := by
  have less : ∀ waiter holder, Edge waitsFor waiter holder → waiter < holder := by
    intro waiter holder edge
    have isKey : waiter ∈ waitsFor.keys := by
      rw [← AList.mem_keys, ← AList.lookup_isSome]
      cases found : waitsFor.lookup waiter with
      | none => simp [Edge, found] at edge
      | some members => rfl
    simpa using List.all_eq_true.mp (List.all_eq_true.mp rising waiter isKey) holder edge
  rintro ⟨node, -, cycle⟩
  have rises : TransGen (· < ·) node node := TransGen.mono less node node cycle
  rw [transGen_eq_self] at rises
  exact UInt32.lt_irrefl node rises

/-- Transaction 1 asks for row 1 and is told of a deadlock, but nobody waits for it. -/
theorem deadlock_imagined :
    Reachable sharedByTwo ∧
      (sharedByTwo.acquire .ofInsertion 1 ⟨0, 1⟩ .exclusive).1 =
        .error "deadlock detected: txn 1 is in a wait cycle" ∧
      hasCycle .ofInsertion 1
        ⟨sharedByTwo.lockTable, sharedByTwo.waitsForWith 1 ⟨0, 1⟩ .exclusive⟩ = true ∧
      ¬ReachesCycle (Edge (sharedByTwo.waitsForWith 1 ⟨0, 1⟩ .exclusive)) 1 ∧
      ¬TransGen (Edge (sharedByTwo.waitsForWith 1 ⟨0, 1⟩ .exclusive)) 1 1 := by
  have free := @not_reachesCycle_of_lt (sharedByTwo.waitsForWith 1 ⟨0, 1⟩ .exclusive)
    (by decide) 1
  exact ⟨reachable_runCalls _, rfl, by decide, free, fun cycle => free ⟨1, .refl, cycle⟩⟩

/-- Transaction 1 holds row 0, which transaction 2 waits for; transaction 1 cannot get row 1 from
transaction 2. -/
def waitingForEachOther : LockManager :=
  LockManager.new.runCalls
    [.acquire .ofInsertion 1 ⟨0, 0⟩ .exclusive, .acquire .ofInsertion 2 ⟨0, 1⟩ .exclusive,
      .acquire .ofInsertion 2 ⟨0, 0⟩ .exclusive]

theorem hasCycle_exact_waitingForEachOther :
    (waitingForEachOther.hasCycle .ofInsertion 2 = true ↔
      ReachesCycle (Edge waitingForEachOther.waitsFor) 2) ∧
    TransGen (Edge (waitingForEachOther.waitsForWith 1 ⟨0, 1⟩ .exclusive)) 1 1 := by
  have reachable : Reachable waitingForEachOther := reachable_runCalls _
  have never : waitingForEachOther.hasCycle .ofInsertion 2 = false := by decide
  rcases hasCycle_exact_iff .ofInsertion with ⟨answers, reported⟩
  refine ⟨(answers _ 2 reachable.hasSets).mpr (.inr fun twice => ?_), ?_⟩
  · have found := (hasCycle_iff reachable.hasSets .ofInsertion 2).mpr (.inr twice)
    rw [never] at found
    contradiction
  · refine (reported _ 1 ⟨0, 1⟩ .exclusive _ reachable rfl).mpr (.inl ⟨1, .refl, ?_⟩)
    exact .head (show Edge (waitingForEachOther.waitsForWith 1 ⟨0, 1⟩ .exclusive) 1 2 by
      rw [Edge]; decide) (.single (by rw [Edge]; decide))

theorem refused_unchanged_waitingForEachOther :
    (∀ other, ((waitingForEachOther.acquire .ofInsertion 1 ⟨0, 1⟩ .exclusive).2.queue
        other).requests = (waitingForEachOther.queue other).requests) ∧
      ∀ other, (waitingForEachOther.acquire .ofInsertion 1 ⟨0, 1⟩ .exclusive).2.waits other =
        waitingForEachOther.waits other :=
  (refused_unchanged_iff (show (waitingForEachOther.acquire .ofInsertion 1 ⟨0, 1⟩ .exclusive).1 =
    .error "deadlock detected: txn 1 is in a wait cycle" from rfl)).mpr
    ⟨by decide, by decide⟩

/-- Transaction 2 waits for transaction 1, and transaction 3 for transaction 2. -/
def waitingForWaiting : LockManager :=
  LockManager.new.runCalls
    [.acquire .ofInsertion 1 ⟨0, 0⟩ .exclusive, .acquire .ofInsertion 2 ⟨0, 1⟩ .exclusive,
      .acquire .ofInsertion 3 ⟨0, 2⟩ .exclusive, .acquire .ofInsertion 2 ⟨0, 0⟩ .exclusive,
      .acquire .ofInsertion 3 ⟨0, 1⟩ .exclusive]

/-- Transaction 2 is refused row 2, and what it waits for is forgotten. -/
theorem wait_forgotten :
    Reachable waitingForWaiting ∧
      (waitingForWaiting.acquire .ofInsertion 2 ⟨0, 2⟩ .exclusive).1 =
        .error "deadlock detected: txn 2 is in a wait cycle" ∧
      waitingForWaiting.waits 2 = [1] ∧
      (waitingForWaiting.acquire .ofInsertion 2 ⟨0, 2⟩ .exclusive).2.waits 2 = [] :=
  ⟨reachable_runCalls _, rfl, by decide, by decide⟩

end VenomDb.Sample
