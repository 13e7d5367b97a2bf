import VenomDb.Concurrency.LockManager

/-!
# What the calls of the lock manager do

An `acquire` ends in one of five ways, a `release_all` treats each queue by itself, and
the wake-up of a queue grants its first request, its shared requests or nothing.
-/

namespace VenomDb

namespace LockQueue

variable {queue : LockQueue} {txnId other : UInt32} {mode : LockMode} {request : LockRequest}

/-- The transaction holds a lock that covers the mode. -/
def Holds (txnId : UInt32) (mode : LockMode) (queue : LockQueue) : Prop :=
  ∃ request ∈ queue.requests, request.txnId = txnId ∧ request.granted = true ∧
    (request.mode = mode ∨ request.mode = .exclusive)

theorem Holds.shared (holds : queue.Holds txnId mode) : queue.Holds txnId .shared := by
  rcases holds with ⟨request, inside, isTxn, granted, -⟩
  refine ⟨request, inside, isTxn, granted, ?_⟩
  cases request.mode
  · exact .inl rfl
  · exact .inr rfl

theorem holds_of_granted (inside : request ∈ queue.requests) (granted : request.granted = true) :
    queue.Holds request.txnId request.mode :=
  ⟨request, inside, rfl, granted, .inl rfl⟩

theorem holds_shared_iff :
    queue.Holds txnId .shared ↔
      ∃ request ∈ queue.requests, request.txnId = txnId ∧ request.granted = true := by
  constructor
  · rintro ⟨request, inside, isTxn, granted, -⟩
    exact ⟨request, inside, isTxn, granted⟩
  · rintro ⟨request, inside, rfl, granted⟩
    exact (holds_of_granted inside granted).shared

/-- The lock modes of two transactions on one row that exclude each other. -/
def Conflict (first second : LockMode) : Prop := first = .exclusive ∨ second = .exclusive

/-- No lock of another transaction stands against the mode. -/
def Free (txnId : UInt32) (mode : LockMode) (queue : LockQueue) : Prop :=
  ∀ request ∈ queue.requests, request.granted = true → request.txnId ≠ txnId →
    ¬Conflict mode request.mode

theorem any_granted :
    (queue.requests.any fun request => request.txnId = txnId && request.granted) = true ↔
      queue.Holds txnId .shared := by
  simp [holds_shared_iff, List.any_eq_true]

theorem any_exclusive :
    (queue.requests.any fun request =>
      request.txnId = txnId && request.granted && request.mode = .exclusive) = true ↔
      queue.Holds txnId .exclusive := by
  simp [Holds, List.any_eq_true, and_assoc]

theorem canGrant_iff :
    queue.canGrant txnId mode = true ↔ queue.Holds txnId .exclusive ∨ queue.Free txnId mode := by
  rw [canGrant]
  dsimp only
  split
  next already =>
    simp only [true_iff]
    exact .inl (any_exclusive.mp already)
  next already =>
    have notHeld : ¬queue.Holds txnId .exclusive := fun holds => already (any_exclusive.mpr holds)
    simp only [notHeld, false_or]
    cases mode with
    | shared =>
        simp only [grantedCounts, decide_eq_true_eq, List.countP_eq_zero, Bool.and_eq_true,
          not_and, Free, Conflict]
        constructor
        · intro none request inside granted _ conflict
          exact none request inside granted (by simpa using conflict)
        · intro free request inside granted isExclusive
          by_cases isTxn : request.txnId = txnId
          · exact notHeld ⟨request, inside, isTxn, granted, .inr isExclusive⟩
          · exact free request inside granted isTxn (.inr isExclusive)
    | exclusive =>
        simp [Free, Conflict]

section WakeUp

/-- A wake-up that grants every shared request. -/
def grantShared (request : LockRequest) : LockRequest :=
  if request.mode = .shared then { request with granted := true } else request

@[simp]
theorem grantShared_txnId (request : LockRequest) :
    (grantShared request).txnId = request.txnId := by
  rw [grantShared]
  split <;> rfl

@[simp]
theorem grantShared_mode (request : LockRequest) :
    (grantShared request).mode = request.mode := by
  rw [grantShared]
  split <;> rfl

theorem grantShared_granted (request : LockRequest) :
    (grantShared request).granted = true ↔ request.granted = true ∨ request.mode = .shared := by
  rw [grantShared]
  split
  next isShared => simp [isShared]
  next isExclusive => simp [isExclusive]

theorem grantShared_of_granted (granted : request.granted = true) :
    grantShared request = request := by
  rw [grantShared]
  split
  next => rw [← granted]
  next => rfl

variable {requests : List LockRequest} {shared exclusive : ℕ}

/-- Nothing is granted beside an exclusive lock. -/
theorem grantLoop_exclusive (held : 0 < exclusive) :
    grantLoop shared exclusive requests = requests := by
  induction requests with
  | nil => rfl
  | cons request requests ih =>
      have notFree : exclusive ≠ 0 := by omega
      rw [grantLoop]
      split
      next => rw [ih]
      next => split <;> simp [notFree, ih]

/-- Only shared requests are granted beside a shared lock. -/
theorem grantLoop_shared (held : 0 < shared) :
    grantLoop shared 0 requests = requests.map grantShared := by
  induction requests generalizing shared with
  | nil => rfl
  | cons request requests ih =>
      rw [grantLoop, List.map_cons]
      split
      next granted => rw [ih held, grantShared_of_granted granted]
      next =>
        split
        next isShared => simp [ih (Nat.succ_pos shared), grantShared, isShared]
        next isExclusive =>
          have notFree : shared ≠ 0 := by omega
          simp [ih held, grantShared, isExclusive, notFree]

/-- What a wake-up makes of the requests of a queue. -/
inductive Wakes : List LockRequest → List LockRequest → Prop
  | nothing {requests : List LockRequest} {holder : LockRequest} :
      holder ∈ requests → holder.granted = true → holder.mode = .exclusive →
      Wakes requests requests
  | shared {requests : List LockRequest} :
      (∀ request ∈ requests, request.granted = true → request.mode = .shared) →
      (∀ first rest, requests = first :: rest → first.mode = .exclusive →
        ∃ request ∈ requests, request.granted = true) →
      Wakes requests (requests.map grantShared)
  | exclusive {first : LockRequest} {rest : List LockRequest} :
      first.mode = .exclusive → (∀ request ∈ first :: rest, request.granted = false) →
      Wakes (first :: rest) ({ first with granted := true } :: rest)

theorem grantWaiting_wakes : Wakes queue.requests queue.grantWaiting.requests := by
  rw [grantWaiting, grantedCounts]
  dsimp only
  by_cases held : ∃ holder ∈ queue.requests, holder.granted = true ∧ holder.mode = .exclusive
  · rcases held with ⟨holder, inside, granted, isExclusive⟩
    rw [grantLoop_exclusive (List.countP_pos_iff.mpr
      ⟨holder, inside, by simp [granted, isExclusive]⟩)]
    exact .nothing inside granted isExclusive
  · have noExclusive : (queue.requests.countP fun request =>
        request.granted && request.mode = .exclusive) = 0 := by
      rw [List.countP_eq_zero]
      intro request inside both
      exact held ⟨request, inside, by simpa using both⟩
    have allShared : ∀ request ∈ queue.requests, request.granted = true →
        request.mode = .shared := by
      intro request inside granted
      cases mode : request.mode with
      | shared => rfl
      | exclusive => exact absurd ⟨request, inside, granted, mode⟩ held
    rw [noExclusive]
    by_cases some : ∃ holder ∈ queue.requests, holder.granted = true
    · rcases some with ⟨holder, inside, granted⟩
      rw [grantLoop_shared (List.countP_pos_iff.mpr
        ⟨holder, inside, by simp [granted, allShared holder inside granted]⟩)]
      exact .shared allShared fun _ _ _ _ => ⟨holder, inside, granted⟩
    · have waiting : ∀ request ∈ queue.requests, request.granted = false := by
        intro request inside
        simpa using fun granted => some ⟨request, inside, granted⟩
      have noShared : (queue.requests.countP fun request =>
          request.granted && request.mode = .shared) = 0 := by
        rw [List.countP_eq_zero]
        intro request inside
        simp [waiting request inside]
      rw [noShared]
      cases same : queue.requests with
      | nil => exact .shared (by simp) (by simp)
      | cons first rest =>
          rw [same] at waiting
          have fresh := waiting first (by simp)
          rw [grantLoop, if_neg (by simp [fresh])]
          split
          next isShared =>
            rw [if_pos rfl, grantLoop_shared (by omega)]
            have head : { first with granted := true } = grantShared first := by
              rw [grantShared, if_pos isShared]
            rw [head, ← List.map_cons]
            apply Wakes.shared
            · rw [← same]
              exact allShared
            · intro other others split isExclusive
              cases split
              rw [isShared] at isExclusive
              contradiction
          next isExclusive =>
            rw [if_pos ⟨rfl, rfl⟩, grantLoop_exclusive (by omega)]
            exact .exclusive isExclusive waiting

end WakeUp

end LockQueue

namespace LockManager

open LockQueue Relation

variable {manager : LockManager} {order : SetOrder} {txnId waiter holder : UInt32} {rid : Rid}
  {mode : LockMode}

/-- One transaction waits for another in the graph. -/
def Edge (waitsFor : AList fun _ : UInt32 => List UInt32) (waiter holder : UInt32) : Prop :=
  holder ∈ (waitsFor.lookup waiter).getD []

theorem queue_setQueue (rid other : Rid) (queue : LockQueue) (manager : LockManager) :
    (manager.setQueue rid queue).queue other = if other = rid then queue else manager.queue
      other := by
  rw [LockManager.queue, setQueue]
  split
  next same =>
    subst same
    rw [AList.lookup_insert]
    rfl
  next differ =>
    rw [AList.lookup_insert_ne differ]
    rfl

@[simp]
theorem waitsFor_setQueue (rid : Rid) (queue : LockQueue) (manager : LockManager) :
    (manager.setQueue rid queue).waitsFor = manager.waitsFor :=
  rfl

theorem holdsLock_iff :
    manager.holdsLock txnId rid mode = true ↔ (manager.queue rid).Holds txnId mode := by
  rw [holdsLock, LockManager.queue]
  cases manager.lockTable.lookup rid with
  | none => simp [Holds, LockQueue.new]
  | some queue => simp [Holds, and_assoc]

theorem mem_nodes (edge : Edge manager.waitsFor waiter holder) :
    waiter ∈ manager.nodes ∧ holder ∈ manager.nodes := by
  have isKey : waiter ∈ manager.waitsFor.keys := by
    rw [← AList.mem_keys, ← AList.lookup_isSome]
    cases found : manager.waitsFor.lookup waiter with
    | none => simp [Edge, found] at edge
    | some members => rfl
  refine ⟨List.mem_append_left _ isKey, List.mem_append_right _ ?_⟩
  exact List.mem_flatMap.mpr ⟨waiter, isKey, edge⟩

theorem mem_walk (order : SetOrder) :
    holder ∈ order.walk (manager.waits waiter) ↔ Edge manager.waitsFor waiter holder :=
  (order.walk_perm _).mem_iff

/-- The search has fuel for an answer. -/
theorem search_eq_hasCycle (order : SetOrder) (txnId : UInt32) (manager : LockManager) :
    Graph.meetsTwice (fun txnId => order.walk (manager.waits txnId)) (manager.nodes.length + 2) []
      [txnId] = some (manager.hasCycle order txnId) := by
  have answer : (Graph.meetsTwice (fun txnId => order.walk (manager.waits txnId))
      (manager.nodes.length + 2) [] [txnId]).isSome := by
    apply Graph.meetsTwice_isSome (txnId :: manager.nodes)
    · intro waiter _ holder edge
      exact List.mem_cons_of_mem _ (mem_nodes ((mem_walk order).mp edge)).2
    · simp
    · refine lt_of_le_of_lt (List.length_filter_le _ _) ?_
      rw [List.length_cons]
      omega
  rcases Option.isSome_iff_exists.mp answer with ⟨found, search⟩
  rw [hasCycle, search, Option.getD_some]

/-- When the search finds nothing, the transaction does not wait for itself. -/
theorem not_transGen_of_hasCycle (none : manager.hasCycle order txnId = false) :
    ¬TransGen (Edge manager.waitsFor) txnId txnId := by
  have search := search_eq_hasCycle order txnId manager
  rw [none] at search
  simpa only [mem_walk] using Graph.not_transGen_of_meetsTwice search

theorem mem_blockers {queue : LockQueue} :
    holder ∈ (queue.pushBack ⟨txnId, mode, false⟩).blockers txnId ↔
      holder ≠ txnId ∧ queue.Holds holder .shared := by
  rw [holds_shared_iff]
  simp only [blockers, pushBack, List.mem_dedup, List.mem_map, List.mem_filter, List.mem_append,
    List.mem_singleton, Bool.and_eq_true, decide_eq_true_eq]
  constructor
  · rintro ⟨request, ⟨inside | rfl, granted, isOther⟩, rfl⟩
    · exact ⟨isOther, request, inside, rfl, granted⟩
    · contradiction
  · rintro ⟨isOther, request, inside, rfl, granted⟩
    exact ⟨request, ⟨.inl inside, granted, isOther⟩, rfl⟩

/-- How an `acquire` ends, for the queue of its row and the waits-for graph. -/
inductive Acquires (txnId : UInt32) (mode : LockMode) (queue : LockQueue)
    (waitsFor : AList fun _ : UInt32 => List UInt32) :
    Except String Bool → LockQueue → (AList fun _ : UInt32 => List UInt32) → Prop
  | held : queue.Holds txnId mode → Acquires txnId mode queue waitsFor (.ok true) queue waitsFor
  | upgraded : mode = .exclusive → queue.Holds txnId .shared → queue.Free txnId .exclusive →
      ¬queue.Holds txnId .exclusive →
      Acquires txnId mode queue waitsFor (.ok true) (queue.upgrade txnId) waitsFor
  | granted : ¬queue.Holds txnId .shared → queue.Free txnId mode →
      Acquires txnId mode queue waitsFor (.ok true) (queue.pushBack ⟨txnId, mode, true⟩) waitsFor
  | queued : ¬queue.Holds txnId mode → ¬queue.Free txnId mode →
      ¬TransGen (Edge (waitsFor.insert txnId
        ((queue.pushBack ⟨txnId, mode, false⟩).blockers txnId))) txnId txnId →
      Acquires txnId mode queue waitsFor (.ok false) (queue.pushBack ⟨txnId, mode, false⟩)
        (waitsFor.insert txnId ((queue.pushBack ⟨txnId, mode, false⟩).blockers txnId))
  | deadlock (message : String) : ¬queue.Holds txnId mode → ¬queue.Free txnId mode →
      Acquires txnId mode queue waitsFor (.error message) (queue.dropWaiting txnId)
        ((waitsFor.insert txnId
          ((queue.pushBack ⟨txnId, mode, false⟩).blockers txnId)).erase txnId)

theorem dropWaiting_pushBack (txnId : UInt32) (mode : LockMode) (queue : LockQueue) :
    (queue.pushBack ⟨txnId, mode, false⟩).dropWaiting txnId = queue.dropWaiting txnId := by
  simp [dropWaiting, pushBack]

theorem enqueue_spec (order : SetOrder) (manager : LockManager)
    (lacks : ¬(manager.queue rid).Holds txnId mode)
    (notUpgrade : (manager.queue rid).Holds txnId .shared →
      ¬(manager.queue rid).Free txnId mode) :
    ∃ queue, Acquires txnId mode (manager.queue rid) manager.waitsFor
        (manager.enqueue order txnId rid mode).1 queue
        (manager.enqueue order txnId rid mode).2.waitsFor ∧
      ∀ other, (manager.enqueue order txnId rid mode).2.queue other =
        if other = rid then queue else manager.queue other := by
  have notExclusive : ¬(manager.queue rid).Holds txnId .exclusive := by
    rintro ⟨request, inside, isTxn, granted, isExclusive⟩
    exact lacks ⟨request, inside, isTxn, granted, .inr (by simpa using isExclusive)⟩
  rw [enqueue]
  dsimp only
  by_cases can : (manager.queue rid).canGrant txnId mode = true
  · have free := (canGrant_iff.mp can).resolve_left notExclusive
    rw [can, if_pos rfl]
    exact ⟨_, .granted (fun holds => notUpgrade holds free) free, fun other =>
      queue_setQueue rid other _ manager⟩
  · have notFree : ¬(manager.queue rid).Free txnId mode := fun free =>
      can (canGrant_iff.mpr (.inr free))
    rw [Bool.not_eq_true] at can
    rw [can, if_neg (by simp)]
    split
    next =>
      refine ⟨_, .deadlock _ lacks notFree, ?_⟩
      intro other
      change ((manager.setQueue rid _).setQueue rid _).queue other = _
      rw [queue_setQueue, queue_setQueue, dropWaiting_pushBack]
      split_ifs <;> rfl
    next acyclic =>
      refine ⟨_, .queued lacks notFree ?_, fun other => queue_setQueue rid other _ manager⟩
      exact not_transGen_of_hasCycle (Bool.not_eq_true _ ▸ acyclic)

theorem acquire_spec (order : SetOrder) (manager : LockManager) (txnId : UInt32) (rid : Rid)
    (mode : LockMode) :
    ∃ queue, Acquires txnId mode (manager.queue rid) manager.waitsFor
        (manager.acquire order txnId rid mode).1 queue
        (manager.acquire order txnId rid mode).2.waitsFor ∧
      ∀ other, (manager.acquire order txnId rid mode).2.queue other =
        if other = rid then queue else manager.queue other := by
  let entered := manager.setQueue rid (manager.queue rid)
  have same (other : Rid) : entered.queue other = manager.queue other := by
    rw [queue_setQueue]
    split
    next isRid => rw [isRid]
    next => rfl
  have kept (other : Rid) :
      entered.queue other = if other = rid then manager.queue rid else manager.queue other :=
    queue_setQueue rid other _ manager
  have enqueued := @enqueue_spec txnId rid mode order entered
  simp only [same] at enqueued
  rw [acquire]
  dsimp only
  by_cases holds : (manager.queue rid).Holds txnId .shared
  · rw [if_pos (any_granted.mpr holds)]
    cases mode with
    | shared =>
        rw [if_neg (by simp)]
        exact ⟨_, .held holds, kept⟩
    | exclusive =>
        rw [if_pos rfl]
        by_cases already : (manager.queue rid).Holds txnId .exclusive
        · rw [if_pos (any_exclusive.mpr already)]
          exact ⟨_, .held already, kept⟩
        · rw [if_neg (fun any => already (any_exclusive.mp any))]
          by_cases can : (manager.queue rid).canGrant txnId .exclusive = true
          · rw [if_pos can]
            refine ⟨_, .upgraded rfl holds ((canGrant_iff.mp can).resolve_left already) already, ?_⟩
            intro other
            rw [queue_setQueue, same]
          · rw [if_neg can]
            exact enqueued already fun _ free => can (canGrant_iff.mpr (.inr free))
  · rw [if_neg (fun any => holds (any_granted.mp any))]
    exact enqueued (fun held => holds held.shared) fun held => absurd held holds

theorem queue_tryGrantWaiting (rid other : Rid) (manager : LockManager) :
    (manager.tryGrantWaiting rid).queue other =
      if other = rid then (manager.queue rid).grantWaiting else manager.queue other := by
  rw [tryGrantWaiting]
  cases found : manager.lockTable.lookup rid with
  | none =>
      dsimp only
      split
      next same =>
        rw [same, LockManager.queue, found]
        rfl
      next => rfl
  | some queue =>
      dsimp only
      rw [queue_setQueue]
      split
      next =>
        rw [LockManager.queue, found]
        rfl
      next => rfl

theorem queue_releaseRid (txnId : UInt32) (rid other : Rid) (manager : LockManager) :
    (manager.releaseRid txnId rid).queue other =
      if other = rid then ((manager.queue rid).dropAll txnId).grantWaiting
      else manager.queue other := by
  rw [releaseRid, queue_tryGrantWaiting, queue_setQueue, queue_setQueue, if_pos rfl]
  split_ifs <;> rfl

theorem queue_foldl_releaseRid (txnId : UInt32) (manager : LockManager) {rids : List Rid}
    (distinct : rids.Nodup) (other : Rid) :
    (rids.foldl (releaseRid txnId) manager).queue other =
      if other ∈ rids then ((manager.queue other).dropAll txnId).grantWaiting
      else manager.queue other := by
  induction rids generalizing manager with
  | nil => simp
  | cons rid rids ih =>
      rw [List.nodup_cons] at distinct
      rw [List.foldl_cons, ih _ distinct.2, queue_releaseRid]
      by_cases same : other = rid
      · subst same
        simp [distinct.1]
      · simp [same]

theorem waitsFor_foldl_releaseRid (rids : List Rid) :
    (rids.foldl (releaseRid txnId) manager).waitsFor = manager.waitsFor := by
  induction rids generalizing manager with
  | nil => rfl
  | cons rid rids ih =>
      rw [List.foldl_cons, ih, releaseRid, tryGrantWaiting]
      split <;> rfl

theorem queue_releaseAll (txnId : UInt32) (rid : Rid) (manager : LockManager) :
    (manager.releaseAll txnId).queue rid = ((manager.queue rid).dropAll txnId).grantWaiting := by
  refine (queue_foldl_releaseRid txnId manager manager.lockTable.keys_nodup rid).trans ?_
  split
  next => rfl
  next missing =>
    rw [← AList.mem_keys, ← AList.lookup_eq_none] at missing
    rw [LockManager.queue, missing]
    rfl

theorem lookup_waitsFor_releaseAll :
    (manager.releaseAll txnId).waitsFor.lookup waiter =
      if waiter = txnId then none
      else (manager.waitsFor.lookup waiter).map fun members => members.filter (· ≠ txnId) := by
  rw [releaseAll]
  dsimp only
  rw [AList.lookup_foldl_insert, LockManager.waits, waitsFor_foldl_releaseRid]
  simp only [← AList.mem_keys, AList.mem_erase]
  by_cases isTxn : waiter = txnId
  · subst isTxn
    simp
  · rw [AList.lookup_erase_ne isTxn, if_neg isTxn]
    cases found : manager.waitsFor.lookup waiter with
    | none => simp [AList.lookup_eq_none.mp found]
    | some members =>
        have isKey : waiter ∈ manager.waitsFor := by
          rw [← AList.lookup_isSome, found]
          rfl
        simp [isTxn, isKey]

theorem edge_releaseAll :
    Edge (manager.releaseAll txnId).waitsFor waiter holder ↔
      waiter ≠ txnId ∧ holder ≠ txnId ∧ Edge manager.waitsFor waiter holder := by
  rw [Edge, lookup_waitsFor_releaseAll, Edge]
  by_cases isTxn : waiter = txnId
  · simp [isTxn]
  · rw [if_neg isTxn]
    cases manager.waitsFor.lookup waiter with
    | none => simp
    | some members => simp [isTxn, and_comm]

end LockManager

end VenomDb
