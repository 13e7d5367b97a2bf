import VenomDb.Concurrency.WakeUp

/-!
# The waits-for graph and real blocking

`acquire` records whom a waiting request waits for once, when it is queued. The graph
covers the real blocking relation, and then there is no deadlock, as long as no shared
lock is granted past a waiting exclusive request and no release hands a lock from one
waiter to another that others wait behind.
-/

namespace VenomDb.LockManager

open LockQueue Relation

variable {manager : LockManager} {txnId : UInt32} {rid : Rid} {mode : LockMode}

/-- The transaction has a request that was not granted yet. -/
def Waiting (txnId : UInt32) (manager : LockManager) : Prop :=
  ∃ rid, ∃ request ∈ (manager.queue rid).requests,
    request.txnId = txnId ∧ request.granted = false

/-- A transaction that waits makes no further request. -/
def Patient (manager : LockManager) : LockCall → Prop
  | .acquire _ txnId _ _ => ¬manager.Waiting txnId
  | .releaseAll _ => True

/-- A waiting request of one transaction conflicts with a lock of another. -/
def Blocks (manager : LockManager) (waiter holder : UInt32) : Prop :=
  waiter ≠ holder ∧ ∃ rid, ∃ request ∈ (manager.queue rid).requests,
    request.txnId = waiter ∧ request.granted = false ∧
      ∃ lock ∈ (manager.queue rid).requests, lock.txnId = holder ∧ lock.granted = true ∧
        Conflict request.mode lock.mode

/-- The waits-for graph has every edge of the real blocking relation. -/
def Covered (manager : LockManager) : Prop :=
  ∀ waiter holder, manager.Blocks waiter holder → Edge manager.waitsFor waiter holder

/-- The condition under which a call leaves the graph covering: an `acquire` grants no shared
lock past a waiting exclusive request, and where a release leaves only waiting requests in a
queue, an exclusive one among them has no other transaction beside it. -/
def Watched (manager : LockManager) : LockCall → Prop
  | .acquire _ txnId rid mode =>
      mode = .shared → ¬(manager.queue rid).Holds txnId .shared →
        (manager.queue rid).Free txnId .shared →
          ∀ request ∈ (manager.queue rid).requests, request.granted = false →
            request.mode = .shared
  | .releaseAll txnId =>
      ∀ rid, (∀ request ∈ ((manager.queue rid).dropAll txnId).requests, request.granted = false) →
        ∀ first ∈ ((manager.queue rid).dropAll txnId).requests,
          ∀ second ∈ ((manager.queue rid).dropAll txnId).requests,
            first.mode = .exclusive → second.txnId = first.txnId

/-- The states that runs lead to whose calls all meet a condition. -/
inductive Run (Meets : LockManager → LockCall → Prop) : LockManager → Prop
  | new : Run Meets LockManager.new
  | step {manager : LockManager} (call : LockCall) : Run Meets manager → Meets manager call →
      Run Meets (call.run manager)

theorem Run.reachable {Meets : LockManager → LockCall → Prop} (run : Run Meets manager) :
    Reachable manager := by
  induction run with
  | new => exact .new
  | step call _ _ ih => exact .step call ih

theorem edge_insert {waitsFor : AList fun _ : UInt32 => List UInt32} {members : List UInt32}
    {waiter holder : UInt32} :
    Edge (waitsFor.insert txnId members) waiter holder ↔
      if waiter = txnId then holder ∈ members else Edge waitsFor waiter holder := by
  rw [Edge]
  split
  next same =>
    rw [same, AList.lookup_insert]
    rfl
  next differ =>
    rw [AList.lookup_insert_ne differ]
    rfl

theorem edge_erase {waitsFor : AList fun _ : UInt32 => List UInt32} {waiter holder : UInt32} :
    Edge (waitsFor.erase txnId) waiter holder ↔ waiter ≠ txnId ∧ Edge waitsFor waiter holder := by
  rw [Edge]
  by_cases same : waiter = txnId
  · subst same
    simp
  · rw [AList.lookup_erase_ne same]
    simp [same, Edge]

/-- There is never a cycle in the waits-for graph. -/
theorem Reachable.acyclic (reachable : Reachable manager) :
    Graph.Acyclic (Edge manager.waitsFor) := by
  induction reachable with
  | new =>
      intro txnId cycle
      rcases TransGen.head'_iff.mp cycle with ⟨holder, edge, -⟩
      simp [Edge, LockManager.new] at edge
  | @step manager call before ih =>
      cases call with
      | acquire order txnId rid mode =>
          rcases acquire_spec order manager txnId rid mode with ⟨queue, acquires, -⟩
          rw [LockCall.run]
          generalize (manager.acquire order txnId rid mode).2.waitsFor = waitsFor at acquires
          generalize (manager.acquire order txnId rid mode).1 = result at acquires
          cases acquires with
          | held => exact ih
          | upgraded => exact ih
          | granted => exact ih
          | queued _ _ free =>
              apply ih.redirect free
              intro waiter holder differ edge
              rwa [edge_insert, if_neg differ] at edge
          | deadlock =>
              apply ih.mono
              intro waiter holder edge
              rcases edge_erase.mp edge with ⟨differ, edge⟩
              rwa [edge_insert, if_neg differ] at edge
      | releaseAll txnId =>
          apply ih.mono
          intro waiter holder edge
          exact (edge_releaseAll.mp edge).2.2

/-- Whoever is waited for holds a lock on the row of the waiting request. -/
def Grounded (manager : LockManager) : Prop :=
  ∀ rid, ∀ request ∈ (manager.queue rid).requests, request.granted = false →
    ∀ holder, Edge manager.waitsFor request.txnId holder → (manager.queue rid).Holds holder .shared

section Acquire

variable {manager' : LockManager} {queue' : LockQueue} {result : Except String Bool}

/-- A request that waits after an `acquire` waited before it, or is the new one. -/
theorem waiting_of_acquires {waitsFor waitsFor' : AList fun _ : UInt32 => List UInt32}
    {queue : LockQueue} {request : LockRequest}
    (acquires : Acquires txnId mode queue waitsFor result queue' waitsFor')
    (patient : ∀ request ∈ queue.requests, request.txnId = txnId → request.granted = true)
    (inside : request ∈ queue'.requests) (waiting : request.granted = false) :
    request ∈ queue.requests ∧ request.txnId ≠ txnId ∨
      request = ⟨txnId, mode, false⟩ ∧ result = .ok false ∧ ¬queue.Free txnId mode := by
  have isOther (isOld : request ∈ queue.requests) : request.txnId ≠ txnId := by
    intro same
    rw [patient request isOld same] at waiting
    contradiction
  cases acquires with
  | held => exact .inl ⟨inside, isOther inside⟩
  | upgraded =>
      rcases mem_upgrade.mp inside with ⟨before, isBefore, rfl⟩
      split at waiting
      next same =>
        rw [patient before isBefore same] at waiting
        contradiction
      next differ =>
        rw [if_neg differ]
        exact .inl ⟨isBefore, differ⟩
  | granted =>
      rcases List.mem_append.mp inside with isOld | isNew
      · exact .inl ⟨isOld, isOther isOld⟩
      · rw [List.mem_singleton.mp isNew] at waiting
        contradiction
  | queued _ notFree =>
      rcases List.mem_append.mp inside with isOld | isNew
      · exact .inl ⟨isOld, isOther isOld⟩
      · exact .inr ⟨List.mem_singleton.mp isNew, rfl, notFree⟩
  | deadlock =>
      have isOld := List.mem_of_mem_filter inside
      exact .inl ⟨isOld, isOther isOld⟩

/-- The edges of the other transactions stay. -/
theorem edge_acquires {waitsFor waitsFor' : AList fun _ : UInt32 => List UInt32}
    {queue : LockQueue} (acquires : Acquires txnId mode queue waitsFor result queue' waitsFor')
    {waiter holder : UInt32} (differ : waiter ≠ txnId) :
    Edge waitsFor' waiter holder ↔ Edge waitsFor waiter holder := by
  cases acquires with
  | held => rfl
  | upgraded => rfl
  | granted => rfl
  | queued => rw [edge_insert, if_neg differ]
  | deadlock =>
      rw [edge_erase, edge_insert, if_neg differ]
      simp [differ]

/-- A transaction that is queued waits for everyone else with a lock. -/
theorem edge_queued {waitsFor waitsFor' : AList fun _ : UInt32 => List UInt32}
    {queue : LockQueue} (acquires : Acquires txnId mode queue waitsFor result queue' waitsFor')
    (isQueued : result = .ok false) {holder : UInt32} :
    Edge waitsFor' txnId holder ↔ holder ≠ txnId ∧ queue.Holds holder .shared := by
  cases acquires with
  | held => simp at isQueued
  | upgraded => simp at isQueued
  | granted => simp at isQueued
  | queued => rw [edge_insert, if_pos rfl, mem_blockers]
  | deadlock => contradiction

/-- The locks of other transactions are the ones from before. -/
theorem lock_of_acquires {waitsFor waitsFor' : AList fun _ : UInt32 => List UInt32}
    {queue : LockQueue} {lock : LockRequest}
    (acquires : Acquires txnId mode queue waitsFor result queue' waitsFor')
    (inside : lock ∈ queue'.requests) (granted : lock.granted = true)
    (differ : lock.txnId ≠ txnId) : lock ∈ queue.requests := by
  have isOld {granted' : Bool}
      (inside : lock ∈ (queue.pushBack ⟨txnId, mode, granted'⟩).requests) :
      lock ∈ queue.requests := by
    rcases List.mem_append.mp inside with isOld | isNew
    · exact isOld
    · rw [List.mem_singleton.mp isNew] at differ
      contradiction
  cases acquires with
  | held => exact inside
  | upgraded =>
      rcases mem_upgrade.mp inside with ⟨before, isBefore, rfl⟩
      split at differ
      next same => exact absurd same differ
      next other =>
        rw [if_neg other]
        exact isBefore
  | granted => exact isOld inside
  | queued => exact isOld inside
  | deadlock => exact List.mem_of_mem_filter inside

/-- A lock that an `acquire` gives its own transaction stands against a waiting request of
another one only if a shared lock was granted past it. -/
theorem own_lock_of_acquires {waitsFor waitsFor' : AList fun _ : UInt32 => List UInt32}
    {queue : LockQueue} {request lock : LockRequest} (orderly : queue.Orderly)
    (acquires : Acquires txnId mode queue waitsFor result queue' waitsFor')
    (inside : request ∈ queue.requests) (waiting : request.granted = false)
    (isLock : lock ∈ queue'.requests) (granted : lock.granted = true)
    (same : lock.txnId = txnId) (conflict : Conflict request.mode lock.mode) :
    (∃ before ∈ queue.requests, before.txnId = txnId ∧ before.granted = true ∧
      Conflict request.mode before.mode) ∨
      mode = .shared ∧ ¬queue.Holds txnId .shared ∧ queue.Free txnId .shared ∧
        request.mode = .exclusive := by
  rcases orderly.blocked request inside waiting with ⟨blocker, isBlocker, blocks, conflict'⟩
  cases acquires with
  | held => exact .inl ⟨lock, isLock, same, granted, conflict⟩
  | upgraded _ _ free =>
      refine .inl ⟨blocker, isBlocker, ?_, blocks, conflict'⟩
      by_contra differ
      exact free blocker isBlocker blocks differ (.inl rfl)
  | granted lacks free =>
      rcases List.mem_append.mp isLock with isOld | isNew
      · exact .inl ⟨lock, isOld, same, granted, conflict⟩
      · rw [List.mem_singleton.mp isNew] at conflict
        cases mode with
        | shared =>
            rcases conflict with isExclusive | isExclusive
            · exact .inr ⟨rfl, lacks, free, isExclusive⟩
            · contradiction
        | exclusive =>
            by_cases own : blocker.txnId = txnId
            · exact absurd (holds_shared_iff.mpr ⟨blocker, isBlocker, own, blocks⟩) lacks
            · exact absurd (.inl rfl) (free blocker isBlocker blocks own)
  | queued =>
      rcases List.mem_append.mp isLock with isOld | isNew
      · exact .inl ⟨lock, isOld, same, granted, conflict⟩
      · rw [List.mem_singleton.mp isNew] at granted
        contradiction
  | deadlock => exact .inl ⟨lock, List.mem_of_mem_filter isLock, same, granted, conflict⟩

variable {order : SetOrder}

theorem granted_of_patient (patient : ¬manager.Waiting txnId) (rid : Rid) :
    ∀ request ∈ (manager.queue rid).requests, request.txnId = txnId → request.granted = true := by
  intro request inside same
  by_contra waiting
  exact patient ⟨rid, request, inside, same, by simpa using waiting⟩

theorem Grounded.acquire (grounded : manager.Grounded) (patient : ¬manager.Waiting txnId)
    (order : SetOrder) (rid : Rid) (mode : LockMode) :
    (manager.acquire order txnId rid mode).2.Grounded := by
  rcases acquire_spec order manager txnId rid mode with ⟨queue, acquires, others⟩
  intro other request inside waiting holder edge
  rw [others other] at inside ⊢
  split at inside
  next same =>
    rw [if_pos same]
    rcases waiting_of_acquires acquires (granted_of_patient patient rid) inside waiting with
      ⟨isOld, differ⟩ | ⟨rfl, queued, -⟩
    · rw [edge_acquires acquires differ] at edge
      exact (grounded rid request isOld waiting holder edge).acquires acquires
    · exact ((edge_queued acquires queued).mp edge).2.acquires acquires
  next differ =>
    rw [if_neg differ]
    have isOther : request.txnId ≠ txnId := by
      intro same
      exact patient ⟨other, request, inside, same, waiting⟩
    rw [edge_acquires acquires isOther] at edge
    exact grounded other request inside waiting holder edge

/-- An `acquire` keeps the graph covering, exactly when it is watched. -/
theorem Covered.acquire_iff (covered : manager.Covered) (grounded : manager.Grounded)
    (orderly : (manager.queue rid).Orderly) (patient : ¬manager.Waiting txnId) :
    (manager.acquire order txnId rid mode).2.Covered ↔
      manager.Watched (.acquire order txnId rid mode) := by
  rcases acquire_spec order manager txnId rid mode with ⟨queue, acquires, others⟩
  constructor
  · intro covered' isShared lacks free request inside waiting
    by_contra notShared
    have isExclusive : request.mode = .exclusive := by
      cases mode : request.mode with
      | shared => exact absurd mode notShared
      | exclusive => rfl
    have differ : request.txnId ≠ txnId := by
      intro same
      exact patient ⟨rid, request, inside, same, waiting⟩
    subst isShared
    have blocks : Blocks (manager.acquire order txnId rid .shared).2 request.txnId txnId := by
      refine ⟨differ, rid, request, ?_⟩
      rw [others rid, if_pos rfl]
      generalize (manager.acquire order txnId rid .shared).2.waitsFor = waitsFor at acquires
      generalize (manager.acquire order txnId rid .shared).1 = result at acquires
      cases acquires with
      | held holds => exact absurd holds lacks
      | upgraded isExclusive => contradiction
      | granted =>
          exact ⟨List.mem_append_left _ inside, rfl, waiting, ⟨txnId, .shared, true⟩,
            List.mem_append_right _ List.mem_cons_self, rfl, rfl, .inl isExclusive⟩
      | queued _ notFree => exact absurd free notFree
      | deadlock _ _ notFree => exact absurd free notFree
    have edge := covered' _ _ blocks
    rw [edge_acquires acquires differ] at edge
    exact lacks (grounded rid request inside waiting txnId edge)
  · rintro watched waiter holder ⟨differ, other, request, inside, rfl, waiting, lock, isLock, rfl,
      granted, conflict⟩
    rw [others other] at inside isLock
    split at inside
    next same =>
      rw [if_pos same] at isLock
      rcases waiting_of_acquires acquires (granted_of_patient patient rid) inside waiting with
        ⟨isOld, isOther⟩ | ⟨rfl, queued, -⟩
      · rw [edge_acquires acquires isOther]
        by_cases own : lock.txnId = txnId
        · rcases own_lock_of_acquires orderly acquires isOld waiting isLock granted own
            conflict with
            ⟨before, isBefore, isTxn, held, conflicts⟩ | ⟨isShared, lacks, free, isExclusive⟩
          · exact covered _ _ ⟨differ, rid, request, isOld, rfl, waiting, before, isBefore,
              isTxn.trans own.symm, held, conflicts⟩
          · have shares := watched isShared lacks free request isOld waiting
            rw [isExclusive] at shares
            contradiction
        · exact covered _ _ ⟨differ, rid, request, isOld, rfl, waiting, lock,
            lock_of_acquires acquires isLock granted own, rfl, granted, conflict⟩
      · have isOld := lock_of_acquires acquires isLock granted differ.symm
        exact (edge_queued acquires queued).mpr
          ⟨differ.symm, (holds_of_granted isOld granted).shared⟩
    next notSame =>
      rw [if_neg notSame] at isLock
      have isOther : request.txnId ≠ txnId := by
        intro same
        exact patient ⟨other, request, inside, same, waiting⟩
      rw [edge_acquires acquires isOther]
      exact covered _ _ ⟨differ, other, request, inside, rfl, waiting, lock, isLock, rfl, granted,
        conflict⟩

end Acquire

section Release

theorem mem_dropAll {queue : LockQueue} {request : LockRequest} :
    request ∈ (queue.dropAll txnId).requests ↔
      request ∈ queue.requests ∧ request.txnId ≠ txnId := by
  simp [dropAll]

theorem Grounded.releaseAll (grounded : manager.Grounded) (txnId : UInt32) :
    (manager.releaseAll txnId).Grounded := by
  intro rid request inside waiting holder edge
  rw [queue_releaseAll] at inside ⊢
  rcases grantWaiting_wakes.before inside with ⟨before, isBefore, -, -, same⟩
  rw [same waiting] at isBefore
  rcases edge_releaseAll.mp edge with ⟨-, differ, edge⟩
  exact (grounded rid request (mem_dropAll.mp isBefore).1 waiting holder edge).release differ

/-- A lock that a wake-up grants is granted where no other lock is held. -/
theorem waiting_of_new_lock {queue : LockQueue} {requests' : List LockRequest} {lock : LockRequest}
    (orderly : queue.Orderly) (wakes : Wakes (queue.dropAll txnId).requests requests')
    (isLock : lock ∈ requests') (granted : lock.granted = true)
    (isNew : lock ∉ (queue.dropAll txnId).requests) :
    (∀ request ∈ (queue.dropAll txnId).requests, request.granted = false) ∧
      ∃ before ∈ (queue.dropAll txnId).requests,
        before.txnId = lock.txnId ∧ before.mode = lock.mode := by
  rcases wakes.before isLock with ⟨before, isBefore, same, sameMode, -⟩
  refine ⟨?_, before, isBefore, same, sameMode⟩
  generalize split : (queue.dropAll txnId).requests = requests at *
  cases wakes with
  | nothing => exact absurd isLock isNew
  | shared allShared =>
      by_contra held
      have held : ∃ holder ∈ requests, holder.granted = true := by simpa using held
      rcases List.mem_map.mp isLock with ⟨source, isSource, rfl⟩
      have shares := orderly.shared_held txnId (by rwa [split]) (by rwa [split]) source
        (by rwa [split])
      have wasGranted : source.granted = true :=
        ((grantShared_granted source).mp granted).elim id shares
      rw [grantShared_of_granted wasGranted] at isNew
      exact isNew isSource
  | exclusive _ waiting => exact waiting

/-- Where only waiting requests are left, one of them exclusive, and not all of one transaction,
one gets the lock and another waits for it. -/
theorem conflict_of_wakes {requests requests' : List LockRequest} {first second : LockRequest}
    (wakes : Wakes requests requests')
    (noneHeld : ∀ request ∈ requests, request.granted = false) (isFirst : first ∈ requests)
    (isSecond : second ∈ requests) (isExclusive : first.mode = .exclusive)
    (differ : second.txnId ≠ first.txnId) :
    ∃ waiter ∈ requests', waiter.granted = false ∧ ∃ lock ∈ requests', lock.granted = true ∧
      waiter.txnId ≠ lock.txnId ∧ Conflict waiter.mode lock.mode := by
  cases wakes with
  | nothing inside granted =>
      rw [noneHeld _ inside] at granted
      contradiction
  | shared _ leads =>
      have waits {request : LockRequest} (inside : request ∈ requests)
          (isExclusive : request.mode = .exclusive) :
          request ∈ requests.map grantShared ∧ request.granted = false := by
        refine ⟨List.mem_map.mpr ⟨request, inside, ?_⟩, noneHeld request inside⟩
        rw [grantShared, if_neg (by simp [isExclusive])]
      have holds {request : LockRequest} (inside : request ∈ requests)
          (isShared : request.mode = .shared) :
          grantShared request ∈ requests.map grantShared ∧ (grantShared request).granted = true :=
        ⟨List.mem_map_of_mem inside, (grantShared_granted request).mpr (.inr isShared)⟩
      cases split : requests with
      | nil =>
          rw [split] at isFirst
          simp at isFirst
      | cons head rest =>
          rw [← split]
          have isHead : head ∈ requests := by simp [split]
          have isShared : head.mode = .shared := by
            cases mode : head.mode with
            | shared => rfl
            | exclusive =>
                rcases leads head rest split mode with ⟨holder, isHolder, granted⟩
                rw [noneHeld holder isHolder] at granted
                contradiction
          by_cases own : first.txnId = head.txnId
          · cases mode : second.mode with
            | shared =>
                exact ⟨first, (waits isFirst isExclusive).1, (waits isFirst isExclusive).2,
                  grantShared second, (holds isSecond mode).1, (holds isSecond mode).2,
                  by simpa using differ.symm, .inl isExclusive⟩
            | exclusive =>
                exact ⟨second, (waits isSecond mode).1, (waits isSecond mode).2,
                  grantShared head, (holds isHead isShared).1, (holds isHead isShared).2,
                  by simpa [← own] using differ, .inl mode⟩
          · exact ⟨first, (waits isFirst isExclusive).1, (waits isFirst isExclusive).2,
              grantShared head, (holds isHead isShared).1, (holds isHead isShared).2,
              by simpa using own, .inl isExclusive⟩
  | @exclusive head rest isExclusive' =>
      have behind {request : LockRequest} (inside : request ∈ head :: rest)
          (apart : request.txnId ≠ head.txnId) :
          ∃ waiter ∈ { head with granted := true } :: rest, waiter.granted = false ∧
            ∃ lock ∈ { head with granted := true } :: rest, lock.granted = true ∧
              waiter.txnId ≠ lock.txnId ∧ Conflict waiter.mode lock.mode := by
        rcases List.mem_cons.mp inside with rfl | later
        · contradiction
        · exact ⟨request, List.mem_cons_of_mem _ later, noneHeld request inside, _,
            List.mem_cons_self, rfl, apart, .inr isExclusive'⟩
      by_cases own : first.txnId = head.txnId
      · exact behind isSecond (own ▸ differ)
      · exact behind isFirst own

/-- A release keeps the graph covering, exactly when it is watched. -/
theorem Covered.releaseAll_iff (covered : manager.Covered) (grounded : manager.Grounded)
    (orderly : ∀ rid, (manager.queue rid).Orderly) :
    (manager.releaseAll txnId).Covered ↔ manager.Watched (.releaseAll txnId) := by
  constructor
  · intro covered' rid noneHeld first isFirst second isSecond isExclusive
    by_contra differ
    -- nobody who holds a lock now held one before, so no edge leads to them
    have unseen {waiter lock : LockRequest}
        (inside : waiter ∈ ((manager.releaseAll txnId).queue rid).requests)
        (waiting : waiter.granted = false)
        (isLock : lock ∈ ((manager.releaseAll txnId).queue rid).requests)
        (granted : lock.granted = true) (differ : waiter.txnId ≠ lock.txnId)
        (conflict : Conflict waiter.mode lock.mode) : False := by
      have edge := covered' _ _
        ⟨differ, rid, waiter, inside, rfl, waiting, lock, isLock, rfl, granted, conflict⟩
      rcases edge_releaseAll.mp edge with ⟨-, isOther, edge⟩
      rw [queue_releaseAll] at inside
      rcases grantWaiting_wakes.before inside with ⟨before, isBefore, -, -, same⟩
      rw [same waiting] at isBefore
      rcases holds_shared_iff.mp
        (grounded rid waiter (mem_dropAll.mp isBefore).1 waiting _ edge) with
        ⟨holder, isHolder, same, held⟩
      have free := noneHeld holder (mem_dropAll.mpr ⟨isHolder, same ▸ isOther⟩)
      rw [held] at free
      contradiction
    rw [queue_releaseAll] at unseen
    rcases conflict_of_wakes grantWaiting_wakes noneHeld isFirst isSecond isExclusive differ with
      ⟨waiter, inside, waiting, lock, isLock, granted, apart, conflict⟩
    exact unseen inside waiting isLock granted apart conflict
  · rintro watched waiter holder ⟨differ, rid, request, inside, rfl, waiting, lock, isLock, rfl,
      granted, conflict⟩
    rw [queue_releaseAll] at inside isLock
    rcases grantWaiting_wakes.before inside with ⟨before, isBefore, -, -, same⟩
    rw [same waiting] at isBefore
    have isOther := (mem_dropAll.mp isBefore).2
    have isOther' : lock.txnId ≠ txnId := txnId_ne_of_release isLock
    refine edge_releaseAll.mpr ⟨isOther, isOther', ?_⟩
    by_cases isOld : lock ∈ ((manager.queue rid).dropAll txnId).requests
    · exact covered _ _ ⟨differ, rid, request, (mem_dropAll.mp isBefore).1, rfl, waiting, lock,
        (mem_dropAll.mp isOld).1, rfl, granted, conflict⟩
    · rcases waiting_of_new_lock (orderly rid) grantWaiting_wakes isLock granted isOld with
        ⟨noneHeld, source, isSource, sameTxn, sameMode⟩
      rw [← sameMode] at conflict
      rw [← sameTxn] at differ
      rcases conflict with isExclusive | isExclusive
      · exact absurd (watched rid noneHeld request isBefore source isSource isExclusive).symm differ
      · exact absurd (watched rid noneHeld source isSource request isBefore isExclusive) differ

end Release

theorem Run.invariants
    (run : Run (fun manager call => manager.Patient call ∧ manager.Watched call) manager) :
    manager.Covered ∧ manager.Grounded := by
  induction run with
  | new =>
      constructor
      · rintro waiter holder ⟨-, rid, request, inside, -⟩
        simp [LockManager.queue, LockManager.new, LockQueue.new] at inside
      · intro rid request inside
        simp [LockManager.queue, LockManager.new, LockQueue.new] at inside
  | @step manager call before meets ih =>
      rcases meets with ⟨patient, watched⟩
      have orderly := before.reachable.orderly
      cases call with
      | acquire order txnId rid mode =>
          exact ⟨(ih.1.acquire_iff ih.2 (orderly rid) patient).mpr watched,
            ih.2.acquire patient order rid mode⟩
      | releaseAll txnId =>
          exact ⟨(ih.1.releaseAll_iff ih.2 orderly).mpr watched, ih.2.releaseAll txnId⟩

/-- In a run of watched calls the graph covers the real blocking relation and nobody is
deadlocked; and the next call keeps it covering exactly when it is watched. -/
theorem Run.covered_iff_watched
    (run : Run (fun manager call => manager.Patient call ∧ manager.Watched call) manager) :
    (manager.Covered ∧ Graph.Acyclic manager.Blocks) ∧
      ∀ call, manager.Patient call →
        ((call.run manager).Covered ∧ Graph.Acyclic (call.run manager).Blocks ↔
          manager.Watched call) := by
  have sound {manager : LockManager} (reachable : Reachable manager) (covered : manager.Covered) :
      Graph.Acyclic manager.Blocks :=
    reachable.acyclic.mono (covered _ _)
  rcases run.invariants with ⟨covered, grounded⟩
  have reachable := run.reachable
  refine ⟨⟨covered, sound reachable covered⟩, ?_⟩
  intro call patient
  have step : (call.run manager).Covered ↔ manager.Watched call := by
    cases call with
    | acquire => exact covered.acquire_iff grounded (reachable.orderly _) patient
    | releaseAll => exact covered.releaseAll_iff grounded reachable.orderly
  rw [← step]
  exact and_iff_left_of_imp (sound (.step call reachable))

end VenomDb.LockManager

namespace VenomDb.Sample

open LockManager LockQueue Relation

theorem not_waiting {manager : LockManager} {txnId : UInt32}
    (granted : manager.lockTable.keys.all fun rid => (manager.queue rid).requests.all fun request =>
      request.txnId ≠ txnId || request.granted) : ¬manager.Waiting txnId := by
  rintro ⟨rid, request, inside, same, waiting⟩
  have isKey : rid ∈ manager.lockTable.keys := by
    rw [← AList.mem_keys, ← AList.lookup_isSome]
    cases found : manager.lockTable.lookup rid with
    | none => simp [LockManager.queue, found, LockQueue.new] at inside
    | some queue => rfl
  have held := List.all_eq_true.mp (List.all_eq_true.mp granted rid isKey) request inside
  simp [same, waiting] at held

/-- Transactions 2 and 3 wait in this order for row 0, and transaction 3 holds row 1. -/
def waitingInLine : LockManager :=
  LockManager.new.runCalls
    [.acquire .ofInsertion 3 ⟨0, 1⟩ .exclusive, .acquire .ofInsertion 1 ⟨0, 0⟩ .exclusive,
      .acquire .ofInsertion 2 ⟨0, 0⟩ .exclusive, .acquire .ofInsertion 3 ⟨0, 0⟩ .exclusive]

/-- Transaction 2 has got row 0; nothing records that transaction 3 now waits for it. -/
def handedOver : LockManager := waitingInLine.releaseAll 1

theorem patient_handedOver : Run Patient handedOver :=
  .step (.releaseAll 1)
    (.step (.acquire .ofInsertion 3 ⟨0, 0⟩ .exclusive)
      (.step (.acquire .ofInsertion 2 ⟨0, 0⟩ .exclusive)
        (.step (.acquire .ofInsertion 1 ⟨0, 0⟩ .exclusive)
          (.step (.acquire .ofInsertion 3 ⟨0, 1⟩ .exclusive) .new (not_waiting (by decide)))
          (not_waiting (by decide)))
        (not_waiting (by decide)))
      (not_waiting (by decide)))
    trivial

/-- Transaction 2 is told to wait for row 1, and now waits for transaction 3, which waits for
transaction 2. -/
theorem deadlock_unseen :
    Run Patient handedOver ∧ handedOver.Patient (.acquire .ofInsertion 2 ⟨0, 1⟩ .exclusive) ∧
      ¬handedOver.Covered ∧
      (handedOver.acquire .ofInsertion 2 ⟨0, 1⟩ .exclusive).1 = .ok false ∧
      ¬Graph.Acyclic (handedOver.acquire .ofInsertion 2 ⟨0, 1⟩ .exclusive).2.Blocks := by
  refine ⟨patient_handedOver, not_waiting (by decide), ?_, by decide, ?_⟩
  · intro covered
    have edge := covered 3 2 ⟨by decide, ⟨0, 0⟩, ⟨3, .exclusive, false⟩, by decide, rfl, rfl,
      ⟨2, .exclusive, true⟩, by decide, rfl, rfl, .inl rfl⟩
    rw [Edge, show handedOver.waitsFor.lookup 3 = some [] by decide] at edge
    simp at edge
  · intro acyclic
    have forward : (handedOver.acquire .ofInsertion 2 ⟨0, 1⟩ .exclusive).2.Blocks 2 3 :=
      ⟨by decide, ⟨0, 1⟩, ⟨2, .exclusive, false⟩, by decide, rfl, rfl,
        ⟨3, .exclusive, true⟩, by decide, rfl, rfl, .inl rfl⟩
    have back : (handedOver.acquire .ofInsertion 2 ⟨0, 1⟩ .exclusive).2.Blocks 3 2 :=
      ⟨by decide, ⟨0, 0⟩, ⟨3, .exclusive, false⟩, by decide, rfl, rfl,
        ⟨2, .exclusive, true⟩, by decide, rfl, rfl, .inl rfl⟩
    exact acyclic 2 (.head forward (.single back))

theorem covered_waitingForRow :
    (waitingForRow.Covered ∧ Graph.Acyclic waitingForRow.Blocks) ∧
      ∀ call, waitingForRow.Patient call →
        ((call.run waitingForRow).Covered ∧ Graph.Acyclic (call.run waitingForRow).Blocks ↔
          waitingForRow.Watched call) :=
  Run.covered_iff_watched
    (.step (.acquire .ofInsertion 2 ⟨0, 0⟩ .shared)
      (.step (.acquire .ofInsertion 1 ⟨0, 0⟩ .exclusive) .new
        ⟨not_waiting (by decide), fun isShared => by contradiction⟩)
      ⟨not_waiting (by decide), fun _ _ free => absurd (.inr rfl)
        (free ⟨1, .exclusive, true⟩ (by decide) rfl (by decide))⟩)

end VenomDb.Sample
