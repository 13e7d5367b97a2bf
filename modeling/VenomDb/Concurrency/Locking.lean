import VenomDb.Concurrency.LockSteps

/-!
# Locks exclude each other and are kept

Over any interleaving of `acquire` and `release_all`: granted locks of different
transactions are compatible, a lock is kept until its transaction releases everything,
and it is known exactly when a wake-up leaves a request behind that could be granted.
-/

namespace VenomDb

namespace LockQueue

variable {queue : LockQueue} {txnId : UInt32} {mode : LockMode}

theorem conflict_comm {first second : LockMode} : Conflict first second ↔ Conflict second first :=
  or_comm

/-- Granted locks of different transactions are compatible, and whoever waits is kept waiting
by a lock. -/
structure Orderly (queue : LockQueue) : Prop where
  compatible : ∀ first ∈ queue.requests, ∀ second ∈ queue.requests,
    first.granted = true → second.granted = true → first.txnId ≠ second.txnId →
      ¬Conflict first.mode second.mode
  blocked : ∀ request ∈ queue.requests, request.granted = false →
    ∃ holder ∈ queue.requests, holder.granted = true ∧ Conflict request.mode holder.mode

theorem orderly_new : LockQueue.new.Orderly where
  compatible := by simp [LockQueue.new]
  blocked := by simp [LockQueue.new]

theorem mem_upgrade {request : LockRequest} :
    request ∈ (queue.upgrade txnId).requests ↔ ∃ before ∈ queue.requests,
      request = if before.txnId = txnId then { before with mode := .exclusive } else before := by
  simp only [upgrade, List.mem_map]
  constructor
  · rintro ⟨before, inside, rfl⟩
    exact ⟨before, inside, rfl⟩
  · rintro ⟨before, inside, rfl⟩
    exact ⟨before, inside, rfl⟩

theorem Orderly.upgrade (free : queue.Free txnId .exclusive)
    (holds : queue.Holds txnId .shared) : (queue.upgrade txnId).Orderly := by
  -- no other transaction holds a lock
  have own : ∀ request ∈ queue.requests, request.granted = true → request.txnId = txnId := by
    intro request inside granted
    by_contra isOther
    exact free request inside granted isOther (.inl rfl)
  constructor
  · intro first isFirst second isSecond firstGranted secondGranted differ
    rcases mem_upgrade.mp isFirst with ⟨first, inside, rfl⟩
    rcases mem_upgrade.mp isSecond with ⟨second, inside', rfl⟩
    have sameFirst := own first inside (by split at firstGranted <;> exact firstGranted)
    have sameSecond := own second inside' (by split at secondGranted <;> exact secondGranted)
    rw [if_pos sameFirst, if_pos sameSecond, sameFirst, sameSecond] at differ
    contradiction
  · intro request inside _
    rcases holds_shared_iff.mp holds with ⟨holder, isHolder, isTxn, granted⟩
    exact ⟨{ holder with mode := .exclusive }, mem_upgrade.mpr ⟨holder, isHolder, by simp [isTxn]⟩,
      granted, .inr rfl⟩

theorem Orderly.pushGranted (orderly : queue.Orderly) (free : queue.Free txnId mode) :
    (queue.pushBack ⟨txnId, mode, true⟩).Orderly := by
  constructor
  · intro first isFirst second isSecond firstGranted secondGranted differ
    rcases List.mem_append.mp isFirst with isOld | isNew
    · rcases List.mem_append.mp isSecond with isOld' | isNew'
      · exact orderly.compatible first isOld second isOld' firstGranted secondGranted differ
      · rw [List.mem_singleton.mp isNew'] at differ ⊢
        rw [conflict_comm]
        exact free first isOld firstGranted differ
    · rw [List.mem_singleton.mp isNew] at differ ⊢
      rcases List.mem_append.mp isSecond with isOld' | isNew'
      · exact free second isOld' secondGranted (Ne.symm differ)
      · rw [List.mem_singleton.mp isNew'] at differ
        contradiction
  · intro request inside waiting
    rcases List.mem_append.mp inside with isOld | isNew
    · rcases orderly.blocked request isOld waiting with ⟨holder, isHolder, granted, conflict⟩
      exact ⟨holder, List.mem_append_left _ isHolder, granted, conflict⟩
    · rw [List.mem_singleton.mp isNew] at waiting
      contradiction

theorem Orderly.pushWaiting (orderly : queue.Orderly) (notFree : ¬queue.Free txnId mode) :
    (queue.pushBack ⟨txnId, mode, false⟩).Orderly := by
  have isOld {request : LockRequest}
      (inside : request ∈ (queue.pushBack ⟨txnId, mode, false⟩).requests)
      (granted : request.granted = true) : request ∈ queue.requests := by
    rcases List.mem_append.mp inside with isOld | isNew
    · exact isOld
    · rw [List.mem_singleton.mp isNew] at granted
      contradiction
  constructor
  · intro first isFirst second isSecond firstGranted secondGranted differ
    exact orderly.compatible first (isOld isFirst firstGranted) second
      (isOld isSecond secondGranted) firstGranted secondGranted differ
  · intro request inside waiting
    rcases List.mem_append.mp inside with isOld | isNew
    · rcases orderly.blocked request isOld waiting with ⟨holder, isHolder, granted, conflict⟩
      exact ⟨holder, List.mem_append_left _ isHolder, granted, conflict⟩
    · rw [List.mem_singleton.mp isNew]
      simp only [Free, not_forall, not_not] at notFree
      rcases notFree with ⟨holder, isHolder, granted, -, conflict⟩
      exact ⟨holder, List.mem_append_left _ isHolder, granted, conflict⟩

theorem Orderly.dropWaiting (orderly : queue.Orderly) (txnId : UInt32) :
    (queue.dropWaiting txnId).Orderly := by
  constructor
  · intro first isFirst second isSecond
    exact orderly.compatible first (List.mem_of_mem_filter isFirst) second
      (List.mem_of_mem_filter isSecond)
  · intro request inside waiting
    rcases orderly.blocked request (List.mem_of_mem_filter inside) waiting with
      ⟨holder, isHolder, granted, conflict⟩
    exact ⟨holder, List.mem_filter.mpr ⟨isHolder, by simp [granted]⟩, granted, conflict⟩

theorem Orderly.acquires {waitsFor waitsFor' : AList fun _ : UInt32 => List UInt32}
    {result : Except String Bool} {queue' : LockQueue} (orderly : queue.Orderly)
    (acquires : LockManager.Acquires txnId mode queue waitsFor result queue' waitsFor') :
    queue'.Orderly := by
  cases acquires with
  | held => exact orderly
  | upgraded _ holds free => exact Orderly.upgrade free holds
  | granted _ free => exact orderly.pushGranted free
  | queued _ notFree => exact orderly.pushWaiting notFree
  | deadlock => exact orderly.dropWaiting txnId

/-- A wake-up keeps granted locks compatible and leaves no request waiting for nothing. -/
theorem Wakes.orderly {requests requests' : List LockRequest} (wakes : Wakes requests requests')
    (compatible : ∀ first ∈ requests, ∀ second ∈ requests, first.granted = true →
      second.granted = true → first.txnId ≠ second.txnId → ¬Conflict first.mode second.mode) :
    Orderly ⟨requests'⟩ := by
  cases wakes with
  | nothing inside granted isExclusive =>
      exact ⟨compatible, fun request _ _ => ⟨_, inside, granted, .inr isExclusive⟩⟩
  | shared allShared leads =>
      have isShared : ∀ request ∈ requests.map grantShared, request.granted = true →
          request.mode = .shared := by
        intro request inside granted
        rcases List.mem_map.mp inside with ⟨before, isBefore, rfl⟩
        rw [grantShared_mode]
        rcases (grantShared_granted before).mp granted with granted | isShared
        · exact allShared before isBefore granted
        · exact isShared
      constructor
      · intro first isFirst second isSecond firstGranted secondGranted _ conflict
        rw [Conflict, isShared first isFirst firstGranted, isShared second isSecond secondGranted]
          at conflict
        simp at conflict
      · intro request inside waiting
        rcases List.mem_map.mp inside with ⟨before, isBefore, rfl⟩
        have notGranted : ¬(before.granted = true ∨ before.mode = .shared) := by
          rw [← grantShared_granted, waiting]
          simp
        have isExclusive : before.mode = .exclusive := by
          cases mode : before.mode with
          | shared => exact absurd (.inr mode) notGranted
          | exclusive => rfl
        have someGranted : ∃ holder ∈ requests, holder.granted = true ∨ holder.mode = .shared := by
          cases requests with
          | nil => simp at isBefore
          | cons first rest =>
              cases mode : first.mode with
              | shared => exact ⟨first, by simp, .inr mode⟩
              | exclusive =>
                  rcases leads first rest rfl mode with ⟨holder, isHolder, granted⟩
                  exact ⟨holder, isHolder, .inl granted⟩
        rcases someGranted with ⟨holder, isHolder, holds⟩
        exact ⟨grantShared holder, List.mem_map_of_mem isHolder,
          (grantShared_granted holder).mpr holds,
          .inl (by rw [grantShared_mode, isExclusive])⟩
  | @exclusive first rest isExclusive waiting =>
      have own : ∀ request ∈ { first with granted := true } :: rest, request.granted = true →
          request.txnId = first.txnId := by
        intro request inside granted
        rcases List.mem_cons.mp inside with rfl | later
        · rfl
        · rw [waiting request (List.mem_cons_of_mem _ later)] at granted
          contradiction
      constructor
      · intro one isOne two isTwo oneGranted twoGranted differ
        rw [own one isOne oneGranted, own two isTwo twoGranted] at differ
        contradiction
      · intro request _ _
        exact ⟨_, List.mem_cons_self, rfl, .inr isExclusive⟩

theorem Orderly.release (orderly : queue.Orderly) (txnId : UInt32) :
    (queue.dropAll txnId).grantWaiting.Orderly := by
  apply grantWaiting_wakes.orderly
  intro first isFirst second isSecond
  exact orderly.compatible first (List.mem_of_mem_filter isFirst) second
    (List.mem_of_mem_filter isSecond)

section Keeping

variable {other : UInt32} {mode' : LockMode} {queue' : LockQueue} {result : Except String Bool}
  {waitsFor waitsFor' : AList fun _ : UInt32 => List UInt32}

theorem Holds.mono (holds : queue.Holds txnId mode)
    (kept : ∀ request ∈ queue.requests, request.granted = true → request ∈ queue'.requests) :
    queue'.Holds txnId mode := by
  rcases holds with ⟨request, inside, isTxn, granted, covers⟩
  exact ⟨request, kept request inside granted, isTxn, granted, covers⟩

theorem Holds.upgrade (holds : queue.Holds other mode) (txnId : UInt32) :
    (queue.upgrade txnId).Holds other mode := by
  rcases holds with ⟨request, inside, isOther, granted, covers⟩
  refine ⟨_, mem_upgrade.mpr ⟨request, inside, rfl⟩, ?_⟩
  split
  next => exact ⟨isOther, granted, .inr rfl⟩
  next => exact ⟨isOther, granted, covers⟩

/-- No `acquire` takes a lock away. -/
theorem Holds.acquires (holds : queue.Holds other mode')
    (acquires : LockManager.Acquires txnId mode queue waitsFor result queue' waitsFor') :
    queue'.Holds other mode' := by
  cases acquires with
  | held => exact holds
  | upgraded => exact holds.upgrade txnId
  | granted => exact holds.mono fun request inside _ => List.mem_append_left _ inside
  | queued => exact holds.mono fun request inside _ => List.mem_append_left _ inside
  | deadlock =>
      apply holds.mono
      intro request inside granted
      exact List.mem_filter.mpr ⟨inside, by simp [granted]⟩

/-- An `acquire` returns `true` exactly when its transaction then holds the lock. -/
theorem holds_of_acquires
    (acquires : LockManager.Acquires txnId mode queue waitsFor result queue' waitsFor') :
    result = .ok true ↔ queue'.Holds txnId mode := by
  cases acquires with
  | held holds => exact iff_of_true rfl holds
  | upgraded isExclusive holds =>
      refine iff_of_true rfl ?_
      rcases holds_shared_iff.mp holds with ⟨request, inside, isTxn, granted⟩
      refine ⟨_, mem_upgrade.mpr ⟨request, inside, rfl⟩, ?_⟩
      rw [if_pos isTxn]
      exact ⟨isTxn, granted, .inr rfl⟩
  | granted =>
      exact iff_of_true rfl ⟨_, List.mem_append_right _ List.mem_cons_self, rfl, rfl, .inl rfl⟩
  | queued lacks =>
      refine iff_of_false (by simp) ?_
      rintro ⟨request, inside, isTxn, granted, covers⟩
      rcases List.mem_append.mp inside with isOld | isNew
      · exact lacks ⟨request, isOld, isTxn, granted, covers⟩
      · rw [List.mem_singleton.mp isNew] at granted
        contradiction
  | deadlock message lacks =>
      refine iff_of_false (by simp) ?_
      rintro ⟨request, inside, isTxn, granted, covers⟩
      exact lacks ⟨request, List.mem_of_mem_filter inside, isTxn, granted, covers⟩

theorem Wakes.kept {requests requests' : List LockRequest} (wakes : Wakes requests requests')
    {request : LockRequest} (inside : request ∈ requests) (granted : request.granted = true) :
    request ∈ requests' := by
  cases wakes with
  | nothing => exact inside
  | shared =>
      rw [← grantShared_of_granted granted]
      exact List.mem_map_of_mem inside
  | exclusive _ waiting =>
      rw [waiting request inside] at granted
      contradiction

/-- A wake-up changes nothing of a request but that it is granted. -/
theorem Wakes.before {requests requests' : List LockRequest} (wakes : Wakes requests requests')
    {request : LockRequest} (inside : request ∈ requests') :
    ∃ before ∈ requests, before.txnId = request.txnId ∧ before.mode = request.mode ∧
      (request.granted = false → before = request) := by
  cases wakes with
  | nothing => exact ⟨request, inside, rfl, rfl, fun _ => rfl⟩
  | shared =>
      rcases List.mem_map.mp inside with ⟨before, isBefore, rfl⟩
      refine ⟨before, isBefore, (grantShared_txnId before).symm, (grantShared_mode before).symm, ?_⟩
      intro waiting
      rw [grantShared] at waiting ⊢
      split at waiting
      next => contradiction
      next isExclusive => rw [if_neg isExclusive]
  | @exclusive first rest =>
      rcases List.mem_cons.mp inside with rfl | later
      · exact ⟨first, List.mem_cons_self, rfl, rfl, fun waiting => by contradiction⟩
      · exact ⟨request, List.mem_cons_of_mem _ later, rfl, rfl, fun _ => rfl⟩

/-- The release of another transaction takes no lock away. -/
theorem Holds.release (holds : queue.Holds other mode) (differ : other ≠ txnId) :
    (queue.dropAll txnId).grantWaiting.Holds other mode := by
  rcases holds with ⟨request, inside, rfl, granted, covers⟩
  have stays : request ∈ (queue.dropAll txnId).requests :=
    List.mem_filter.mpr ⟨inside, by simpa using differ⟩
  exact ⟨request, grantWaiting_wakes.kept stays granted, rfl, granted, covers⟩

theorem txnId_ne_of_release {request : LockRequest}
    (inside : request ∈ (queue.dropAll txnId).grantWaiting.requests) : request.txnId ≠ txnId := by
  rcases grantWaiting_wakes.before inside with ⟨before, isBefore, same, -⟩
  rw [← same]
  simpa using (List.mem_filter.mp isBefore).2

end Keeping

end LockQueue

namespace LockManager

open LockQueue

/-- A call of the lock manager. -/
inductive LockCall where
  | acquire (order : SetOrder) (txnId : UInt32) (rid : Rid) (mode : LockMode)
  | releaseAll (txnId : UInt32)

def LockCall.run : LockCall → LockManager → LockManager
  | acquire order txnId rid mode, manager => (manager.acquire order txnId rid mode).2
  | releaseAll txnId, manager => manager.releaseAll txnId

def runCalls (calls : List LockCall) (manager : LockManager) : LockManager :=
  calls.foldl (fun manager call => call.run manager) manager

/-- The states that the calls of any transactions, in any order, lead to. -/
inductive Reachable : LockManager → Prop
  | new : Reachable LockManager.new
  | step {manager : LockManager} (call : LockCall) :
      Reachable manager → Reachable (call.run manager)

variable {manager : LockManager} {txnId : UInt32} {rid : Rid} {mode : LockMode}

theorem Reachable.orderly (reachable : Reachable manager) (rid : Rid) :
    (manager.queue rid).Orderly := by
  induction reachable generalizing rid with
  | new => exact orderly_new
  | @step manager call before ih =>
      cases call with
      | acquire order txnId rid' mode =>
          rcases acquire_spec order manager txnId rid' mode with ⟨queue, acquires, others⟩
          rw [LockCall.run, others rid]
          split
          next => exact (ih rid').acquires acquires
          next => exact ih rid
      | releaseAll txnId =>
          rw [LockCall.run, queue_releaseAll]
          exact (ih rid).release txnId

/-- Beside an exclusive lock there are only locks of the same transaction. -/
theorem Reachable.exclusive_alone (reachable : Reachable manager) (rid : Rid) :
    ∀ holder ∈ (manager.queue rid).requests, holder.granted = true → holder.mode = .exclusive →
      ∀ other ∈ (manager.queue rid).requests, other.granted = true →
        other.txnId = holder.txnId := by
  intro holder isHolder granted isExclusive other isOther otherGranted
  by_contra differ
  exact (reachable.orderly rid).compatible other isOther holder isHolder otherGranted granted differ
    (.inr isExclusive)

theorem holdsLock_run {call : LockCall} (holds : manager.holdsLock txnId rid mode = true)
    (keeps : call ≠ .releaseAll txnId) : (call.run manager).holdsLock txnId rid mode = true := by
  rw [holdsLock_iff] at holds ⊢
  cases call with
  | acquire order other rid' mode' =>
      rcases acquire_spec order manager other rid' mode' with ⟨queue, acquires, others⟩
      rw [LockCall.run, others rid]
      split
      next same => exact (same ▸ holds : (manager.queue rid').Holds txnId mode).acquires acquires
      next => exact holds
  | releaseAll other =>
      rw [LockCall.run, queue_releaseAll]
      exact holds.release fun same => keeps (by rw [same])

theorem holdsLock_runCalls {calls : List LockCall} (holds : manager.holdsLock txnId rid mode = true)
    (keeps : LockCall.releaseAll txnId ∉ calls) :
    (manager.runCalls calls).holdsLock txnId rid mode = true := by
  induction calls generalizing manager with
  | nil => exact holds
  | cons call calls ih =>
      rw [List.mem_cons, not_or] at keeps
      exact ih (holdsLock_run holds (Ne.symm keeps.1)) keeps.2

/-- A lock is held from the `acquire` that returns `true` until its transaction releases all
of its locks, and then nothing of the transaction is left. -/
theorem lock_lifetime (manager : LockManager) (txnId : UInt32) (rid : Rid) (mode : LockMode) :
    (∀ order, ((manager.acquire order txnId rid mode).1 = .ok true ↔
        (manager.acquire order txnId rid mode).2.holdsLock txnId rid mode = true) ∧
      ((manager.acquire order txnId rid mode).1 = .ok false →
        (manager.acquire order txnId rid mode).2.holdsLock txnId rid mode = false)) ∧
    (manager.holdsLock txnId rid mode = true →
      ∀ calls, LockCall.releaseAll txnId ∉ calls →
        (manager.runCalls calls).holdsLock txnId rid mode = true) ∧
    (∀ other, ∀ request ∈ ((manager.releaseAll txnId).queue other).requests,
      request.txnId ≠ txnId) ∧
    (manager.releaseAll txnId).waitsFor.lookup txnId = none ∧
    ∀ waiter members, (manager.releaseAll txnId).waitsFor.lookup waiter = some members →
      txnId ∉ members := by
  refine ⟨?_, fun holds calls => holdsLock_runCalls holds, ?_, ?_, ?_⟩
  · intro order
    rcases acquire_spec order manager txnId rid mode with ⟨queue, acquires, others⟩
    have held := holds_of_acquires acquires
    rw [← if_pos (c := rid = rid) (t := queue) (e := manager.queue rid) rfl, ← others rid,
      ← holdsLock_iff] at held
    refine ⟨held, ?_⟩
    intro queued
    rw [queued] at held
    simpa using held
  · intro other request inside
    rw [queue_releaseAll] at inside
    exact txnId_ne_of_release inside
  · rw [lookup_waitsFor_releaseAll, if_pos rfl]
  · intro waiter members found inside
    have edge : Edge (manager.releaseAll txnId).waitsFor waiter txnId := by
      rw [Edge, found]
      exact inside
    exact (edge_releaseAll.mp edge).2.1 rfl

end LockManager

namespace Sample

open LockManager

/-- Transaction 1 holds row 0 and transaction 2 waits for it. -/
def waitingForRow : LockManager :=
  LockManager.new.runCalls
    [.acquire .ofInsertion 1 ⟨0, 0⟩ .exclusive, .acquire .ofInsertion 2 ⟨0, 0⟩ .shared]

theorem reachable_waitingForRow : Reachable waitingForRow :=
  .step (.acquire .ofInsertion 2 ⟨0, 0⟩ .shared)
    (.step (.acquire .ofInsertion 1 ⟨0, 0⟩ .exclusive) .new)

theorem exclusive_alone_waitingForRow :
    ⟨1, .exclusive, true⟩ ∈ (waitingForRow.queue ⟨0, 0⟩).requests ∧
    ∀ other ∈ (waitingForRow.queue ⟨0, 0⟩).requests, other.granted = true → other.txnId = 1 :=
  ⟨by decide,
    reachable_waitingForRow.exclusive_alone ⟨0, 0⟩ ⟨1, .exclusive, true⟩ (by decide) rfl rfl⟩

theorem lock_lifetime_waitingForRow :
    (waitingForRow.runCalls [.releaseAll 2, .acquire .ofInsertion 3 ⟨0, 0⟩ .shared]).holdsLock 1
      ⟨0, 0⟩ .exclusive = true :=
  (lock_lifetime waitingForRow 1 ⟨0, 0⟩ .exclusive).2.1 (by decide) _ (by simp)

end Sample

end VenomDb
