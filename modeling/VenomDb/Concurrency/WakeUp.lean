import VenomDb.Concurrency.Locking

/-!
# Waiters left behind

`release_all` wakes the waiting requests of a queue by running counts of granted locks,
in which the lock of a waiter itself counts against it; `can_grant` sets that lock
aside. So a release can leave a request waiting that `can_grant` accepts: a shared lock
to be upgraded after all other holders are gone, or a repeated request.
-/

namespace VenomDb

namespace LockQueue

variable {queue : LockQueue} {txnId : UInt32} {requests requests' : List LockRequest}

/-- No request waits that could be granted. -/
def Settled (queue : LockQueue) : Prop :=
  ∀ request ∈ queue.requests, request.granted = false →
    queue.canGrant request.txnId request.mode = false

/-- Every waiting request has a lock of another transaction beside it. -/
def Opposed (requests : List LockRequest) : Prop :=
  ∀ request ∈ requests, request.granted = false →
    ∃ holder ∈ requests, holder.granted = true ∧ holder.txnId ≠ request.txnId

theorem Orderly.settled_iff (orderly : queue.Orderly) :
    queue.Settled ↔ Opposed queue.requests := by
  have refused {request : LockRequest} : queue.canGrant request.txnId request.mode = false ↔
      ¬queue.Holds request.txnId .exclusive ∧ ¬queue.Free request.txnId request.mode := by
    rw [← not_or, ← canGrant_iff, Bool.not_eq_true]
  constructor
  · intro settled request inside waiting
    have notFree := (refused.mp (settled request inside waiting)).2
    simp only [Free, not_forall, not_not] at notFree
    rcases notFree with ⟨holder, isHolder, granted, differ, -⟩
    exact ⟨holder, isHolder, granted, differ⟩
  · intro opposed request inside waiting
    rcases opposed request inside waiting with ⟨holder, isHolder, granted, differ⟩
    refine refused.mpr ⟨?_, ?_⟩
    · rintro ⟨own, isOwn, same, ownGranted, covers⟩
      refine orderly.compatible holder isHolder own isOwn granted ownGranted (same ▸ differ) ?_
      exact .inr (by simpa using covers)
    · intro free
      rcases orderly.blocked request inside waiting with ⟨blocker, isBlocker, blocks, conflict⟩
      by_cases same : blocker.txnId = request.txnId
      · -- the request is exclusive, or a lock of its own transaction excludes the holder
        have notBoth := orderly.compatible holder isHolder blocker isBlocker granted blocks
          (same ▸ differ)
        rcases conflict with isExclusive | isExclusive
        · exact free holder isHolder granted differ (.inl isExclusive)
        · exact notBoth (.inr isExclusive)
      · exact free blocker isBlocker blocks same conflict

/-- The requests of a queue that a wake-up leaves in order: where a lock is held, each waiting
request has a lock of another transaction beside it; where none is held, the transaction of
an exclusive first request has no other request, and with a shared first request each
exclusive one has a shared one of another transaction beside it. -/
structure WakesAll (requests : List LockRequest) : Prop where
  held : (∃ holder ∈ requests, holder.granted = true) → Opposed requests
  exclusive : ∀ first rest, requests = first :: rest →
    (∀ request ∈ requests, request.granted = false) → first.mode = .exclusive →
      ∀ request ∈ rest, request.txnId ≠ first.txnId
  shared : ∀ first rest, requests = first :: rest →
    (∀ request ∈ requests, request.granted = false) → first.mode = .shared →
      ∀ request ∈ requests, request.mode = .exclusive →
        ∃ other ∈ requests, other.mode = .shared ∧ other.txnId ≠ request.txnId

theorem Opposed.grantShared_iff :
    Opposed (requests.map grantShared) ↔
      ∀ request ∈ requests, request.granted = false → request.mode = .exclusive →
        ∃ other ∈ requests, (other.granted = true ∨ other.mode = .shared) ∧
          other.txnId ≠ request.txnId := by
  constructor
  · intro opposed request inside waiting isExclusive
    have stays : (grantShared request).granted = false := by
      rw [grantShared, if_neg (by simp [isExclusive])]
      exact waiting
    rcases opposed _ (List.mem_map_of_mem inside) stays with ⟨holder, isHolder, granted, differ⟩
    rcases List.mem_map.mp isHolder with ⟨other, isOther, rfl⟩
    rw [grantShared_txnId, grantShared_txnId] at differ
    exact ⟨other, isOther, (grantShared_granted other).mp granted, differ⟩
  · intro opposed request inside waiting
    rcases List.mem_map.mp inside with ⟨before, isBefore, rfl⟩
    have notGranted : ¬(before.granted = true ∨ before.mode = .shared) := by
      rw [← grantShared_granted, waiting]
      simp
    rw [not_or, Bool.not_eq_true] at notGranted
    have isExclusive : before.mode = .exclusive := by
      cases mode : before.mode with
      | shared => exact absurd mode notGranted.2
      | exclusive => rfl
    rcases opposed before isBefore notGranted.1 isExclusive with ⟨other, isOther, holds, differ⟩
    refine ⟨grantShared other, List.mem_map_of_mem isOther, (grantShared_granted other).mpr holds,
      ?_⟩
    rw [grantShared_txnId, grantShared_txnId]
    exact differ

theorem Wakes.opposed_iff (wakes : Wakes requests requests')
    (noneWaits : (∃ holder ∈ requests, holder.granted = true) →
      (∀ holder ∈ requests, holder.granted = true → holder.mode = .shared) →
        ∀ request ∈ requests, request.mode = .shared → request.granted = true) :
    Opposed requests' ↔ WakesAll requests := by
  cases wakes with
  | @nothing _ holder inside granted =>
      have notWaiting : ¬∀ request ∈ requests, request.granted = false := by
        intro waiting
        rw [waiting holder inside] at granted
        contradiction
      constructor
      · intro opposed
        exact ⟨fun _ => opposed, fun _ _ _ waiting => absurd waiting notWaiting,
          fun _ _ _ waiting => absurd waiting notWaiting⟩
      · exact fun all => all.held ⟨holder, inside, granted⟩
  | shared allShared leads =>
      rw [Opposed.grantShared_iff]
      constructor
      · intro opposed
        constructor
        · rintro ⟨holder, isHolder, granted⟩ request inside waiting
          have shares := noneWaits ⟨holder, isHolder, granted⟩ allShared
          have isExclusive : request.mode = .exclusive := by
            cases mode : request.mode with
            | shared =>
                rw [shares request inside mode] at waiting
                contradiction
            | exclusive => rfl
          rcases opposed request inside waiting isExclusive with ⟨other, isOther, holds, differ⟩
          exact ⟨other, isOther, holds.elim id (shares other isOther), differ⟩
        · intro first rest split waiting isExclusive
          rcases leads first rest split isExclusive with ⟨holder, isHolder, granted⟩
          rw [waiting holder isHolder] at granted
          contradiction
        · intro first rest split waiting _ request inside isExclusive
          rcases opposed request inside (waiting request inside) isExclusive with
            ⟨other, isOther, holds, differ⟩
          refine ⟨other, isOther, holds.resolve_left ?_, differ⟩
          rw [waiting other isOther]
          simp
      · intro all request inside waiting isExclusive
        by_cases held : ∃ holder ∈ requests, holder.granted = true
        · rcases all.held held request inside waiting with ⟨holder, isHolder, granted, differ⟩
          exact ⟨holder, isHolder, .inl granted, differ⟩
        · have noneHeld : ∀ request ∈ requests, request.granted = false := by
            intro request inside
            simpa using fun granted => held ⟨request, inside, granted⟩
          cases split : requests with
          | nil =>
              rw [split] at inside
              simp at inside
          | cons first rest =>
              have isShared : first.mode = .shared := by
                cases mode : first.mode with
                | shared => rfl
                | exclusive => exact absurd (leads first rest split mode) held
              rcases all.shared first rest split noneHeld isShared request inside isExclusive with
                ⟨other, isOther, shares, differ⟩
              rw [← split]
              exact ⟨other, isOther, .inr shares, differ⟩
  | @exclusive first rest isExclusive waiting =>
      constructor
      · intro opposed
        constructor
        · rintro ⟨holder, isHolder, granted⟩
          rw [waiting holder isHolder] at granted
          contradiction
        · intro first' rest' split _ _ request inside same
          cases split
          have later := List.mem_cons_of_mem first inside
          rcases opposed request (List.mem_cons_of_mem _ inside) (waiting request later) with
            ⟨holder, isHolder, granted, differ⟩
          rcases List.mem_cons.mp isHolder with rfl | isRest
          · exact differ same.symm
          · rw [waiting holder (List.mem_cons_of_mem _ isRest)] at granted
            contradiction
        · intro first' rest' split _ isShared
          cases split
          rw [isExclusive] at isShared
          contradiction
      · intro all request inside stays
        rcases List.mem_cons.mp inside with rfl | isRest
        · contradiction
        · exact ⟨_, List.mem_cons_self, rfl,
            (all.exclusive first rest rfl waiting isExclusive request isRest).symm⟩

/-- Beside a shared lock of another transaction no shared request waits. -/
theorem Orderly.shared_held (orderly : queue.Orderly) (txnId : UInt32)
    (held : ∃ holder ∈ (queue.dropAll txnId).requests, holder.granted = true)
    (allShared : ∀ holder ∈ (queue.dropAll txnId).requests, holder.granted = true →
      holder.mode = .shared) :
    ∀ request ∈ (queue.dropAll txnId).requests, request.mode = .shared →
      request.granted = true := by
  rcases held with ⟨holder, isHolder, granted⟩
  intro request inside mode
  -- a shared request waits only beside an exclusive lock, and that excludes the holder's
  by_contra waiting
  rw [Bool.not_eq_true] at waiting
  rcases orderly.blocked request (List.mem_of_mem_filter inside) waiting with
    ⟨blocker, isBlocker, blocks, conflict⟩
  have isExclusive : blocker.mode = .exclusive := by
    rw [Conflict, mode] at conflict
    simpa using conflict
  have same : holder.txnId = blocker.txnId := by
    by_contra differ
    exact orderly.compatible holder (List.mem_of_mem_filter isHolder) blocker isBlocker granted
      blocks differ (.inr isExclusive)
  have stays : blocker ∈ (queue.dropAll txnId).requests := by
    refine List.mem_filter.mpr ⟨isBlocker, ?_⟩
    rw [← same]
    exact (List.mem_filter.mp isHolder).2
  have isShared := allShared blocker stays blocks
  rw [isExclusive] at isShared
  contradiction

end LockQueue

namespace LockManager

open LockQueue

variable {manager : LockManager}

/-- After a release no request waits that could be granted, exactly when the requests of the
other transactions allow it. -/
theorem Reachable.settled_releaseAll (reachable : Reachable manager) (txnId : UInt32) :
    (∀ rid, ((manager.releaseAll txnId).queue rid).Settled) ↔
      ∀ rid, WakesAll ((manager.queue rid).dropAll txnId).requests := by
  apply forall_congr'
  intro rid
  have orderly := reachable.orderly rid
  rw [queue_releaseAll, (orderly.release txnId).settled_iff, grantWaiting_wakes.opposed_iff]
  exact orderly.shared_held txnId

end LockManager

namespace Sample

open LockManager LockQueue

/-- Transactions 1 and 2 share row 0, and transaction 1 waits to upgrade its lock. -/
def waitingToUpgrade : LockManager :=
  LockManager.new.runCalls
    [.acquire .ofInsertion 1 ⟨0, 0⟩ .shared, .acquire .ofInsertion 2 ⟨0, 0⟩ .shared,
      .acquire .ofInsertion 1 ⟨0, 0⟩ .exclusive]

theorem reachable_waitingToUpgrade : Reachable waitingToUpgrade :=
  .step (.acquire .ofInsertion 1 ⟨0, 0⟩ .exclusive)
    (.step (.acquire .ofInsertion 2 ⟨0, 0⟩ .shared)
      (.step (.acquire .ofInsertion 1 ⟨0, 0⟩ .shared) .new))

/-- The upgrade goes on waiting when the other transaction is gone. -/
theorem upgrade_left_waiting :
    Reachable waitingToUpgrade ∧ ¬((waitingToUpgrade.releaseAll 2).queue ⟨0, 0⟩).Settled := by
  refine ⟨reachable_waitingToUpgrade, ?_⟩
  intro settled
  have refused := settled ⟨1, .exclusive, false⟩ (by decide) rfl
  revert refused
  decide

theorem settled_waitingForRow :
    (∀ rid, ((waitingForRow.releaseAll 1).queue rid).Settled) ↔
      ∀ rid, WakesAll ((waitingForRow.queue rid).dropAll 1).requests :=
  reachable_waitingForRow.settled_releaseAll 1

end Sample

end VenomDb
