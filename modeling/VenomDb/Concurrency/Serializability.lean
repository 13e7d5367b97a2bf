import VenomDb.Concurrency.Locking
import VenomDb.Lib.Schedules
import Mathlib.Logic.Function.Basic

/-!
# Two-phase locking is serializable

Transactions acquire locks as they need them, touch a row only under a lock that covers what they
do with it, and release all locks at their end. Whatever the interleaving, it can be exchanged for
the transactions one after another in the order in which they ended.
-/

namespace VenomDb

variable {V : Type}

/-- What is done with a row. A transaction may compute what it writes from what it has read. -/
inductive Access (V : Type) where
  | read (rid : Rid)
  | write (rid : Rid) (change : V → V)

namespace Access

def rid : Access V → Rid
  | read rid => rid
  | write rid _ => rid

/-- The lock that covers the access. -/
def mode : Access V → LockMode
  | read _ => .shared
  | write _ _ => .exclusive

end Access

/-- An access of a transaction. -/
structure RowOperation (V : Type) where
  txnId : UInt32
  access : Access V

namespace RowOperation

/-- The value that the row had, and the rows afterwards. -/
def apply (operation : RowOperation V) (rows : Rid → V) : V × (Rid → V) :=
  match operation.access with
  | .read rid => (rows rid, rows)
  | .write rid change => (rows rid, Function.update rows rid (change (rows rid)))

/-- Two operations on one row, and not just to read it. -/
def Clashes (first second : RowOperation V) : Prop :=
  first.access.rid = second.access.rid ∧
    LockQueue.Conflict first.access.mode second.access.mode

/-- Operations that do not clash can be exchanged. -/
theorem commutes_of_not_clashes {first second : RowOperation V} (apart : ¬first.Clashes second) :
    Schedule.Commutes apply first second := by
  rcases first with ⟨firstId, rid | ⟨rid, change⟩⟩ <;>
    rcases second with ⟨secondId, rid' | ⟨rid', change'⟩⟩
  · exact ⟨fun _ => rfl, fun _ => rfl, fun _ => rfl⟩
  · have other : rid ≠ rid' := fun same => apart ⟨same, .inr rfl⟩
    exact ⟨fun _ => rfl, fun _ => by simp [apply, other], fun _ => rfl⟩
  · have other : rid ≠ rid' := fun same => apart ⟨same, .inl rfl⟩
    exact ⟨fun _ => rfl, fun _ => rfl, fun _ => by simp [apply, other.symm]⟩
  · have other : rid ≠ rid' := fun same => apart ⟨same, .inl rfl⟩
    refine ⟨fun rows => ?_, fun _ => by simp [apply, other], fun _ => by simp [apply, other.symm]⟩
    simp only [apply, Function.update_of_ne other, Function.update_of_ne other.symm]
    exact Function.update_comm other _ _ _

end RowOperation

/-- Transactions at work. -/
structure Workload (V : Type) where
  manager : LockManager
  /-- The transactions that have released their locks, in this order. -/
  ended : List UInt32
  /-- What has been done to the rows. -/
  operations : List (RowOperation V)

namespace Workload

open LockManager LockQueue

/-- The interleavings of two-phase transactions. -/
inductive Reachable : Workload V → Prop
  | new : Reachable ⟨LockManager.new, [], []⟩
  | acquire {work : Workload V} (before : Reachable work) (order : SetOrder) (txnId : UInt32)
      (rid : Rid) (mode : LockMode) (growing : txnId ∉ work.ended) :
      Reachable { work with manager := (work.manager.acquire order txnId rid mode).2 }
  | operate {work : Workload V} (before : Reachable work) (operation : RowOperation V)
      (locked : work.manager.holdsLock operation.txnId operation.access.rid operation.access.mode) :
      Reachable { work with operations := work.operations ++ [operation] }
  | releaseAll {work : Workload V} (before : Reachable work) (txnId : UInt32)
      (growing : txnId ∉ work.ended) :
      Reachable { work with
        manager := work.manager.releaseAll txnId
        ended := work.ended ++ [txnId] }

/-- What holds amid any interleaving: operations are covered by locks until their transactions
end, and of two that clash the first one's transaction ended before the other was done. -/
structure Guarded (work : Workload V) : Prop where
  manager : LockManager.Reachable work.manager
  nodup : work.ended.Nodup
  gone : ∀ txnId ∈ work.ended, ∀ rid, ∀ request ∈ (work.manager.queue rid).requests,
    request.txnId ≠ txnId
  covered : ∀ operation ∈ work.operations, operation.txnId ∉ work.ended →
    work.manager.holdsLock operation.txnId operation.access.rid operation.access.mode = true
  ordered : work.operations.Pairwise fun before after =>
    before.txnId ≠ after.txnId → before.Clashes after →
      work.ended.idxOf before.txnId < work.ended.idxOf after.txnId

/-- Nobody but the transaction of the call is new in a queue. -/
theorem mem_of_acquires {txnId : UInt32} {mode : LockMode} {queue queue' : LockQueue}
    {result : Except String Bool} {waitsFor waitsFor' : AList fun _ : UInt32 => List UInt32}
    (acquires : Acquires txnId mode queue waitsFor result queue' waitsFor') {request : LockRequest}
    (inside : request ∈ queue'.requests) :
    request.txnId = txnId ∨ ∃ before ∈ queue.requests, before.txnId = request.txnId := by
  cases acquires with
  | held => exact .inr ⟨request, inside, rfl⟩
  | upgraded =>
      rcases mem_upgrade.mp inside with ⟨old, isOld, rfl⟩
      refine .inr ⟨old, isOld, ?_⟩
      split_ifs <;> rfl
  | granted =>
      rcases List.mem_append.mp inside with isOld | isNew
      · exact .inr ⟨request, isOld, rfl⟩
      · exact .inl (by rw [List.mem_singleton.mp isNew])
  | queued =>
      rcases List.mem_append.mp inside with isOld | isNew
      · exact .inr ⟨request, isOld, rfl⟩
      · exact .inl (by rw [List.mem_singleton.mp isNew])
  | deadlock => exact .inr ⟨request, List.mem_of_mem_filter inside, rfl⟩

theorem mem_acquire {manager : LockManager} {order : SetOrder} {txnId : UInt32} {rid other : Rid}
    {mode : LockMode} {request : LockRequest}
    (inside : request ∈ ((manager.acquire order txnId rid mode).2.queue other).requests) :
    request.txnId = txnId ∨
      ∃ before ∈ (manager.queue other).requests, before.txnId = request.txnId := by
  rcases acquire_spec order manager txnId rid mode with ⟨queue, acquires, others⟩
  rw [others] at inside
  split_ifs at inside with same
  · exact same ▸ mem_of_acquires acquires inside
  · exact .inr ⟨request, inside, rfl⟩

theorem mem_releaseAll {manager : LockManager} {txnId : UInt32} {rid : Rid} {request : LockRequest}
    (inside : request ∈ ((manager.releaseAll txnId).queue rid).requests) :
    request.txnId ≠ txnId ∧
      ∃ before ∈ (manager.queue rid).requests, before.txnId = request.txnId := by
  rw [queue_releaseAll] at inside
  refine ⟨txnId_ne_of_release inside, ?_⟩
  rcases grantWaiting_wakes.before inside with ⟨before, isBefore, same, -⟩
  exact ⟨before, List.mem_of_mem_filter isBefore, same⟩

namespace Guarded

variable {work : Workload V}

/-- Who holds a lock has not ended. -/
theorem notMem_ended (guarded : Guarded work) {txnId : UInt32} {rid : Rid} {mode : LockMode}
    (holds : work.manager.holdsLock txnId rid mode = true) : txnId ∉ work.ended := by
  intro ended
  rcases holdsLock_iff.mp holds with ⟨request, inside, isTxn, -⟩
  exact guarded.gone txnId ended rid request inside isTxn

/-- Of two transactions that both hold their locks no operations clash. -/
theorem not_clashes (guarded : Guarded work) {first second : RowOperation V}
    (apart : first.txnId ≠ second.txnId)
    (firstHolds : work.manager.holdsLock first.txnId first.access.rid first.access.mode = true)
    (secondHolds : work.manager.holdsLock second.txnId second.access.rid second.access.mode =
      true) :
    ¬first.Clashes second := by
  rintro ⟨sameRow, conflict⟩
  rcases holdsLock_iff.mp firstHolds with ⟨request, inside, isFirst, granted, covers⟩
  rcases holdsLock_iff.mp secondHolds with ⟨request', inside', isSecond, granted', covers'⟩
  rw [sameRow] at inside
  rw [← isFirst, ← isSecond] at apart
  refine (guarded.manager.orderly _).compatible request inside request' inside' granted granted'
    apart ?_
  rcases conflict with isExclusive | isExclusive
  · exact .inl (by simpa [isExclusive] using covers)
  · exact .inr (by simpa [isExclusive] using covers')

theorem acquire (guarded : Guarded work) (order : SetOrder) {txnId : UInt32} (rid : Rid)
    (mode : LockMode) (growing : txnId ∉ work.ended) :
    Guarded { work with manager := (work.manager.acquire order txnId rid mode).2 } where
  manager := guarded.manager.step (.acquire order txnId rid mode)
  nodup := guarded.nodup
  gone := by
    intro other ended rid' request inside same
    rcases mem_acquire inside with isTxn | ⟨before, isBefore, sameTxn⟩
    · exact growing (isTxn ▸ same ▸ ended)
    · exact guarded.gone other ended rid' before isBefore (sameTxn.trans same)
  covered := fun operation inside active =>
    @holdsLock_run _ _ _ _ (.acquire order txnId rid mode) (guarded.covered operation inside active)
      (by simp)
  ordered := guarded.ordered

theorem operate (guarded : Guarded work) (operation : RowOperation V)
    (locked : work.manager.holdsLock operation.txnId operation.access.rid operation.access.mode) :
    Guarded { work with operations := work.operations ++ [operation] } where
  manager := guarded.manager
  nodup := guarded.nodup
  gone := guarded.gone
  covered := by
    intro other inside active
    rcases List.mem_append.mp inside with isOld | isNew
    · exact guarded.covered other isOld active
    · rw [List.mem_singleton.mp isNew]
      exact locked
  ordered := by
    rw [List.pairwise_append]
    refine ⟨guarded.ordered, List.pairwise_singleton _ _, ?_⟩
    intro before isBefore after isAfter apart clashes
    obtain rfl := List.mem_singleton.mp isAfter
    have ended : before.txnId ∈ work.ended := by
      by_contra active
      exact guarded.not_clashes apart (guarded.covered before isBefore active) locked clashes
    rw [List.idxOf_eq_length (guarded.notMem_ended locked)]
    exact List.idxOf_lt_length_iff.mpr ended

theorem releaseAll (guarded : Guarded work) {txnId : UInt32} (growing : txnId ∉ work.ended) :
    Guarded { work with
      manager := work.manager.releaseAll txnId
      ended := work.ended ++ [txnId] } where
  manager := guarded.manager.step (.releaseAll txnId)
  nodup := by
    refine List.nodup_append.mpr ⟨guarded.nodup, List.nodup_singleton _, ?_⟩
    rintro other isEnded _ isTxn rfl
    exact growing (List.mem_singleton.mp isTxn ▸ isEnded)
  gone := by
    intro other ended rid request inside same
    rcases mem_releaseAll inside with ⟨notTxn, before, isBefore, sameTxn⟩
    rcases List.mem_append.mp ended with isEnded | isTxn
    · exact guarded.gone other isEnded rid before isBefore (sameTxn.trans same)
    · exact notTxn (same.trans (List.mem_singleton.mp isTxn))
  covered := by
    intro operation inside active
    rw [List.mem_append, not_or, List.mem_singleton] at active
    refine @holdsLock_run _ _ _ _ (.releaseAll txnId)
      (guarded.covered operation inside active.1) ?_
    simpa using Ne.symm active.2
  ordered := by
    refine guarded.ordered.imp fun {before after} ordered apart clashes => ?_
    have earlier := ordered apart clashes
    have ended : before.txnId ∈ work.ended :=
      List.idxOf_lt_length_iff.mp (earlier.trans_le List.idxOf_le_length)
    rw [List.idxOf_append_of_mem ended]
    by_cases endedToo : after.txnId ∈ work.ended
    · rwa [List.idxOf_append_of_mem endedToo]
    · rw [List.idxOf_append_of_notMem endedToo]
      exact (List.idxOf_lt_length_iff.mpr ended).trans_le (Nat.le_add_right _ _)

end Guarded

variable {work : Workload V}

theorem Reachable.guarded (reachable : Reachable work) : Guarded work := by
  induction reachable with
  | new => exact ⟨.new, List.nodup_nil, by simp, by simp, .nil⟩
  | acquire _ order txnId rid mode growing ih => exact ih.acquire order rid mode growing
  | operate _ operation locked ih => exact ih.operate operation locked
  | releaseAll _ txnId growing ih => exact ih.releaseAll growing

/-- At any time the transactions that have ended, in the order of their ends, and then those at
work, in any order, might as well have run one after another: each of them read what it has read,
and the rows are the same. -/
theorem Reachable.serializable (reachable : Reachable work) {active : List UInt32}
    (nodup : active.Nodup) (atWork : ∀ txnId ∈ active, txnId ∉ work.ended)
    (complete : ∀ operation ∈ work.operations,
      operation.txnId ∈ work.ended ∨ operation.txnId ∈ active) (rows : Rid → V) :
    Schedule.run RowOperation.apply
        (Schedule.serial RowOperation.txnId (work.ended ++ active) work.operations) rows =
      ((work.ended ++ active).flatMap fun txnId =>
          (Schedule.run RowOperation.apply work.operations rows).1.filter fun event =>
            event.1.txnId = txnId,
        (Schedule.run RowOperation.apply work.operations rows).2) := by
  have guarded := reachable.guarded
  apply Schedule.run_serial
  · refine List.nodup_append.mpr ⟨guarded.nodup, nodup, ?_⟩
    rintro txnId ended _ isActive rfl
    exact atWork txnId isActive ended
  · exact fun operation inside => List.mem_append.mpr (complete operation inside)
  · refine guarded.ordered.imp fun {before after} ordered overtakes => ?_
    apply RowOperation.commutes_of_not_clashes
    intro clashes
    have apart : before.txnId ≠ after.txnId := by
      intro same
      rw [same] at overtakes
      exact lt_irrefl _ overtakes
    have earlier := ordered apart clashes
    have ended : before.txnId ∈ work.ended :=
      List.idxOf_lt_length_iff.mp (earlier.trans_le List.idxOf_le_length)
    rw [List.idxOf_append_of_mem ended] at overtakes
    by_cases endedToo : after.txnId ∈ work.ended
    · rw [List.idxOf_append_of_mem endedToo] at overtakes
      exact lt_asymm overtakes earlier
    · rw [List.idxOf_append_of_notMem endedToo] at overtakes
      have bound := List.idxOf_lt_length_iff.mpr ended
      omega

end Workload

namespace Sample

open Workload

/-- Transaction 2 reads a row before and a row after transaction 1 ends, which wrote one of them. -/
def takenTurns : Workload ℕ where
  manager := LockManager.new.runCalls
    [.acquire .ofInsertion 1 ⟨0, 0⟩ .exclusive, .acquire .ofInsertion 2 ⟨0, 1⟩ .shared,
      .releaseAll 1, .acquire .ofInsertion 2 ⟨0, 0⟩ .shared]
  ended := [1]
  operations := [⟨2, .read ⟨0, 1⟩⟩, ⟨1, .write ⟨0, 0⟩ Nat.succ⟩, ⟨2, .read ⟨0, 0⟩⟩]

theorem reachable_takenTurns : Reachable takenTurns := by
  have first := Reachable.new (V := ℕ).acquire .ofInsertion 1 ⟨0, 0⟩ .exclusive (by simp)
  have second := first.acquire .ofInsertion 2 ⟨0, 1⟩ .shared (by simp)
  have read := second.operate ⟨2, .read ⟨0, 1⟩⟩ (by decide)
  have written := read.operate ⟨1, .write ⟨0, 0⟩ Nat.succ⟩ (by decide)
  have ended := written.releaseAll 1 (by simp)
  have third := ended.acquire .ofInsertion 2 ⟨0, 0⟩ .shared (by decide)
  exact third.operate ⟨2, .read ⟨0, 0⟩⟩ (by decide)

/-- Transaction 1 and then transaction 2. -/
theorem serializable_takenTurns :
    (Schedule.run RowOperation.apply
      [⟨1, .write ⟨0, 0⟩ Nat.succ⟩, ⟨2, .read ⟨0, 1⟩⟩, ⟨2, .read ⟨0, 0⟩⟩] fun _ => 6).1.map
        Prod.snd =
        [6, 6, 7] ∧
      (Schedule.run RowOperation.apply takenTurns.operations fun _ => 6).2 =
        Function.update (fun _ => 6) ⟨0, 0⟩ 7 := by
  have same := @Reachable.serializable _ _ reachable_takenTurns [2] (by simp)
    (by simp [takenTurns]) (by simp [takenTurns]) fun _ => 6
  exact ⟨congrArg (fun ended => ended.1.map Prod.snd) same, (congrArg Prod.snd same).symm⟩

end Sample

end VenomDb
