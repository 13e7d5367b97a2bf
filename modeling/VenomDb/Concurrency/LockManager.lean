import VenomDb.Index.Node
import VenomDb.Lib.Cycles
import VenomDb.Lib.Maps

/-!
# The lock manager

Two-phase locking of rows: a queue of lock requests for each row, and the waits-for
graph in which `acquire` looks for deadlocks. A missing queue and a missing wait set
are read as empty ones.
-/

namespace VenomDb

/-- Shared to read, exclusive to write. -/
inductive LockMode where
  | shared
  | exclusive
  deriving DecidableEq

/-- One entry in the lock queue of a row. -/
structure LockRequest where
  txnId : UInt32
  mode : LockMode
  granted : Bool
  deriving DecidableEq

structure LockQueue where
  requests : List LockRequest
  deriving DecidableEq

namespace LockQueue

def new : LockQueue := ⟨[]⟩

/-- How many granted locks of each mode there are. -/
def grantedCounts (queue : LockQueue) : ℕ × ℕ :=
  (queue.requests.countP fun request => request.granted && request.mode = .shared,
    queue.requests.countP fun request => request.granted && request.mode = .exclusive)

/-- Whether a new request can be granted right now. -/
def canGrant (txnId : UInt32) (mode : LockMode) (queue : LockQueue) : Bool :=
  let (_, exclusive) := queue.grantedCounts
  let alreadyHoldsExclusive := queue.requests.any fun request =>
    request.txnId = txnId && request.granted && request.mode = .exclusive
  if alreadyHoldsExclusive then true
  else
    match mode with
    | .shared => exclusive = 0
    | .exclusive => !queue.requests.any fun request => request.granted && request.txnId ≠ txnId

def pushBack (request : LockRequest) (queue : LockQueue) : LockQueue :=
  ⟨queue.requests ++ [request]⟩

/-- The upgrade in place: it rewrites every request of the transaction. -/
def upgrade (txnId : UInt32) (queue : LockQueue) : LockQueue :=
  ⟨queue.requests.map fun request =>
    if request.txnId = txnId then { request with mode := .exclusive } else request⟩

/-- Who holds a lock, other than the transaction itself; a set. -/
def blockers (txnId : UInt32) (queue : LockQueue) : List UInt32 :=
  ((queue.requests.filter fun request => request.granted && request.txnId ≠ txnId).map
    LockRequest.txnId).dedup

/-- Take the waiting requests of a transaction out of the queue. -/
def dropWaiting (txnId : UInt32) (queue : LockQueue) : LockQueue :=
  ⟨queue.requests.filter fun request => request.txnId ≠ txnId || request.granted⟩

/-- Take all requests of a transaction out of the queue. -/
def dropAll (txnId : UInt32) (queue : LockQueue) : LockQueue :=
  ⟨queue.requests.filter fun request => request.txnId ≠ txnId⟩

/-- The loop of `try_grant_waiting`, with the running counts of granted locks. -/
def grantLoop (shared exclusive : ℕ) : List LockRequest → List LockRequest
  | [] => []
  | request :: requests =>
      if request.granted then request :: grantLoop shared exclusive requests
      else
        match request.mode with
        | .shared =>
            if exclusive = 0 then
              { request with granted := true } :: grantLoop (shared + 1) exclusive requests
            else request :: grantLoop shared exclusive requests
        | .exclusive =>
            if shared = 0 ∧ exclusive = 0 then
              { request with granted := true } :: grantLoop shared (exclusive + 1) requests
            else request :: grantLoop shared exclusive requests

/-- Grant the waiting requests that are compatible with the locks granted so far. -/
def grantWaiting (queue : LockQueue) : LockQueue :=
  let (shared, exclusive) := queue.grantedCounts
  ⟨grantLoop shared exclusive queue.requests⟩

end LockQueue

/-- The iteration order of a hash set of transactions: any permutation of its members. -/
structure SetOrder where
  walk : List UInt32 → List UInt32
  walk_perm : ∀ members, (walk members).Perm members

/-- The order in which the members were inserted. -/
def SetOrder.ofInsertion : SetOrder where
  walk := id
  walk_perm := fun members => .refl members

structure LockManager where
  lockTable : AList fun _ : Rid => LockQueue
  /-- For each waiting transaction, the transactions that it waits for. -/
  waitsFor : AList fun _ : UInt32 => List UInt32

namespace LockManager

def new : LockManager := ⟨∅, ∅⟩

def queue (rid : Rid) (manager : LockManager) : LockQueue :=
  (manager.lockTable.lookup rid).getD LockQueue.new

def setQueue (rid : Rid) (queue : LockQueue) (manager : LockManager) : LockManager :=
  { manager with lockTable := manager.lockTable.insert rid queue }

/-- Whom a transaction waits for. -/
def waits (txnId : UInt32) (manager : LockManager) : List UInt32 :=
  (manager.waitsFor.lookup txnId).getD []

/-- The transactions that the waits-for graph mentions. -/
def nodes (manager : LockManager) : List UInt32 :=
  manager.waitsFor.keys ++ manager.waitsFor.keys.flatMap fun txnId => manager.waits txnId

/-- Deadlock detection: a depth first search in the waits-for graph that meets some
transaction twice. -/
def hasCycle (order : SetOrder) (start : UInt32) (manager : LockManager) : Bool :=
  (Graph.meetsTwice (fun txnId => order.walk (manager.waits txnId)) (manager.nodes.length + 2) []
    [start]).getD true

/-- The second half of `acquire`: a new request at the end of the queue. -/
def enqueue (order : SetOrder) (txnId : UInt32) (rid : Rid) (mode : LockMode)
    (manager : LockManager) : Except String Bool × LockManager :=
  let queue := manager.queue rid
  let canGrant := queue.canGrant txnId mode
  let queue := queue.pushBack ⟨txnId, mode, canGrant⟩
  let manager := manager.setQueue rid queue
  if canGrant then (.ok true, manager)
  else
    let manager :=
      { manager with waitsFor := manager.waitsFor.insert txnId (queue.blockers txnId) }
    if manager.hasCycle order txnId then
      let manager := manager.setQueue rid (queue.dropWaiting txnId)
      (.error s!"deadlock detected: txn {txnId} is in a wait cycle",
        { manager with waitsFor := manager.waitsFor.erase txnId })
    else (.ok false, manager)

/-- Attempt to acquire a lock: granted, queued, or an error for a deadlock. -/
def acquire (order : SetOrder) (txnId : UInt32) (rid : Rid) (mode : LockMode)
    (manager : LockManager) : Except String Bool × LockManager :=
  let queue := manager.queue rid
  let manager := manager.setQueue rid queue
  if queue.requests.any fun request => request.txnId = txnId && request.granted then
    if mode = .exclusive then
      let holdsExclusive := queue.requests.any fun request =>
        request.txnId = txnId && request.granted && request.mode = .exclusive
      if holdsExclusive then (.ok true, manager)
      else if queue.canGrant txnId .exclusive then
        (.ok true, manager.setQueue rid (queue.upgrade txnId))
      else manager.enqueue order txnId rid mode
    else (.ok true, manager)
  else manager.enqueue order txnId rid mode

/-- After a lock is released, try to grant the waiting requests. -/
def tryGrantWaiting (rid : Rid) (manager : LockManager) : LockManager :=
  match manager.lockTable.lookup rid with
  | some queue => manager.setQueue rid queue.grantWaiting
  | none => manager

/-- One round of the loop of `release_all`. -/
def releaseRid (txnId : UInt32) (manager : LockManager) (rid : Rid) : LockManager :=
  (manager.setQueue rid ((manager.queue rid).dropAll txnId)).tryGrantWaiting rid

/-- Release all locks of a transaction, at its commit or abort. -/
def releaseAll (txnId : UInt32) (manager : LockManager) : LockManager :=
  let manager := manager.lockTable.keys.foldl (releaseRid txnId) manager
  let waitsFor := manager.waitsFor.erase txnId
  { manager with
    waitsFor := waitsFor.keys.foldl (fun waitsFor waiter =>
      waitsFor.insert waiter ((manager.waits waiter).filter (· ≠ txnId))) waitsFor }

/-- Whether a transaction holds a lock; an exclusive one covers both modes. -/
def holdsLock (txnId : UInt32) (rid : Rid) (mode : LockMode) (manager : LockManager) : Bool :=
  match manager.lockTable.lookup rid with
  | some queue => queue.requests.any fun request =>
      request.txnId = txnId && request.granted &&
        (request.mode = mode || request.mode = .exclusive)
  | none => false

end LockManager

end VenomDb
