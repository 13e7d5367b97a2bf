import VenomDb.Buffer.BufferPool
import Mathlib.Tactic.Common

/-!
# Pins and the eviction queue

A pinned frame must not be in the queue that `find_free_frame` takes its victims
from. Every call on the pool keeps that, except a fetch that finds its page
resident: `record_access` queues the frame the call has just pinned.
-/

namespace VenomDb

namespace BufferPool

variable {poolSize : ℕ} {pool pool' : BufferPool poolSize}

/-- No frame in use may be chosen as a victim. -/
def QueueUnpinned (pool : BufferPool poolSize) : Prop :=
  ∀ frameId ∈ pool.replacer.order, (pool.frames frameId).pinCount = 0

/-- Pins and queue are as they were. -/
structure SamePins (pool pool' : BufferPool poolSize) : Prop where
  replacer : pool'.replacer = pool.replacer
  pinCount : ∀ frameId, (pool'.frames frameId).pinCount = (pool.frames frameId).pinCount

theorem SamePins.refl (pool : BufferPool poolSize) : SamePins pool pool := ⟨rfl, fun _ => rfl⟩

theorem SamePins.trans {pool'' : BufferPool poolSize} (first : SamePins pool pool')
    (second : SamePins pool' pool'') : SamePins pool pool'' :=
  ⟨second.replacer.trans first.replacer,
    fun frameId => (second.pinCount frameId).trans (first.pinCount frameId)⟩

theorem SamePins.queueUnpinned (same : SamePins pool pool') (unpinned : pool.QueueUnpinned) :
    pool'.QueueUnpinned := by
  intro frameId queued
  rw [same.replacer] at queued
  rw [same.pinCount, unpinned frameId queued]

theorem samePins_setFrame {frameId : Fin poolSize} {frame : Frame}
    (kept : frame.pinCount = (pool.frames frameId).pinCount) :
    SamePins pool (pool.setFrame frameId frame) := by
  refine ⟨rfl, fun other => ?_⟩
  by_cases same : other = frameId
  · subst other
    simpa using kept
  · rw [setFrame_frames_of_ne same]

theorem QueueUnpinned.install (unpinned : pool.QueueUnpinned) (frameId : Fin poolSize)
    (page : Page) (isDirty : Bool) : (pool.install frameId page isDirty).QueueUnpinned := by
  intro other queued
  have pinned : other ∈ pool.replacer.order ∧ other ≠ frameId := by
    simpa [BufferPool.install, LruReplacer.pin] using queued
  simpa [BufferPool.install, pinned.2] using unpinned other pinned.1

theorem unpin_order_subset (frameId other : Fin poolSize) (isDirty : Bool)
    (queued : other ∈ (pool.unpin frameId isDirty).replacer.order) :
    other ∈ pool.replacer.order ∨
      (other = frameId ∧ ((pool.unpin frameId isDirty).frames frameId).pinCount = 0) := by
  by_cases idle : (pool.frames frameId).pinCount = 0
  · exact .inl (by simpa [BufferPool.unpin, idle] using queued)
  by_cases last : (pool.frames frameId).pinCount - 1 = 0
  · by_cases waiting : frameId ∈ pool.replacer.order
    · exact .inl (by simpa [BufferPool.unpin, idle, last, LruReplacer.unpin, setFrame,
        waiting] using queued)
    · have joined : other ∈ pool.replacer.order ∨ other = frameId := by
        simpa [BufferPool.unpin, idle, last, LruReplacer.unpin, waiting, setFrame] using queued
      exact joined.imp id fun same => ⟨same, by simp [BufferPool.unpin, idle, last]⟩
  · exact .inl (by simpa [BufferPool.unpin, idle, last, setFrame] using queued)

theorem unpin_frames_of_ne {frameId other : Fin poolSize} (ne : other ≠ frameId) (isDirty : Bool) :
    (pool.unpin frameId isDirty).frames other = pool.frames other := by
  rw [BufferPool.unpin]
  dsimp only
  split_ifs
  · rfl
  · exact setFrame_frames_of_ne ne _
  · exact setFrame_frames_of_ne ne _

theorem pinCount_unpin (pool : BufferPool poolSize) (frameId : Fin poolSize) (isDirty : Bool) :
    ((pool.unpin frameId isDirty).frames frameId).pinCount.toNat =
      (pool.frames frameId).pinCount.toNat - 1 := by
  rw [BufferPool.unpin]
  dsimp only
  split_ifs with idle
  · simp [idle]
  · simp [Counter.toNat_pred idle]
  · simp [Counter.toNat_pred idle]

theorem unpin_pinCount_le (pool : BufferPool poolSize) (frameId other : Fin poolSize)
    (isDirty : Bool) :
    ((pool.unpin frameId isDirty).frames other).pinCount.toNat ≤
      (pool.frames other).pinCount.toNat := by
  by_cases same : other = frameId
  · rw [same, pinCount_unpin]
    omega
  · rw [unpin_frames_of_ne same]

theorem QueueUnpinned.unpin (unpinned : pool.QueueUnpinned) (frameId : Fin poolSize)
    (isDirty : Bool) : (pool.unpin frameId isDirty).QueueUnpinned := by
  intro other queued
  rcases unpin_order_subset frameId other isDirty queued with waiting | ⟨rfl, released⟩
  · have fewer := unpin_pinCount_le pool frameId other isDirty
    rw [unpinned other waiting, UInt32.toNat_zero, Nat.le_zero] at fewer
    exact UInt32.toNat.inj fewer
  · exact released

/-- No frame is pinned twice. -/
def PinnedOnce (pool : BufferPool poolSize) : Prop :=
  ∀ frameId, (pool.frames frameId).pinCount.toNat ≤ 1

theorem PinnedOnce.pinnable (single : pool.PinnedOnce) (frameId : Fin poolSize) :
    pool.Pinnable frameId := by
  have bound := single frameId
  rw [Pinnable, pins]
  omega

/-- A property of pins and queue that survives what the calls do to them, but for a cache hit. -/
structure Settled (holds : BufferPool poolSize → Prop) : Prop where
  same : ∀ {pool pool'}, SamePins pool pool' → holds pool → holds pool'
  shorter : ∀ {pool victimId order}, pool.replacer.order = victimId :: order → holds pool →
    holds { pool with replacer := ⟨order⟩ }
  clear : ∀ {pool} (victimId : Fin poolSize), holds pool → holds (pool.setFrame victimId Frame.new)
  install : ∀ {pool} (frameId : Fin poolSize) (page : Page) (isDirty : Bool), holds pool →
    holds (pool.install frameId page isDirty)
  unpin : ∀ {pool} (frameId : Fin poolSize) (isDirty : Bool), holds pool →
    holds (pool.unpin frameId isDirty)

theorem settled_queueUnpinned : Settled (QueueUnpinned : BufferPool poolSize → Prop) where
  same := SamePins.queueUnpinned
  shorter := fun queue unpinned frameId queued =>
    unpinned frameId (by simp [queue, queued])
  clear := by
    intro pool victimId unpinned other queued
    by_cases same : other = victimId
    · simp [same, Frame.new]
    · rw [setFrame_frames_of_ne same]
      exact unpinned other queued
  install := fun frameId page isDirty unpinned => unpinned.install frameId page isDirty
  unpin := fun frameId isDirty unpinned => unpinned.unpin frameId isDirty

theorem settled_pinnedOnce : Settled (PinnedOnce : BufferPool poolSize → Prop) where
  same := by
    intro pool pool' same single frameId
    rw [same.pinCount]
    exact single frameId
  shorter := fun _ single => single
  clear := by
    intro pool victimId single other
    by_cases same : other = victimId
    · simp [same, Frame.new]
    · rw [setFrame_frames_of_ne same]
      exact single other
  install := by
    intro pool frameId page isDirty single other
    by_cases same : other = frameId
    · simp [BufferPool.install, same]
    · simpa [BufferPool.install, same] using single other
  unpin := fun {pool} frameId isDirty single other =>
    (unpin_pinCount_le pool frameId other isDirty).trans (single other)

section Calls

open Fallible

variable {holds : BufferPool poolSize → Prop} (settled : Settled holds)
include settled

theorem Settled.onDisk {α : Type} (operation : Fallible Failure DiskManager α) :
    Keeps holds (onDisk operation) :=
  fun pool before => settled.same (show SamePins pool _ from ⟨rfl, fun _ => rfl⟩) before

variable [Crc32]

theorem Settled.writeFrame (frameId : Fin poolSize) : Keeps holds (writeFrame frameId) := by
  refine keeps_get_bind fun pool before => ?_
  cases (pool.frames frameId).page with
  | none => exact before
  | some page =>
      dsimp only
      refine Keeps.bind (keeps_modify fun pool before => ?_) (fun _ => settled.onDisk _) pool before
      exact settled.same (samePins_setFrame rfl) before

omit [Crc32] in
theorem Settled.clearFrame (victimId : Fin poolSize) : Keeps holds (clearFrame victimId) := by
  refine (keeps_modify fun pool before => ?_).bind fun _ =>
    (keeps_modify fun pool before => settled.clear victimId before).bind fun _ => keeps_pure _
  split
  · exact before
  · exact settled.same (show SamePins pool _ from ⟨rfl, fun _ => rfl⟩) before

theorem Settled.findFreeFrame : Keeps holds findFreeFrame := by
  refine keeps_get_bind fun pool before => ?_
  cases (List.finRange poolSize).find? fun frameId => (pool.frames frameId).isEmpty with
  | some frameId => exact before
  | none =>
      cases queue : pool.replacer.order with
      | nil => simpa [LruReplacer.evict, queue] using before
      | cons victimId order =>
          have cleared := settled.clearFrame victimId
          simp only [LruReplacer.evict, queue, modify_bind]
          split
          · exact (settled.writeFrame victimId).bind (fun _ => cleared) _
              (settled.shorter queue before)
          · exact cleared _ (settled.shorter queue before)

theorem Settled.newPage : Keeps holds newPage :=
  settled.findFreeFrame.bind fun frameId => (settled.onDisk _).bind fun pageId =>
    (keeps_modify fun _ before => settled.install frameId (Page.new pageId) true before).bind
      fun _ => keeps_pure _

/-- A fetch of a page that is not resident. -/
theorem Settled.fetchPage_missing {pageId : UInt32} (before : holds pool)
    (missing : pool.pageTable.lookup pageId = none) : holds (fetchPage pageId pool).2 := by
  have rest : Keeps holds (do
      let frameId ← BufferPool.findFreeFrame
      let page ← BufferPool.onDisk (DiskManager.readPage pageId)
      Fallible.modify (BufferPool.install frameId page false)
      return frameId) :=
    settled.findFreeFrame.bind fun frameId => (settled.onDisk _).bind fun page =>
      (keeps_modify fun _ before => settled.install frameId page false before).bind
        fun _ => keeps_pure _
  let missed : BufferPool poolSize := { pool with misses := pool.misses + 1 }
  have counted : holds missed :=
    settled.same (show SamePins pool missed from ⟨rfl, fun _ => rfl⟩) before
  rw [fetchPage, get_bind, missing]
  exact rest missed counted

theorem Settled.flushPage (pageId : UInt32) : Keeps holds (flushPage pageId) := by
  refine keeps_get_bind fun pool before => ?_
  cases pool.pageTable.lookup pageId with
  | none => exact before
  | some frameId =>
      dsimp only
      split
      · refine Keeps.bind (settled.writeFrame frameId) (fun _ => keeps_modify ?_) pool before
        exact fun pool before => settled.same (samePins_setFrame rfl) before
      · exact before

omit settled in
/-- A fetch of a resident page leaves a pinned frame in the queue, whatever the queue was. -/
theorem not_queueUnpinned_fetchPage {pageId : UInt32} {frameId : Fin poolSize}
    (resident : pool.pageTable.lookup pageId = some frameId) (pinnable : pool.Pinnable frameId) :
    ¬(fetchPage pageId pool).2.QueueUnpinned := by
  intro unpinned
  rw [fetchPage_pinnable resident pinnable] at unpinned
  have idle := unpinned frameId (by simp [hit, LruReplacer.recordAccess])
  rw [hit, setFrame_frames_self] at idle
  exact Counter.succ_ne_zero pinnable idle

end Calls

/-- A call of a user of the pool. `getPageMut` carries the page that its caller leaves in the
frame, `flushAll` the order in which the map gives its keys. -/
inductive Call (poolSize : ℕ) where
  | newPage
  | fetchPage (pageId : UInt32)
  | getPageMut (frameId : Fin poolSize) (page : Page)
  | unpin (frameId : Fin poolSize) (isDirty : Bool)
  | flushPage (pageId : UInt32)
  | flushAll (order : List UInt32 → List UInt32)

section Runs

variable [Crc32]

/-- The pool after a call, whatever the call returned. -/
def Call.apply (pool : BufferPool poolSize) : Call poolSize → BufferPool poolSize
  | .newPage => (BufferPool.newPage pool).2
  | .fetchPage pageId => (BufferPool.fetchPage pageId pool).2
  | .getPageMut frameId page =>
      match pool.getPage frameId with
      | none => pool
      | some _ => pool.setPage frameId page
  | .unpin frameId isDirty => pool.unpin frameId isDirty
  | .flushPage pageId => (BufferPool.flushPage pageId pool).2
  | .flushAll order => (BufferPool.flushAll order pool).2

/-- The pool after a sequence of calls on a freshly opened one. -/
def after (disk : DiskManager) (calls : List (Call poolSize)) : BufferPool poolSize :=
  calls.foldl Call.apply (new disk)

/-- The call fetches a page that is already resident. -/
def Call.Hits (pool : BufferPool poolSize) : Call poolSize → Prop
  | .fetchPage pageId => (pool.pageTable.lookup pageId).isSome
  | _ => False

/-- A call that does not hit. -/
theorem Settled.apply {holds : BufferPool poolSize → Prop} (settled : Settled holds)
    (before : holds pool) {call : Call poolSize} (missed : ¬call.Hits pool) :
    holds (call.apply pool) := by
  cases call with
  | fetchPage pageId =>
      have missing : pool.pageTable.lookup pageId = none := by simpa [Call.Hits] using missed
      exact settled.fetchPage_missing before missing
  | newPage => exact settled.newPage pool before
  | getPageMut frameId page =>
      rw [Call.apply]
      split
      · exact before
      · exact settled.same (samePins_setFrame rfl) before
  | unpin frameId isDirty => exact settled.unpin frameId isDirty before
  | flushPage pageId => exact settled.flushPage pageId pool before
  | flushAll order => exact Fallible.keeps_forEach settled.flushPage pool before

/-- One call: queue and pins agree afterwards exactly if the call does not hit. -/
theorem Call.queueUnpinned_apply (unpinned : pool.QueueUnpinned) (single : pool.PinnedOnce)
    (call : Call poolSize) : (call.apply pool).QueueUnpinned ↔ ¬call.Hits pool := by
  refine ⟨fun later hits => ?_, settled_queueUnpinned.apply unpinned⟩
  cases call with
  | fetchPage pageId =>
      rcases Option.isSome_iff_exists.mp hits with ⟨frameId, resident⟩
      exact not_queueUnpinned_fetchPage resident (single.pinnable frameId) later
  | newPage | getPageMut | unpin | flushPage | flushAll => exact hits

omit [Crc32] in
theorem queueUnpinned_new (disk : DiskManager) :
    (new disk : BufferPool poolSize).QueueUnpinned := by
  simp [QueueUnpinned, new, LruReplacer.new]

theorem after_concat (disk : DiskManager) (calls : List (Call poolSize)) (call : Call poolSize) :
    after disk (calls ++ [call]) = call.apply (after disk calls) := by
  simp [after]

/-- No call of the sequence fetches a page that is resident when it is made. -/
def HitFree (disk : DiskManager) (calls : List (Call poolSize)) : Prop :=
  ∀ before call, before ++ [call] <+: calls → ¬call.Hits (after disk before)

/-- Until pinned frames are in the queue no frame is pinned twice. -/
theorem pinnedOnce_after {disk : DiskManager} {calls : List (Call poolSize)}
    (unpinned : ∀ before, before <+: calls → (after disk before).QueueUnpinned) :
    (after disk calls).PinnedOnce := by
  induction calls using List.reverseRecOn with
  | nil =>
      intro frameId
      simp [after, new, Frame.new]
  | append_singleton calls call ih =>
      have single := ih fun before made => unpinned before (made.trans (List.prefix_append _ _))
      have earlier := unpinned calls (List.prefix_append calls [call])
      have later := unpinned (calls ++ [call]) (List.prefix_refl _)
      rw [after_concat] at later ⊢
      exact settled_pinnedOnce.apply single ((call.queueUnpinned_apply earlier single).mp later)

/-- Pinned frames stay out of the eviction queue through a whole sequence of calls exactly
if no call of it is a cache hit. -/
theorem queueUnpinned_iff_hitFree (disk : DiskManager) (calls : List (Call poolSize)) :
    (∀ before, before <+: calls → (after disk before).QueueUnpinned) ↔ HitFree disk calls := by
  constructor
  · intro unpinned before call made
    have earlier := unpinned before ((List.prefix_append before [call]).trans made)
    have single := pinnedOnce_after fun other begun =>
      unpinned other ((begun.trans (List.prefix_append before [call])).trans made)
    have later := unpinned (before ++ [call]) made
    rw [after_concat] at later
    exact (call.queueUnpinned_apply earlier single).mp later
  · intro hitFree before
    induction before using List.reverseRecOn with
    | nil => exact fun _ => queueUnpinned_new disk
    | append_singleton before call ih =>
        intro made
        have earlier := ih ((List.prefix_append before [call]).trans made)
        rw [after_concat]
        exact settled_queueUnpinned.apply earlier (hitFree before call made)

end Runs

section Pinned

attribute [local instance] Crc32.ieee

/-- One frame, a page allocated and unpinned in it, then fetched again. -/
def fetchedAgain : List (Call 1) := [.newPage, .unpin 0 true, .fetchPage 0]

/-- The page fetched last is pinned and in the queue, and the next allocation takes its frame. -/
theorem pinned_frame_evicted :
    (¬∀ before, before <+: fetchedAgain →
      (after (DiskManager.new [] []) before).QueueUnpinned) ∧
    ((after (DiskManager.new [] []) fetchedAgain).frames 0).pinCount = 1 ∧
    (newPage (after (DiskManager.new [] []) fetchedAgain)).1 = .ok (1, 0) := by
  refine ⟨fun unpinned => ?_, rfl, rfl⟩
  have idle := unpinned fetchedAgain (List.prefix_refl _) 0 (by decide)
  exact absurd idle (by decide)

end Pinned

end BufferPool

end VenomDb
