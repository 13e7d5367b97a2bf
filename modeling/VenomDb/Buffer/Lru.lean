import VenomDb.Buffer.Frames
import VenomDb.Buffer.Throughout
import VenomDb.Lib.Lru

/-!
# The pool keeps what was used last

A client that unpins each page before it asks for the next one finds in the pool the pages that it
used last, as many as there are frames. The queue is in the order of these uses: a hit moves its
frame to the back while it is pinned, and a page that is read takes the frame at the front. So a
larger pool holds whatever a smaller one holds, and hits wherever that one hits.
-/

namespace VenomDb.BufferPool

open Fallible

variable {poolSize : ℕ} [Crc32] {pool pool' freed : BufferPool poolSize} {frameId : Fin poolSize}
  {pageId : UInt32} {file : List PageData} {count : ℕ} {used recent : List UInt32}

section Requests

/-- What a client asks for that has one page pinned at a time. It changes the page in between. -/
inductive Request where
  | newPage (edit : PageData → PageData) (isDirty : Bool)
  | fetchPage (pageId : UInt32) (edit : PageData → PageData) (isDirty : Bool)
  | flushPage (pageId : UInt32)
  | flushAll (order : List UInt32 → List UInt32)

omit [Crc32] in
/-- The client changes the page that it has pinned, and unpins it. -/
def giveBack (frameId : Fin poolSize) (edit : PageData → PageData) (isDirty : Bool)
    (pool : BufferPool poolSize) : BufferPool poolSize :=
  match pool.getPage frameId with
  | none => pool.unpin frameId isDirty
  | some page => (pool.setPage frameId { page with data := edit page.data }).unpin frameId isDirty

/-- A page is stored in the file at the start, or is one of those created since. -/
def Known (file : List PageData) (count : ℕ) (pageId : UInt32) : Prop :=
  (DiskManager.stored file pageId).isSome ∨ file.length ≤ pageId.toNat ∧ pageId.toNat < count

namespace Request

def serve : Request → Fallible Failure (BufferPool poolSize) Unit
  | newPage edit isDirty => do
      let created ← BufferPool.newPage
      Fallible.modify (giveBack created.2 edit isDirty)
  | fetchPage pageId edit isDirty => do
      let frameId ← BufferPool.fetchPage pageId
      Fallible.modify (giveBack frameId edit isDirty)
  | flushPage pageId => BufferPool.flushPage pageId
  | flushAll order => BufferPool.flushAll order

/-- The client asks for pages that exist, and creates no more than there are ids. -/
def Sound (file : List PageData) (count : ℕ) : Request → Prop
  | newPage .. => count + 1 < 2 ^ 32
  | fetchPage pageId .. => Known file count pageId
  | _ => True

/-- How many pages there are after the request. -/
def counted (count : ℕ) : Request → ℕ
  | newPage .. => count + 1
  | _ => count

/-- The page that the request is about, if it pins one. -/
def uses (count : ℕ) : Request → List UInt32
  | newPage .. => [UInt32.ofNat count]
  | fetchPage pageId .. => [pageId]
  | _ => []

def hits (cache : List UInt32) : Request → ℕ
  | fetchPage pageId .. => if pageId ∈ cache then 1 else 0
  | _ => 0

def misses (cache : List UInt32) : Request → ℕ
  | fetchPage pageId .. => if pageId ∈ cache then 0 else 1
  | _ => 0

end Request

/-- Every request is sound when its turn comes. -/
def SoundFrom (file : List PageData) : ℕ → List Request → Prop
  | _, [] => True
  | count, request :: requests =>
      request.Sound file count ∧ SoundFrom file (request.counted count) requests

/-- The pages used, in this order. -/
def usesFrom : ℕ → List Request → List UInt32
  | _, [] => []
  | count, request :: requests =>
      request.uses count ++ usesFrom (request.counted count) requests

omit [Crc32] in
/-- The pages in the queue, the next victim last. -/
def residents (pool : BufferPool poolSize) : List UInt32 :=
  pool.replacer.order.reverse.filterMap fun frameId => (pool.frames frameId).page.map Page.id

end Requests

section Queues

omit [Crc32]

/-- The frames in the queue hold these pages, the next victim last. -/
def Queues (pool : BufferPool poolSize) (recent : List UInt32) : Prop :=
  (pool.replacer.order.map fun frameId => (pool.frames frameId).page.map Page.id) =
    (recent.map some).reverse

theorem Queues.residents (queues : pool.Queues recent) : pool.residents = recent := by
  have pages : (pool.replacer.order.reverse.map fun frameId =>
      (pool.frames frameId).page.map Page.id) = recent.map some := by
    rw [List.map_reverse, queues, List.reverse_reverse]
  calc pool.residents
      = (pool.replacer.order.reverse.map fun frameId =>
          (pool.frames frameId).page.map Page.id).filterMap id := by
        rw [List.filterMap_map]
        rfl
    _ = recent := by rw [pages, List.filterMap_map, Function.id_comp, List.filterMap_some]

theorem Queues.length (queues : pool.Queues recent) :
    pool.replacer.order.length = recent.length := by
  simpa using congrArg List.length queues

/-- A frame in the queue holds a page. -/
theorem Queues.occupied (queues : pool.Queues recent) (queued : frameId ∈ pool.replacer.order) :
    ∃ page, (pool.frames frameId).page = some page ∧ page.id ∈ recent := by
  have inside : (pool.frames frameId).page.map Page.id ∈ (recent.map some).reverse :=
    queues ▸ List.mem_map_of_mem queued
  rcases List.mem_map.mp (List.mem_reverse.mp inside) with ⟨pageId, isRecent, same⟩
  rcases Option.map_eq_some_iff.mp same.symm with ⟨page, held, rfl⟩
  exact ⟨page, held, isRecent⟩

/-- Which pages the frames hold is all that matters. -/
theorem Queues.congr (queues : pool.Queues recent) (replacer : pool'.replacer = pool.replacer)
    (pageIds : ∀ frameId ∈ pool.replacer.order,
      (pool'.frames frameId).page.map Page.id = (pool.frames frameId).page.map Page.id) :
    pool'.Queues recent := by
  rw [Queues, replacer, List.map_congr_left pageIds]
  exact queues

theorem SameHolding.queues (same : SameHolding pool pool') (queues : pool.Queues recent) :
    pool'.Queues recent :=
  queues.congr same.pins.replacer fun frameId _ => same.pageIds frameId

end Queues

section Steps

/-- A queue that every frame with a page is in has the pages that are in the table. -/
theorem Queues.mem_iff (queues : pool.Queues recent) (idle : pool.Idle) (tabled : Tabled pool) :
    pageId ∈ recent ↔ (pool.pageTable.lookup pageId).isSome := by
  constructor
  · intro isRecent
    have inside : some pageId ∈ (recent.map some).reverse :=
      List.mem_reverse.mpr (List.mem_map_of_mem isRecent)
    rw [← queues] at inside
    rcases List.mem_map.mp inside with ⟨frameId, -, same⟩
    rcases Option.map_eq_some_iff.mp same with ⟨page, held, rfl⟩
    rw [tabled.frame held]
    rfl
  · intro resident
    rcases Option.isSome_iff_exists.mp resident with ⟨frameId, resident⟩
    rcases tabled.table resident with ⟨page, held, rfl⟩
    have queued : frameId ∈ pool.replacer.order :=
      (idle.free frameId (by simp)).2.resolve_left (by simp [Frame.isEmpty, held])
    rcases queues.occupied queued with ⟨page', held', isRecent⟩
    obtain rfl : page = page' := Option.some.inj (held.symm.trans held')
    exact isRecent

/-- Hits and misses so far. -/
def Counted (hits misses : ℕ) (pool : BufferPool poolSize) : Prop :=
  pool.hits = hits ∧ pool.misses = misses

omit [Crc32] in
theorem counted_onDisk {α : Type} {hits misses : ℕ} (operation : Fallible Failure DiskManager α) :
    Keeps (Counted hits misses : BufferPool poolSize → Prop) (onDisk operation) :=
  fun _ counted => counted

theorem counted_writeFrame {hits misses : ℕ} (frameId : Fin poolSize) :
    Keeps (Counted hits misses) (writeFrame frameId) := by
  refine keeps_get_bind fun pool counted => ?_
  cases (pool.frames frameId).page with
  | none => exact counted
  | some page =>
      refine Keeps.bind (keeps_modify ?_) (fun _ => counted_onDisk _) pool counted
      exact fun _ counted => counted

omit [Crc32] in
theorem counted_clearFrame {hits misses : ℕ} (victimId : Fin poolSize) :
    Keeps (Counted hits misses) (clearFrame victimId) := by
  refine Keeps.bind (keeps_modify fun pool counted => ?_) fun _ =>
    Keeps.bind (keeps_modify fun _ counted => counted) fun _ => keeps_pure _
  cases (pool.frames victimId).page with
  | none => exact counted
  | some page => exact counted

theorem counted_findFreeFrame {hits misses : ℕ} :
    Keeps (Counted hits misses : BufferPool poolSize → Prop) findFreeFrame := by
  refine keeps_get_bind fun pool => ?_
  cases (List.finRange poolSize).find? fun frameId => (pool.frames frameId).isEmpty with
  | some frameId => exact id
  | none =>
      rcases pool.replacer.evict with _ | ⟨victimId, replacer⟩
      · exact id
      · dsimp only
        refine Keeps.bind (keeps_modify ?_) (fun _ => ?_) pool
        · exact fun _ counted => counted
        · split_ifs
          · exact (counted_writeFrame victimId).bind fun _ => counted_clearFrame victimId
          · exact counted_clearFrame victimId

theorem counted_flushPage {hits misses : ℕ} (pageId : UInt32) :
    Keeps (Counted hits misses : BufferPool poolSize → Prop) (flushPage pageId) := by
  refine keeps_get_bind fun pool counted => ?_
  cases pool.pageTable.lookup pageId with
  | none => exact counted
  | some frameId =>
      dsimp only
      split_ifs
      · refine Keeps.bind (counted_writeFrame frameId) (fun _ => keeps_modify ?_) pool counted
        exact fun _ counted => counted
      · exact counted

/-- The frame that is found is in the queue no more, and the queue has made room for it. -/
theorem Queues.findFreeFrame (queues : pool.Queues recent) (idle : pool.Idle)
    (once : pool.QueuedOnce) (run : BufferPool.findFreeFrame pool = (.ok frameId, freed)) :
    frameId ∉ freed.replacer.order ∧ freed.Queues (recent.take (poolSize - 1)) := by
  rcases findFreeFrame_ends pool with ⟨free, empty, run'⟩ | ⟨occupied, ⟨-, run'⟩ |
    ⟨victimId, order, written, queue, same, ⟨-, -, run'⟩ | ⟨-, page, held, run'⟩⟩⟩
  · obtain ⟨rfl, rfl⟩ : free = frameId ∧ pool = freed := by simpa using run'.symm.trans run
    have outside : free ∉ pool.replacer.order := by
      intro queued
      rcases queues.occupied queued with ⟨page, held, -⟩
      simp [empty] at held
    have fits : recent.length + 1 ≤ poolSize := by
      have distinct := (List.nodup_cons.mpr ⟨outside, once⟩).length_le_card
      rwa [List.length_cons, queues.length, Fintype.card_fin] at distinct
    rw [List.take_of_length_le (Nat.le_sub_of_add_le fits)]
    exact ⟨outside, queues⟩
  · simp [run] at run'
  · simp [run] at run'
  · obtain ⟨rfl, rfl⟩ : victimId = frameId ∧ written.cleared victimId page.id order = freed := by
      simpa using run'.symm.trans run
    have all (other : Fin poolSize) : other ∈ pool.replacer.order := by
      refine (idle.free other (by simp)).2.resolve_left ?_
      have inside := occupied other
      simp only [Frame.isEmpty, Option.isNone_iff_eq_none]
      exact Option.isSome_iff_ne_none.mp inside
    have full : recent.length = poolSize := by
      rw [← queues.length, ← List.toFinset_card_of_nodup once,
        Finset.eq_univ_of_forall fun other => List.mem_toFinset.mpr (all other), Finset.card_univ,
        Fintype.card_fin]
    rw [QueuedOnce, queue] at once
    refine ⟨(List.nodup_cons.mp once).1, ?_⟩
    have pages : (order.map fun frameId => (pool.frames frameId).page.map Page.id) =
        ((recent.take (poolSize - 1)).map some).reverse := by
      have popped := congrArg List.tail queues
      rw [queue, List.map_cons, List.tail_cons] at popped
      rw [popped, List.tail_reverse, ← full, ← List.dropLast_eq_take, List.map_dropLast]
    rw [Queues, ← pages]
    refine List.map_congr_left fun other queued => ?_
    have apart : other ≠ victimId := fun same => (List.nodup_cons.mp once).1 (same ▸ queued)
    have elsewhere : (written.cleared victimId page.id order).frames other = written.frames other :=
      setFrame_frames_of_ne apart _
    rw [elsewhere, same.pageIds]

/-- The pool has served a client, which used these pages, and no page is pinned. -/
structure Caches (file : List PageData) (count : ℕ) (used : List UInt32)
    (pool : BufferPool poolSize) : Prop where
  tabled : Tabled pool
  idle : pool.Idle
  once : pool.QueuedOnce
  numPages : pool.disk.numPages.toNat = count
  known : ∀ pageId, Known file count pageId → pool.Visible pageId
  queues : pool.Queues ((Lru.recency used).take poolSize)

/-- The same while the client has a page pinned: unpinned, it will be the last in the queue. -/
structure Lends (file : List PageData) (count : ℕ) (used : List UInt32) (frameId : Fin poolSize)
    (pool : BufferPool poolSize) : Prop where
  tabled : Tabled pool
  busy : pool.Busy frameId
  once : pool.QueuedOnce
  numPages : pool.disk.numPages.toNat = count
  known : ∀ pageId, Known file count pageId → pool.Visible pageId
  queues : Queues { pool with replacer := pool.replacer.unpin frameId }
    ((Lru.recency used).take poolSize)

theorem caches_new {file : List PageData} (short : file.length < 2 ^ 32) :
    Caches file file.length [] (new (DiskManager.new file []) : BufferPool poolSize) := by
  have numPages : (DiskManager.new file []).numPages.toNat = file.length := by
    simp only [DiskManager.new, UInt32.toNat_ofNat']
    exact Nat.mod_eq_of_lt short
  refine ⟨tabled_new numPages.ge rfl, pins_new rfl, List.nodup_nil, numPages, ?_, ?_⟩
  · rintro pageId (stored | ⟨outside, inside⟩)
    · exact .inr stored
    · omega
  · rw [Lru.recency, List.dedup_nil, List.reverse_nil, List.take_nil]
    rfl

theorem Lends.unpin (lends : Lends file count used frameId pool) (isDirty : Bool) :
    Caches file count used (pool.unpin frameId isDirty) := by
  have kept := lends.tabled.retains.unpin frameId isDirty
  refine ⟨kept.tabled, lends.busy.unpin isDirty, once_unpin lends.once _ _, ?_,
    fun pageId known => kept.visible (lends.known pageId known), ?_⟩
  · rw [disk_unpin]
    exact lends.numPages
  · refine lends.queues.congr ?_ fun other _ => ?_
    · rw [unpin_last (lends.busy.count frameId rfl)]
    · exact congrArg _ (getPage_unpin pool frameId other isDirty)

theorem Lends.setPage {page page' : Page} (lends : Lends file count used frameId pool)
    (held : pool.getPage frameId = some page) (sameId : page'.id = page.id) :
    Lends file count used frameId (pool.setPage frameId page') := by
  have kept := lends.tabled.retains.setPage held sameId
  refine ⟨kept.tabled, lends.busy.setPage (by simp [held]) _, lends.once, lends.numPages,
    fun pageId known => kept.visible (lends.known pageId known), ?_⟩
  refine lends.queues.congr rfl fun other _ => ?_
  by_cases same : other = frameId
  · subst same
    rw [getPage] at held
    simp [BufferPool.setPage, held, sameId]
  · exact congrArg (fun frame : Frame => frame.page.map Page.id) (setFrame_frames_of_ne same _)

theorem Lends.giveBack (lends : Lends file count used frameId pool)
    (edit : PageData → PageData) (isDirty : Bool) :
    Caches file count used (giveBack frameId edit isDirty pool) := by
  rw [BufferPool.giveBack]
  cases held : pool.getPage frameId with
  | none => exact lends.unpin isDirty
  | some page =>
      have edited := @Lends.setPage _ _ _ _ _ _ _ _ { page with data := edit page.data } lends held
        rfl
      exact edited.unpin isDirty

omit [Crc32] in
theorem counted_unpin {hits misses : ℕ} (counted : Counted hits misses pool) (isDirty : Bool) :
    Counted hits misses (pool.unpin frameId isDirty) := by
  rw [unpin]
  dsimp only
  split_ifs
  · exact counted
  · exact counted
  · exact counted

omit [Crc32] in
theorem counted_giveBack {hits misses : ℕ} (counted : Counted hits misses pool)
    (edit : PageData → PageData) (isDirty : Bool) :
    Counted hits misses (giveBack frameId edit isDirty pool) := by
  rw [giveBack]
  cases pool.getPage frameId with
  | none => exact counted_unpin counted isDirty
  | some page => exact counted_unpin (by exact counted) isDirty

omit [Crc32] in
/-- A page is put into a frame that has left the queue. -/
theorem Queues.install {page : Page} {isDirty : Bool} (queues : pool.Queues recent)
    (outside : frameId ∉ pool.replacer.order) :
    Queues { pool.install frameId page isDirty with
      replacer := (pool.install frameId page isDirty).replacer.unpin frameId }
      (page.id :: recent) := by
  have pinned : (pool.install frameId page isDirty).replacer = pool.replacer := by
    refine congrArg LruReplacer.mk (List.filter_eq_self.mpr fun other queued => ?_)
    have apart : other ≠ frameId := fun same => outside (same ▸ queued)
    simpa using apart
  have pages : (pool.replacer.order.map fun other =>
      ((pool.install frameId page isDirty).frames other).page.map Page.id) =
      (recent.map some).reverse := by
    rw [← queues]
    refine List.map_congr_left fun other queued => ?_
    have apart : other ≠ frameId := fun same => outside (same ▸ queued)
    exact congrArg (fun frame : Frame => frame.page.map Page.id) (Function.update_of_ne apart _ _)
  have here : (pool.install frameId page isDirty).frames frameId = ⟨some page, 1, isDirty⟩ :=
    Function.update_self _ _ _
  rw [Queues, pinned, LruReplacer.unpin, if_neg outside]
  dsimp only
  rw [List.map_append, pages, List.map_singleton, here, List.map_cons, List.reverse_cons]
  rfl

/-- A frame moves to the back of the queue. -/
theorem Queues.recordAccess {page : Page} (queues : pool.Queues recent) (tabled : Tabled pool)
    (nodup : recent.Nodup) (held : (pool.frames frameId).page = some page) :
    Queues { pool with replacer := (pool.replacer.pin frameId).recordAccess frameId }
      (page.id :: recent.erase page.id) := by
  have only (other : Fin poolSize) :
      decide ((pool.frames other).page.map Page.id ≠ some page.id) = decide (other ≠ frameId) := by
    refine decide_eq_decide.mpr (not_congr ⟨fun same => ?_, fun same => by simp [same, held]⟩)
    rcases Option.map_eq_some_iff.mp same with ⟨found, inside, sameId⟩
    have resident := tabled.frame inside
    rw [sameId, tabled.frame held] at resident
    exact (Option.some.inj resident).symm
  have others : (pool.replacer.order.filter fun other => other ≠ frameId).map
      (fun other => (pool.frames other).page.map Page.id) =
      ((recent.erase page.id).map some).reverse := by
    calc (pool.replacer.order.filter fun other => other ≠ frameId).map
          (fun other => (pool.frames other).page.map Page.id)
        = (pool.replacer.order.map fun other => (pool.frames other).page.map Page.id).filter
            fun pageId => pageId ≠ some page.id := by
          rw [List.filter_map]
          exact congrArg _ (List.filter_congr fun other _ => (only other).symm)
      _ = ((recent.filter fun pageId => pageId ≠ page.id).map some).reverse := by
          rw [queues, List.filter_reverse, List.filter_map]
          refine congrArg (fun pages => (List.map some pages).reverse) ?_
          exact List.filter_congr fun pageId _ => by simp
      _ = ((recent.erase page.id).map some).reverse := by
          rw [nodup.erase_eq_filter]
          refine congrArg (fun pages => (List.map some pages).reverse) ?_
          exact List.filter_congr fun pageId _ => Bool.eq_iff_iff.mpr (by simp)
  rw [Queues, List.map_cons, List.reverse_cons, ← others]
  simp only [LruReplacer.recordAccess, LruReplacer.pin, List.filter_filter, Bool.and_self,
    List.map_append, List.map_singleton, held, Option.map_some]

/-- A hit. -/
theorem Caches.fetchPage_resident (caches : Caches file count used pool)
    (resident : pool.pageTable.lookup pageId = some frameId) :
    ∃ pool', fetchPage pageId pool = (.ok frameId, pool') ∧
      Lends file count (used ++ [pageId]) frameId pool' ∧
      Counted (pool.hits + 1) pool.misses pool' := by
  let found : BufferPool poolSize := pool.hit frameId
  have run : BufferPool.fetchPage pageId pool = (.ok frameId, found) :=
    fetchPage_pinnable resident (caches.idle.pinnable frameId)
  have kept := (retains_fetchPage pageId).ok caches.tabled.retains run
  refine ⟨found, run, ⟨kept.tabled, (ends_fetchPage pageId).ok caches.idle run, ?_,
    caches.numPages, fun pageId known => kept.visible (caches.known pageId known), ?_⟩, rfl, rfl⟩
  · have once := keeps_once_fetchPage pageId pool caches.once
    rwa [run] at once
  · have isRecent : pageId ∈ (Lru.recency used).take poolSize := by
      rw [caches.queues.mem_iff caches.idle caches.tabled, resident]
      rfl
    have still : found.replacer.unpin frameId = found.replacer :=
      if_pos (List.mem_append_right _ (List.mem_singleton_self _))
    rcases caches.tabled.table resident with ⟨page, held, rfl⟩
    rw [← Lru.touch_recency, Lru.touch_of_mem isRecent (List.length_take_le _ _), still]
    have nodup := (Lru.nodup_recency used).sublist (List.take_sublist poolSize _)
    refine (caches.queues.recordAccess caches.tabled nodup held).congr rfl fun other _ => ?_
    by_cases same : other = frameId
    · subst same
      simp [found, hit]
    · exact congrArg (fun frame : Frame => frame.page.map Page.id) (setFrame_frames_of_ne same _)

/-- A page takes a frame that was found for it. -/
theorem Caches.installed {page : Page} {isDirty : Bool} {disk : DiskManager}
    (caches : Caches file count used pool) (frames : 0 < poolSize)
    (missing : pool.pageTable.lookup page.id = none) {start : BufferPool poolSize}
    (same : start.frames = pool.frames) (sameReplacer : start.replacer = pool.replacer)
    (sameDisk : start.disk = pool.disk)
    (run : findFreeFrame start = (.ok frameId, freed)) :
    let pool' := BufferPool.install frameId page isDirty { freed with disk := disk }
    Queues { pool' with replacer := pool'.replacer.unpin frameId }
        ((Lru.recency (used ++ [page.id])).take poolSize) ∧
      Counted start.hits start.misses pool' ∧ freed.disk.numPages = pool.disk.numPages := by
  have lacks : page.id ∉ (Lru.recency used).take poolSize := by
    rw [caches.queues.mem_iff caches.idle caches.tabled, missing]
    simp
  have queues : start.Queues ((Lru.recency used).take poolSize) :=
    caches.queues.congr sameReplacer fun other _ => by rw [same]
  have idle : start.Idle := by
    refine ⟨by simp, fun other free => ?_, by rw [sameDisk, caches.idle.faultless]⟩
    rw [Available, same, sameReplacer]
    exact caches.idle.free other free
  have once : start.QueuedOnce := by
    rw [QueuedOnce, sameReplacer]
    exact caches.once
  rcases queues.findFreeFrame idle once run with ⟨outside, queues'⟩
  have counted : Counted start.hits start.misses freed := by
    have kept := counted_findFreeFrame start ⟨rfl, rfl⟩
    rwa [run] at kept
  refine ⟨?_, counted, ?_⟩
  · have inside : Queues { freed with disk := disk }
        (((Lru.recency used).take poolSize).take (poolSize - 1)) := queues'
    obtain ⟨others, rfl⟩ := Nat.exists_eq_succ_of_ne_zero frames.ne'
    rw [← Lru.touch_recency, Lru.touch_of_notMem lacks]
    exact inside.install outside
  · rcases findFreeFrame_outcome idle.faultless with ⟨_, _, run', numPages, -⟩ | ⟨run', -⟩
    · obtain ⟨-, rfl⟩ := Prod.mk.inj (run.symm.trans run')
      rw [numPages, sameDisk]
    · simp [run] at run'

/-- A miss. -/
theorem Caches.fetchPage_missing (caches : Caches file count used pool) (frames : 0 < poolSize)
    (known : Known file count pageId) (missing : pool.pageTable.lookup pageId = none) :
    ∃ frameId pool', fetchPage pageId pool = (.ok frameId, pool') ∧
      Lends file count (used ++ [pageId]) frameId pool' ∧
      Counted pool.hits (pool.misses + 1) pool' := by
  rcases fetchPage_ok caches.idle caches.tabled (caches.known pageId known) ⟨0, frames⟩ with
    ⟨frameId, pool', run⟩
  have kept := (retains_fetchPage pageId).ok caches.tabled.retains run
  have once := keeps_once_fetchPage pageId pool caches.once
  rw [run] at once
  rcases fetchPage_ends missing with ⟨failure, freed, -, run'⟩ |
    ⟨frameId', freed, found, ⟨error, -, run'⟩ | ⟨data, -, run'⟩⟩
  · simp [run] at run'
  · simp [run] at run'
  · obtain ⟨sameFrame, rfl⟩ := Prod.mk.inj (run.symm.trans run')
    obtain rfl := Except.ok.inj sameFrame
    have absent : pool.pageTable.lookup (Page.fromBytes pageId data).id = none := missing
    obtain ⟨queues, counted, numPages⟩ := @Caches.installed _ _ _ _ _ _ _ _
      (Page.fromBytes pageId data) false { freed.disk with faults := freed.disk.faults.tail } caches
      frames absent { pool with misses := pool.misses + 1 } rfl rfl rfl found
    refine ⟨frameId, _, run, ⟨kept.tabled, (ends_fetchPage pageId).ok caches.idle run, once, ?_,
      fun pageId known => kept.visible (caches.known pageId known), queues⟩, counted⟩
    exact (congrArg UInt32.toNat numPages).trans caches.numPages

theorem Caches.newPage (caches : Caches file count used pool) (frames : 0 < poolSize)
    (room : count + 1 < 2 ^ 32) :
    ∃ frameId pool', newPage pool = (.ok (UInt32.ofNat count, frameId), pool') ∧
      Lends file (count + 1) (used ++ [UInt32.ofNat count]) frameId pool' ∧
      Counted pool.hits pool.misses pool' := by
  have next : pool.disk.numPages = UInt32.ofNat count := by
    rw [← caches.numPages, UInt32.ofNat_toNat]
  have missing : pool.pageTable.lookup pool.disk.numPages = none := by
    by_contra resident
    exact lt_irrefl _ (caches.tabled.lt_of_visible (.inl (Option.isSome_iff_ne_none.mpr resident)))
  rcases newPage_outcome caches.idle.faultless with ⟨frameId, pool', run, -⟩ | ⟨-, full⟩ |
    ⟨-, -, out, -⟩
  · rcases newPage_ends pool with ⟨failure, freed, -, run'⟩ | ⟨frameId', freed, found, run' | run'⟩
    · simp [run] at run'
    · simp [run] at run'
    · obtain ⟨created, rfl⟩ := Prod.mk.inj (run.symm.trans run'.2)
      obtain ⟨sameId, rfl⟩ := Prod.mk.inj (Except.ok.inj created)
      have kept := retains_newPage.ok caches.tabled.retains run
      have once := keeps_once_newPage pool caches.once
      rw [run] at once
      have absent : pool.pageTable.lookup (Page.new freed.disk.numPages).id = none :=
        sameId ▸ missing
      obtain ⟨queues, counted, -⟩ := @Caches.installed _ _ _ _ _ _ _ _
        (Page.new freed.disk.numPages) true { freed.disk with numPages := freed.disk.numPages + 1 }
        caches frames absent pool rfl rfl rfl found
      have given : (Page.new freed.disk.numPages).id = UInt32.ofNat count := sameId.symm.trans next
      rw [given] at queues
      refine ⟨frameId, _, by rw [run, next], ⟨kept.1.tabled, ends_newPage.ok caches.idle run, once,
        ?_, ?_, queues⟩, counted⟩
      · change (freed.disk.numPages + 1).toNat = count + 1
        rw [← caches.numPages] at room
        rw [← sameId, Counter.toNat_succ room, caches.numPages]
      · rintro pageId (stored | ⟨outside, inside⟩)
        · exact kept.1.visible (caches.known pageId (.inl stored))
        · rcases Nat.lt_succ_iff_lt_or_eq.mp inside with old | last
          · exact kept.1.visible (caches.known pageId (.inr ⟨outside, old⟩))
          · have newest : pageId = pool.disk.numPages := by
              rw [next, ← last, UInt32.ofNat_toNat]
            exact newest ▸ kept.2.1
  · exact absurd (caches.idle.free ⟨0, frames⟩ (by simp)).2 (full ⟨0, frames⟩)
  · rw [caches.numPages] at out
    exact absurd room out

theorem Caches.flushPage (caches : Caches file count used pool) (pageId : UInt32) :
    ∃ pool', flushPage pageId pool = (.ok (), pool') ∧ Caches file count used pool' ∧
      Counted pool.hits pool.misses pool' := by
  have kept := retains_flushPage pageId pool caches.tabled.retains
  have idle := ends_flushPage pageId pool caches.idle
  have same := sameHolding_flushPage pageId pool
  have counted := counted_flushPage pageId pool ⟨rfl, rfl⟩
  rcases run : BufferPool.flushPage pageId pool with ⟨failure | done, pool'⟩
  · rw [run] at idle
    exact idle.elim
  · rw [run] at kept idle same counted
    exact ⟨pool', rfl, ⟨kept.1.tabled, idle, same.queuedOnce caches.once,
      (congrArg UInt32.toNat same.numPages).trans caches.numPages,
      fun pageId known => kept.1.visible (caches.known pageId known), same.queues caches.queues⟩,
      counted⟩

theorem Caches.flushPages (caches : Caches file count used pool) (pageIds : List UInt32) :
    ∃ pool', Fallible.forEach pageIds BufferPool.flushPage pool = (.ok (), pool') ∧
      Caches file count used pool' ∧ Counted pool.hits pool.misses pool' := by
  induction pageIds generalizing pool with
  | nil => exact ⟨pool, rfl, caches, rfl, rfl⟩
  | cons pageId pageIds ih =>
      rcases caches.flushPage pageId with ⟨flushed, first, caches', counted⟩
      rcases ih caches' with ⟨pool', rest, caches'', counted'⟩
      rw [counted.1, counted.2] at counted'
      exact ⟨pool', by rw [forEach, bind_ok first, rest], caches'', counted'⟩

/-- A request is served, and the page that it uses comes first. -/
theorem Caches.serve (caches : Caches file count used pool) (frames : 0 < poolSize)
    {request : Request} (sound : request.Sound file count) :
    ∃ pool', request.serve pool = (.ok (), pool') ∧
      Caches file (request.counted count) (used ++ request.uses count) pool' ∧
      Counted (pool.hits + request.hits ((Lru.recency used).take poolSize))
        (pool.misses + request.misses ((Lru.recency used).take poolSize)) pool' := by
  cases request with
  | newPage edit isDirty =>
      rcases caches.newPage frames sound with ⟨frameId, created, run, lends, counted⟩
      refine ⟨_, ?_, lends.giveBack edit isDirty, counted_giveBack counted edit isDirty⟩
      rw [Request.serve, bind_ok run, modify_apply]
  | fetchPage pageId edit isDirty =>
      have isRecent := @Queues.mem_iff _ _ _ pageId _ caches.queues caches.idle caches.tabled
      cases resident : pool.pageTable.lookup pageId with
      | some frameId =>
          rw [resident, Option.isSome_some] at isRecent
          rcases caches.fetchPage_resident resident with ⟨found, run, lends, counted⟩
          refine ⟨_, ?_, lends.giveBack edit isDirty, ?_⟩
          · rw [Request.serve, bind_ok run, modify_apply]
          · rw [Request.hits, Request.misses, if_pos (isRecent.mpr rfl), if_pos (isRecent.mpr rfl)]
            exact counted_giveBack counted edit isDirty
      | none =>
          rw [resident, Option.isSome_none] at isRecent
          have lacks := fun inside => Bool.false_ne_true (isRecent.mp inside)
          rcases caches.fetchPage_missing frames sound resident with
            ⟨frameId, read, run, lends, counted⟩
          refine ⟨_, ?_, lends.giveBack edit isDirty, ?_⟩
          · rw [Request.serve, bind_ok run, modify_apply]
          · rw [Request.hits, Request.misses, if_neg lacks, if_neg lacks]
            exact counted_giveBack counted edit isDirty
  | flushPage pageId =>
      have unused : used ++ (Request.flushPage pageId).uses count = used := List.append_nil used
      rw [unused]
      exact caches.flushPage pageId
  | flushAll order =>
      have unused : used ++ (Request.flushAll order).uses count = used := List.append_nil used
      rw [unused]
      exact caches.flushPages (order pool.pageTable.keys)

end Steps

section Runs

variable {requests : List Request}

theorem Caches.serves (caches : Caches file count used pool) (frames : 0 < poolSize)
    (sound : SoundFrom file count requests) :
    ∃ pool' count', Fallible.forEach requests Request.serve pool = (.ok (), pool') ∧
      Caches file count' (used ++ usesFrom count requests) pool' := by
  induction requests generalizing pool count used with
  | nil => exact ⟨pool, count, rfl, by rwa [usesFrom, List.append_nil]⟩
  | cons request requests ih =>
      rcases caches.serve frames sound.1 with ⟨served, first, caches', -⟩
      rcases ih caches' sound.2 with ⟨pool', count', rest, caches''⟩
      refine ⟨pool', count', by rw [forEach, bind_ok first, rest], ?_⟩
      rwa [usesFrom, ← List.append_assoc]

/-- Every request is served, and the pages in the pool are then those that were used last, as
many as there are frames; the queue has them in the order of their last uses. -/
theorem residents_of_requests (frames : 0 < poolSize) (short : file.length < 2 ^ 32)
    (sound : SoundFrom file file.length requests) :
    ∃ pool : BufferPool poolSize,
      Fallible.forEach requests Request.serve (new (DiskManager.new file [])) = (.ok (), pool) ∧
      pool.residents = (usesFrom file.length requests).dedup.reverse.take poolSize ∧
      ∀ pageId, (pool.pageTable.lookup pageId).isSome ↔ pageId ∈ pool.residents := by
  rcases (caches_new short).serves frames sound with ⟨pool, count, run, caches⟩
  refine ⟨pool, run, caches.queues.residents, fun pageId => ?_⟩
  rw [caches.queues.residents]
  exact (caches.queues.mem_iff caches.idle caches.tabled).symm

omit [Crc32] in
theorem Request.hits_mono {cache cache' : List UInt32} (subset : cache ⊆ cache')
    (request : Request) : request.hits cache ≤ request.hits cache' := by
  cases request with
  | fetchPage pageId edit isDirty =>
      simp only [Request.hits]
      split_ifs with here there
      · exact le_rfl
      · exact absurd (subset here) there
      · exact Nat.zero_le _
      · exact le_rfl
  | _ => exact le_rfl

omit [Crc32] in
theorem Request.misses_anti {cache cache' : List UInt32} (subset : cache ⊆ cache')
    (request : Request) : request.misses cache' ≤ request.misses cache := by
  cases request with
  | fetchPage pageId edit isDirty =>
      simp only [Request.misses]
      split_ifs with there here
      · exact le_rfl
      · exact Nat.zero_le _
      · exact absurd (subset ‹_›) there
      · exact le_rfl
  | _ => exact le_rfl

/-- Two pools serve the same client. -/
theorem Caches.serves_both {smaller larger : ℕ} {small : BufferPool smaller}
    {large : BufferPool larger} (caches : Caches file count used small)
    (caches' : Caches file count used large) (frames : 0 < smaller) (le : smaller ≤ larger)
    (sound : SoundFrom file count requests) (hits : small.hits ≤ large.hits)
    (misses : large.misses ≤ small.misses) :
    ∃ small' large', Fallible.forEach requests Request.serve small = (.ok (), small') ∧
      Fallible.forEach requests Request.serve large = (.ok (), large') ∧
      small'.hits ≤ large'.hits ∧ large'.misses ≤ small'.misses := by
  induction requests generalizing small large count used with
  | nil => exact ⟨small, large, rfl, rfl, hits, misses⟩
  | cons request requests ih =>
      rcases caches.serve frames sound.1 with ⟨small₁, first, caches₁, counted⟩
      rcases caches'.serve (frames.trans_le le) sound.1 with ⟨large₁, first', caches₁', counted'⟩
      have subset : (Lru.recency used).take smaller ⊆ (Lru.recency used).take larger :=
        (List.take_sublist_take_left le).subset
      have hits₁ : small₁.hits ≤ large₁.hits := by
        rw [counted.1, counted'.1]
        exact Nat.add_le_add hits (request.hits_mono subset)
      have misses₁ : large₁.misses ≤ small₁.misses := by
        rw [counted.2, counted'.2]
        exact Nat.add_le_add misses (request.misses_anti subset)
      rcases ih caches₁ caches₁' sound.2 hits₁ misses₁ with ⟨small', large', rest, rest', ends⟩
      exact ⟨small', large', by rw [forEach, bind_ok first, rest],
        by rw [forEach, bind_ok first', rest'], ends⟩

/-- More frames never do harm: the larger pool has every page in a frame that the smaller one has,
it hits at least as often, and it misses no more often. -/
theorem larger_pool {smaller larger : ℕ} (frames : 0 < smaller) (le : smaller ≤ larger)
    (short : file.length < 2 ^ 32) (sound : SoundFrom file file.length requests) :
    ∃ (small : BufferPool smaller) (large : BufferPool larger),
      Fallible.forEach requests Request.serve (new (DiskManager.new file [])) = (.ok (), small) ∧
      Fallible.forEach requests Request.serve (new (DiskManager.new file [])) = (.ok (), large) ∧
      (∀ pageId, (small.pageTable.lookup pageId).isSome → (large.pageTable.lookup pageId).isSome) ∧
      small.hits ≤ large.hits ∧ large.misses ≤ small.misses := by
  rcases Caches.serves_both (caches_new short : Caches _ _ _ (new _ : BufferPool smaller))
    (caches_new short : Caches _ _ _ (new _ : BufferPool larger)) frames le sound le_rfl le_rfl with
    ⟨small, large, run, run', counters⟩
  rcases residents_of_requests frames short sound with ⟨pool, run₁, residents, inTable⟩
  rcases residents_of_requests (frames.trans_le le) short sound with
    ⟨pool', run₁', residents', inTable'⟩
  obtain ⟨-, rfl⟩ := Prod.mk.inj (run.symm.trans run₁)
  obtain ⟨-, rfl⟩ := Prod.mk.inj (run'.symm.trans run₁')
  refine ⟨small, large, run, run', fun pageId resident => ?_, counters⟩
  rw [inTable, residents] at resident
  rw [inTable', residents']
  exact (List.take_sublist_take_left le).subset resident

end Runs

end VenomDb.BufferPool

namespace VenomDb.BufferPool

attribute [local instance] Crc32.ieee

/-- Three pages are created, and the first one is used again before the last. -/
def firstAgain : List Request :=
  [.newPage id true, .newPage id true, .newPage id true, .fetchPage 0 id false,
    .fetchPage 2 id false]

theorem sound_firstAgain : SoundFrom [] 0 firstAgain := by
  simp [firstAgain, SoundFrom, Request.Sound, Request.counted, Known]

theorem residents_of_firstAgain :
    ∃ pool : BufferPool 2,
      Fallible.forEach firstAgain Request.serve (new (DiskManager.new [] [])) = (.ok (), pool) ∧
      pool.residents = [2, 0] ∧
      ∀ pageId, (pool.pageTable.lookup pageId).isSome ↔ pageId ∈ pool.residents :=
  residents_of_requests (by decide) (by decide) sound_firstAgain

theorem larger_pool_firstAgain :
    ∃ (small : BufferPool 1) (large : BufferPool 2),
      Fallible.forEach firstAgain Request.serve (new (DiskManager.new [] [])) = (.ok (), small) ∧
      Fallible.forEach firstAgain Request.serve (new (DiskManager.new [] [])) = (.ok (), large) ∧
      (∀ pageId, (small.pageTable.lookup pageId).isSome → (large.pageTable.lookup pageId).isSome) ∧
      small.hits ≤ large.hits ∧ large.misses ≤ small.misses :=
  larger_pool (by decide) (by decide) (by decide) sound_firstAgain

end VenomDb.BufferPool
