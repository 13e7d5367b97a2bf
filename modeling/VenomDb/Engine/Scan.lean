import VenomDb.Engine.Refinement

/-!
# Scans refine logical scans

A scan reads its tuples one by one while it changes the heap; the logical scan runs
over the tuples that were live when it started. They agree for every body that is
matched by a step and touches no tuple but its own.
-/

namespace VenomDb

namespace Heap

/-- At most one tuple was changed, and no slot came or went. -/
structure Touches (rid : Rid) (before after : Heap) : Prop where
  get : ∀ {other}, other ≠ rid → after.get other = before.get other
  size : ∀ pageId, (after pageId).map (fun page => page.cells.length) =
    (before pageId).map fun page => page.cells.length

theorem Touches.refl (rid : Rid) (heap : Heap) : Touches rid heap heap :=
    ⟨fun _ => rfl, fun _ => rfl⟩

variable {rid : Rid} {before after : Heap}

theorem Touches.slots (touches : Touches rid before after) (pageId : UInt32) :
    after.slots pageId = before.slots pageId := by
  have size := touches.size pageId
  cases old : before pageId <;> cases new : after pageId <;> simp_all [Heap.slots]

theorem Touches.isSome (touches : Touches rid before after) (pageId : UInt32) :
    (after pageId).isSome = (before pageId).isSome := by
  simpa using congrArg Option.isSome (touches.size pageId)

theorem Touches.liveIn (touches : Touches rid before after) {pageId : UInt32}
    {slotIds : List UInt16}
    (apart : ∀ slotId ∈ slotIds, (⟨pageId, slotId⟩ : Rid) ≠ rid) :
    after.liveIn pageId slotIds = before.liveIn pageId slotIds := by
  unfold Heap.liveIn
  apply List.filterMap_congr
  intro slotId inside
  rw [touches.get (apart slotId inside)]

theorem Touches.live (touches : Touches rid before after) {pageIds : List UInt32}
    (apart : rid.pageId ∉ pageIds) : after.live pageIds = before.live pageIds := by
  unfold Heap.live
  apply List.flatMap_congr
  intro pageId inside
  rw [touches.slots, touches.liveIn]
  rintro slotId - rfl
  exact apart inside

/-- A change of one slot of a page. -/
theorem touches_update (heap : Heap) (rid : Rid) {change : SlottedPage → SlottedPage}
    (length : ∀ page, (change page).cells.length = page.cells.length)
    (others : ∀ page slot, slot ≠ rid.slotId.toNat → (change page).get slot = page.get slot) :
    Touches rid heap (heap.update rid.pageId change) where
  get := by
    intro other ne
    by_cases same : other.pageId = rid.pageId
    · have apart : other.slotId.toNat ≠ rid.slotId.toNat := by
        intro sameSlot
        exact ne (by
          cases other
          cases rid
          simp_all [UInt16.toNat_inj])
      cases found : heap rid.pageId <;> simp [Heap.get, Heap.update, same, found, others _ _ apart]
    · simp [Heap.get, Heap.update, same]
  size := by
    intro pageId
    by_cases same : pageId = rid.pageId
    · subst same
      cases found : heap rid.pageId <;> simp [Heap.update, found, length]
    · simp [Heap.update, same]

/-- A live tuple is on a page of the heap. -/
theorem exists_page_of_get {heap : Heap} {rid : Rid} {tuple : Bytes}
    (live : heap.get rid = some tuple) :
    ∃ page, heap rid.pageId = some page ∧ page.get rid.slotId.toNat = some tuple := by
  simpa [Heap.get, Option.bind_eq_some_iff] using live

theorem update_of_some {heap : Heap} {pageId : UInt32} {page : SlottedPage}
    (found : heap pageId = some page) (change : SlottedPage → SlottedPage) :
    heap.update pageId change = Function.update heap pageId (some (change page)) := by
  rw [Heap.update, found, Option.map_some]

theorem mem_liveIn {heap : Heap} {pageId : UInt32} {slotIds : List UInt16} {entry : Rid × Bytes}
    (inside : entry ∈ heap.liveIn pageId slotIds) : entry.1.pageId = pageId := by
  simp only [Heap.liveIn, List.mem_filterMap, Option.map_eq_some_iff] at inside
  rcases inside with ⟨slotId, -, tuple, -, rfl⟩
  rfl

theorem nodup_slots {heap : Heap} {pageId : UInt32}
    (compact : ∀ {page}, heap pageId = some page → page.cells.length < 2 ^ 16) :
    (heap.slots pageId).Nodup := by
  cases found : heap pageId with
  | none => simp [Heap.slots, found]
  | some page =>
      have short := compact found
      simp only [Heap.slots, found, Option.elim_some]
      refine List.Nodup.map_on (fun left leftInside right rightInside same => ?_) List.nodup_range
      have toNat := congrArg UInt16.toNat same
      rw [List.mem_range] at leftInside rightInside
      rwa [UInt16.toNat_ofNat_of_lt' (by simp [UInt16.size]; omega),
        UInt16.toNat_ofNat_of_lt' (by simp [UInt16.size]; omega)] at toNat

/-- The entries of a scan are the live tuples of its pages. -/
theorem mem_live {heap : Heap} {pageIds : List UInt32} {entry : Rid × Bytes} :
    entry ∈ heap.live pageIds ↔ entry.1.pageId ∈ pageIds ∧ heap.get entry.1 = some entry.2 := by
  rcases entry with ⟨⟨pageId, slotId⟩, tuple⟩
  simp only [Heap.live, Heap.liveIn, List.mem_flatMap, List.mem_filterMap, Option.map_eq_some_iff,
    Prod.mk.injEq, Rid.mk.injEq]
  constructor
  · rintro ⟨owner, listed, slot, -, bytes, live, ⟨rfl, rfl⟩, rfl⟩
    exact ⟨listed, live⟩
  · rintro ⟨listed, live⟩
    refine ⟨pageId, listed, slotId, ?_, tuple, live, ⟨rfl, rfl⟩, rfl⟩
    rcases exists_page_of_get live with ⟨page, found, here⟩
    rcases SlottedPage.get_eq_some here with ⟨inside, -⟩
    simp only [Heap.slots, List.mem_map, List.mem_range]
    exact ⟨slotId.toNat, by rw [show heap pageId = some page from found]; exact inside, by simp⟩

theorem nodup_live {heap : Heap} {pageIds : List UInt32} (nodup : pageIds.Nodup)
    (compact : ∀ {pageId page}, heap pageId = some page → page.cells.length < 2 ^ 16) :
    ((heap.live pageIds).map Prod.fst).Nodup := by
  induction pageIds with
  | nil => simp [Heap.live]
  | cons pageId pageIds ih =>
      rcases List.nodup_cons.mp nodup with ⟨apart, nodup⟩
      rw [show heap.live (pageId :: pageIds) =
        heap.liveIn pageId (heap.slots pageId) ++ heap.live pageIds by simp [Heap.live],
        List.map_append, List.nodup_append]
      refine ⟨?_, ih nodup, ?_⟩
      · have slots : (heap.slots pageId).Nodup := nodup_slots fun found => compact found
        rw [Heap.liveIn, List.map_filterMap]
        refine slots.filterMap fun first second rid inFirst inSecond => ?_
        simp only [Option.map_map, Option.mem_def, Option.map_eq_some_iff,
          Function.comp_apply] at inFirst inSecond
        rcases inFirst with ⟨-, -, rfl⟩
        rcases inSecond with ⟨-, -, same⟩
        simpa using congrArg Rid.slotId same.symm
      · rintro left leftInside right rightInside rfl
        rcases List.mem_map.mp leftInside with ⟨first, firstInside, rfl⟩
        rcases List.mem_map.mp rightInside with ⟨second, secondInside, same⟩
        have inside := (mem_live.mp secondInside).1
        rw [same, mem_liveIn firstInside] at inside
        exact apart inside

/-- The entries of pages whose tuples were changed one by one. -/
theorem live_filterMap {before after : Heap} {pageIds : List UInt32}
    {outcome : Bytes → Option Bytes}
    (slots : ∀ pageId ∈ pageIds, after.slots pageId = before.slots pageId)
    (get : ∀ rid : Rid, rid.pageId ∈ pageIds → after.get rid = (before.get rid).bind outcome) :
    after.live pageIds = (before.live pageIds).filterMap fun entry =>
      (outcome entry.2).map fun tuple => (entry.1, tuple) := by
  rw [live, live, List.filterMap_flatMap]
  apply List.flatMap_congr
  intro pageId inside
  rw [liveIn, liveIn, slots pageId inside, List.filterMap_filterMap]
  apply List.filterMap_congr
  intro slotId _
  rw [get ⟨pageId, slotId⟩ inside]
  cases before.get ⟨pageId, slotId⟩ <;> rfl

end Heap

namespace Logical

variable {α : Type} {step : Rid → Bytes → α → Fallible Failure Logical (Bool × α)}

/-- A step that changes no tuple but its own. -/
def IsLocal (step : Rid → Bytes → α → Fallible Failure Logical (Bool × α)) : Prop :=
  ∀ rid tuple result logical,
    Heap.Touches rid logical.heap (step rid tuple result logical).2.heap

theorem scan_append (front back : List (Rid × Bytes)) (result : α) (logical : Logical) :
    scan step (front ++ back) result logical =
      (scan step front result logical).andThen (scan step back) := by
  induction front generalizing result logical with
  | nil => simp [scan, ScanEnd.andThen, ScanEnd.after]
  | cons head front ih =>
      rcases head with ⟨rid, tuple⟩
      rw [List.cons_append, scan, scan]
      rcases step rid tuple result logical with ⟨outcome, logical'⟩
      cases outcome with
      | error failure => rfl
      | ok outcome =>
          rcases outcome with ⟨changed, result'⟩
          simp only [ih]
          rcases scan step front result' logical' with ⟨end', changed', logical''⟩
          cases end' <;> simp [ScanEnd.andThen, ScanEnd.after, Bool.or_assoc]

/-- What every step of a scan preserves, the scan preserves. -/
theorem scan_preserves (invariant : Logical → Prop) {tuples : List (Rid × Bytes)}
    (steps : ∀ entry ∈ tuples, ∀ result logical, invariant logical →
      invariant (step entry.1 entry.2 result logical).2) (result : α) {logical : Logical}
    (holds : invariant logical) : invariant (scan step tuples result logical).state := by
  induction tuples generalizing result logical with
  | nil => exact holds
  | cons head tuples ih =>
      have stepped := steps head (by simp) result logical holds
      rw [scan]
      rcases outcome : step head.1 head.2 result logical with ⟨_ | ⟨changed, result'⟩, logical'⟩
      · simpa [outcome] using stepped
      · rw [outcome] at stepped
        exact ih (fun entry inside => steps entry (by simp [inside])) result' stepped

/-- What its scan and the commit record keep, a transaction keeps. -/
theorem transact_preserves
    {step : UInt32 → Rid → Bytes → Unit → Fallible Failure Logical (Bool × Unit)}
    {pageIds : List UInt32} {logical : Logical} (invariant : Logical → Prop)
    (commit : ∀ {logical : Logical} (txnId : UInt32), invariant logical →
      invariant (logical.commit txnId))
    (scanned : invariant
      (logical.beginTxn.scan (step logical.nextTxnId) (logical.heap.live pageIds) ()).state) :
    invariant (logical.transact step pageIds).state := by
  rw [transact]
  generalize logical.beginTxn.scan (step logical.nextTxnId) (logical.heap.live pageIds) () =
    ended at scanned ⊢
  rcases ended with ⟨failure | _, changed, logical'⟩
  · exact scanned
  · exact commit _ scanned

/-- A scan whose steps all succeed succeeds. -/
theorem scan_ok {tuples : List (Rid × Bytes)}
    (steps : ∀ entry ∈ tuples, ∀ result logical, ∃ outcome,
      (step entry.1 entry.2 result logical).1 = .ok outcome) (result : α) (logical : Logical) :
    ∃ result', (scan step tuples result logical).result = .ok result' := by
  induction tuples generalizing result logical with
  | nil => exact ⟨result, rfl⟩
  | cons head tuples ih =>
      rcases steps head (by simp) result logical with ⟨⟨changed, middle⟩, ran⟩
      rw [scan]
      rcases ended : step head.1 head.2 result logical with ⟨outcome, logical'⟩
      rw [ended] at ran
      obtain rfl : outcome = .ok (changed, middle) := ran
      exact ih (fun entry inside => steps entry (by simp [inside])) middle logical'

/-- The same for steps that rely on their tuple being live: no other step touches it. -/
theorem scan_preserves_live (isLocal : IsLocal step) (invariant : Logical → Prop)
    {tuples : List (Rid × Bytes)} (nodup : (tuples.map Prod.fst).Nodup)
    (steps : ∀ entry ∈ tuples, ∀ result logical, invariant logical →
      logical.heap.get entry.1 = some entry.2 →
      invariant (step entry.1 entry.2 result logical).2) (result : α) {logical : Logical}
    (live : ∀ entry ∈ tuples, logical.heap.get entry.1 = some entry.2)
    (holds : invariant logical) : invariant (scan step tuples result logical).state := by
  induction tuples generalizing result logical with
  | nil => exact holds
  | cons head tuples ih =>
      rcases List.nodup_cons.mp nodup with ⟨apart, nodup⟩
      have stepped := steps head (by simp) result logical holds (live head (by simp))
      have touches := isLocal head.1 head.2 result logical
      have liveRest : ∀ entry ∈ tuples,
          (step head.1 head.2 result logical).2.heap.get entry.1 = some entry.2 := by
        intro entry inside
        rw [touches.get (fun same => apart (same ▸ List.mem_map_of_mem inside))]
        exact live entry (by simp [inside])
      rw [scan]
      rcases outcome : step head.1 head.2 result logical with ⟨_ | ⟨changed, result'⟩, logical'⟩
      · simpa [outcome] using stepped
      · rw [outcome] at stepped liveRest
        exact ih nodup (fun entry inside => steps entry (by simp [inside])) result' liveRest stepped

/-- A step that does nothing when it says so. -/
def Skips (step : Rid → Bytes → α → Fallible Failure Logical (Bool × α)) : Prop :=
  ∀ rid tuple result result' logical logical',
    step rid tuple result logical = (.ok (false, result'), logical') → logical' = logical

/-- A scan without a change stays where it is, up to the step that fails. -/
theorem scan_unchanged {tuples : List (Rid × Bytes)} (skips : Skips step) (result : α)
    {logical : Logical} (unchanged : (scan step tuples result logical).changed = false) :
    (∃ result', (scan step tuples result logical).result = .ok result' ∧
      (scan step tuples result logical).state = logical) ∨
    ∃ entry ∈ tuples, ∃ failure result',
      (scan step tuples result logical).result = .error failure ∧
      step entry.1 entry.2 result' logical =
        (.error failure, (scan step tuples result logical).state) := by
  induction tuples generalizing result with
  | nil => exact .inl ⟨result, rfl, rfl⟩
  | cons head tuples ih =>
      rw [scan] at unchanged ⊢
      rcases outcome : step head.1 head.2 result logical with
        ⟨failure | ⟨changed, result'⟩, logical'⟩
      · exact .inr ⟨head, by simp, failure, result, rfl, outcome⟩
      · rw [outcome] at unchanged
        obtain ⟨rfl, rest⟩ : changed = false ∧ (scan step tuples result' logical').changed =
            false := by
          simpa [ScanEnd.after] using unchanged
        obtain rfl := skips _ _ _ _ _ _ outcome
        rcases ih result' rest with ⟨final, ok, same⟩ | ⟨entry, inside, failed⟩
        · exact .inl ⟨final, ok, same⟩
        · exact .inr ⟨entry, by simp [inside], failed⟩

/-- A scan leaves the pages of the heap in place. -/
theorem scan_isSome (isLocal : IsLocal step) (tuples : List (Rid × Bytes)) (result : α)
    (logical : Logical) (pageId : UInt32) :
    ((scan step tuples result logical).state.heap pageId).isSome =
      (logical.heap pageId).isSome := by
  refine scan_preserves (fun logical' =>
    (logical'.heap pageId).isSome = (logical.heap pageId).isSome) ?_ result rfl
  intro entry _ result logical' same
  rw [← same]
  exact (isLocal entry.1 entry.2 result logical').isSome pageId

/-- In a scan that succeeds every step does. -/
theorem scan_steps {tuples : List (Rid × Bytes)} {result final : α} {logical : Logical}
    (ok : (scan step tuples result logical).result = .ok final) :
    ∀ entry ∈ tuples, ∃ result logical changed result' logical',
      step entry.1 entry.2 result logical = (.ok (changed, result'), logical') := by
  induction tuples generalizing result logical with
  | nil => simp
  | cons head tuples ih =>
      rw [scan] at ok
      rcases ran : step head.1 head.2 result logical with ⟨_ | ⟨changed, result'⟩, logical'⟩
      · simp [ran] at ok
      · rw [ran] at ok
        intro entry inside
        rcases List.mem_cons.mp inside with rfl | inside
        · exact ⟨_, _, _, _, _, ran⟩
        · exact ih ok entry inside

/-- A scan leaves the slots of every page in place. -/
theorem scan_slots (isLocal : IsLocal step) (tuples : List (Rid × Bytes)) (result : α)
    (logical : Logical) (pageId : UInt32) :
    (scan step tuples result logical).state.heap.slots pageId = logical.heap.slots pageId := by
  refine scan_preserves (fun logical' =>
    logical'.heap.slots pageId = logical.heap.slots pageId) ?_ result rfl
  intro entry _ result logical' same
  rw [← same]
  exact (isLocal entry.1 entry.2 result logical').slots pageId

/-- A scan changes no tuple but those it runs over. -/
theorem scan_get_of_not_mem (isLocal : IsLocal step) {tuples : List (Rid × Bytes)} {rid : Rid}
    (apart : rid ∉ tuples.map Prod.fst) (result : α) (logical : Logical) :
    (scan step tuples result logical).state.heap.get rid = logical.heap.get rid := by
  refine scan_preserves (fun logical' => logical'.heap.get rid = logical.heap.get rid) ?_ result rfl
  intro entry inside result logical' same
  rw [← same]
  refine (isLocal entry.1 entry.2 result logical').get ?_
  rintro rfl
  exact apart (List.mem_map_of_mem inside)

/-- A scan that succeeds leaves of each tuple what its own step has made of it. -/
theorem scan_get_of_mem (isLocal : IsLocal step) (outcome : Bytes → Option Bytes)
    {tuples : List (Rid × Bytes)} (nodup : (tuples.map Prod.fst).Nodup)
    (works : ∀ entry ∈ tuples, ∀ result changed result' logical logical',
      logical.heap.get entry.1 = some entry.2 →
      step entry.1 entry.2 result logical = (.ok (changed, result'), logical') →
      logical'.heap.get entry.1 = outcome entry.2) (result : α) {final : α} {logical : Logical}
    (live : ∀ entry ∈ tuples, logical.heap.get entry.1 = some entry.2)
    (ok : (scan step tuples result logical).result = .ok final) :
    ∀ entry ∈ tuples, (scan step tuples result logical).state.heap.get entry.1 =
      outcome entry.2 := by
  induction tuples generalizing result logical with
  | nil => simp
  | cons head tuples ih =>
      rcases List.nodup_cons.mp nodup with ⟨apart, nodup⟩
      have touches := isLocal head.1 head.2 result logical
      rw [scan] at ok ⊢
      rcases ran : step head.1 head.2 result logical with ⟨_ | ⟨changed, result'⟩, logical'⟩
      · simp [ran] at ok
      · rw [ran] at touches ok
        have liveRest : ∀ entry ∈ tuples, logical'.heap.get entry.1 = some entry.2 := by
          intro entry inside
          rw [touches.get (fun same => apart (same ▸ List.mem_map_of_mem inside))]
          exact live entry (by simp [inside])
        intro entry inside
        rcases List.mem_cons.mp inside with rfl | inside
        · rw [show (ScanEnd.after changed (scan step tuples result' logical')).state =
            (scan step tuples result' logical').state from rfl,
            scan_get_of_not_mem isLocal apart]
          exact works entry (by simp) _ _ _ _ _ (live entry (by simp)) ran
        · exact ih nodup (fun other here => works other (by simp [here])) result' liveRest ok entry
            inside

/-- The same for all tuples of some pages. -/
theorem scan_get (isLocal : IsLocal step) (outcome : Bytes → Option Bytes) {pageIds : List UInt32}
    {logical : Logical} (nodup : ((logical.heap.live pageIds).map Prod.fst).Nodup)
    (works : ∀ rid tuple result changed result' logical logical',
      logical.heap.get rid = some tuple →
      step rid tuple result logical = (.ok (changed, result'), logical') →
      logical'.heap.get rid = outcome tuple) {result final : α}
    (ok : (scan step (logical.heap.live pageIds) result logical).result = .ok final) (rid : Rid) :
    (scan step (logical.heap.live pageIds) result logical).state.heap.get rid =
      if rid.pageId ∈ pageIds then (logical.heap.get rid).bind outcome else logical.heap.get
        rid := by
  have unlisted (apart : rid ∉ (logical.heap.live pageIds).map Prod.fst) :=
    scan_get_of_not_mem isLocal apart result logical
  split_ifs with listed
  · cases live : logical.heap.get rid with
    | none =>
        rw [unlisted, live, Option.bind_none]
        intro inside
        rcases List.mem_map.mp inside with ⟨entry, here, rfl⟩
        rw [(Heap.mem_live.mp here).2] at live
        simp at live
    | some tuple =>
        have inside : (rid, tuple) ∈ logical.heap.live pageIds := Heap.mem_live.mpr ⟨listed, live⟩
        exact scan_get_of_mem isLocal outcome nodup (fun entry _ => works entry.1 entry.2) result
          (fun entry here => (Heap.mem_live.mp here).2) ok _ inside
  · apply unlisted
    intro inside
    rcases List.mem_map.mp inside with ⟨entry, here, rfl⟩
    exact listed (Heap.mem_live.mp here).1

/-- A scan of some pages leaves the tuples of other pages alone. -/
theorem scan_live (isLocal : IsLocal step) {tuples : List (Rid × Bytes)} {pageIds : List UInt32}
    (apart : ∀ tuple ∈ tuples, tuple.1.pageId ∉ pageIds) (result : α) (logical : Logical) :
    (scan step tuples result logical).state.heap.live pageIds = logical.heap.live pageIds := by
  refine scan_preserves (fun logical' =>
    logical'.heap.live pageIds = logical.heap.live pageIds) ?_ result rfl
  intro entry inside result logical' same
  rw [← same]
  exact (isLocal entry.1 entry.2 result logical').live (apart entry inside)

end Logical

namespace Executor

variable {α : Type} [Crc32]

/-- How a body and its step end on a tuple of a held page. An error leaves the page pinned, and a
change of it unmarked, unless it is a row that does not fit into its place. -/
def BodyEnds (executor : Executor) (frameId : FrameId) (pageId : UInt32) (dirty : Bool) :
    Except Failure (Bool × α) × Executor → Except Failure (Bool × α) × Logical → Prop
  | (.ok found, executor'), (.ok expected, logical') =>
      found = expected ∧ Using executor' logical' frameId pageId (dirty || found.1) ∧
        Advances executor executor' none
  | (.error failure, executor'), (.error expected, logical') =>
      failure = expected ∧
        (dirty = false ∨ failure = .sql .updateLarger → Reflects executor' logical' none) ∧
        Advances executor executor' none ∧ executor'.core = logical'.toCore
  | _, _ => False

/-- A body of a scan does what a step says, on every live tuple. -/
structure BodyRefines (body : UInt32 → FrameId → UInt16 → Bool → Bytes → α → Action (Bool × α))
    (step : Rid → Bytes → α → Fallible Failure Logical (Bool × α)) : Prop where
  isLocal : Logical.IsLocal step
  ends : ∀ {executor logical frameId pageId slotId dirty tuple} (result : α),
    Using executor logical frameId pageId dirty → logical.heap.get ⟨pageId, slotId⟩ = some tuple →
    BodyEnds executor frameId pageId dirty (body pageId frameId slotId dirty tuple result executor)
      (step ⟨pageId, slotId⟩ tuple result logical)

/-- A relation that a scan of some pages keeps: fetching and releasing pages does, and so does a
body that succeeds. -/
structure BodyKeeps (holds : Executor → Logical → Prop) (scanned : UInt32 → Prop)
    (body : UInt32 → FrameId → UInt16 → Bool → Bytes → α → Action (Bool × α))
    (step : Rid → Bytes → α → Fallible Failure Logical (Bool × α)) : Prop where
  fetch : ∀ {executor logical} (pageId : UInt32), holds executor logical →
    holds (fetchPage pageId executor).2 logical
  unpin : ∀ {executor logical} (frameId : FrameId) (dirty : Bool), holds executor logical →
    holds (modifyPool (BufferPool.unpin frameId dirty) executor).2 logical
  ends : ∀ {executor logical frameId pageId slotId dirty tuple} (result : α), scanned pageId →
    Using executor logical frameId pageId dirty → logical.heap.get ⟨pageId, slotId⟩ = some tuple →
    holds executor logical → (body pageId frameId slotId dirty tuple result executor).1.isOk →
    holds (body pageId frameId slotId dirty tuple result executor).2
      (step ⟨pageId, slotId⟩ tuple result logical).2

theorem bodyKeeps_nothing (body : UInt32 → FrameId → UInt16 → Bool → Bytes → α → Action (Bool × α))
    (step : Rid → Bytes → α → Fallible Failure Logical (Bool × α)) :
    BodyKeeps (fun _ _ => True) (fun _ => True) body step :=
  ⟨fun _ _ => trivial, fun _ _ _ => trivial, fun _ _ _ _ _ _ => trivial⟩

/-- How the scan of a held page ends. -/
def SlotsEnd (executor : Executor) (frameId : FrameId) (pageId : UInt32) (dirty : Bool) :
    Except Failure (Bool × α) × Executor → ScanEnd α → Prop
  | (.ok found, executor'), ⟨.ok expected, changed, logical'⟩ =>
      found = (dirty || changed, expected) ∧
        Using executor' logical' frameId pageId (dirty || changed) ∧
        Advances executor executor' none
  | (.error failure, executor'), ⟨.error expected, changed, logical'⟩ =>
      failure = expected ∧
        ((dirty || changed) = false ∨ failure = .sql .updateLarger →
          Reflects executor' logical' none) ∧
        Advances executor executor' none ∧ executor'.core = logical'.toCore
  | _, _ => False

/-- How the scan of pages ends. A scan that fails after a change may leave a page behind that the
data file does not know of. -/
def PagesEnd (executor : Executor) (pageIds : List UInt32) :
    Except Failure (List UInt32 × α) × Executor → ScanEnd α → Prop
  | (.ok found, executor'), ⟨.ok expected, _, logical'⟩ =>
      found.2 = expected ∧ (∀ pageId ∈ found.1, pageId ∈ pageIds) ∧
        Reflects executor' logical' none ∧ Advances executor executor' none
  | (.error failure, executor'), ⟨.error expected, changed, logical'⟩ =>
      failure = expected ∧
        (changed = false ∨ failure = .sql .updateLarger → Reflects executor' logical' none) ∧
        (∃ frameId, Advances executor executor' (some frameId)) ∧ executor'.core = logical'.toCore
  | _, _ => False

/-- A call that finds no frame available fails and changes nothing. -/
structure NoFrame (executor : Executor) (logical : Logical) (ended : Except Failure α × Executor) :
    Prop where
  failed : ∃ failure, ended.1 = .error (.sql failure)
  full : ∀ frameId, ¬executor.Available frameId
  reflects : Reflects ended.2 logical none
  advances : Advances executor ended.2 none

/-- A call that hits a page whose pin counter is at its end panics. -/
structure Overpins (executor : Executor) (ended : Except Failure α × Executor) : Prop where
  failed : ended.1 = .error (.panic .overflow)
  overpinned : executor.Overpinned

omit [Crc32] in
theorem Overpins.bind {β : Type} {executor : Executor} {action : Action α} {next : α → Action β}
    (overpins : Overpins executor (action executor)) :
    Overpins executor ((action >>= next) executor) :=
  ⟨Fallible.bind_failed overpins.failed, overpins.overpinned⟩

/-- No pin counter comes to its end in a call that releases its frames. -/
theorem Overpins.after {executor executor' : Executor} {ended : Except Failure α × Executor}
    (overpins : Overpins executor' ended) (advances : Advances executor executor' none) :
    Overpins executor ended :=
  ⟨overpins.failed, advances.overpinned overpins.overpinned⟩

variable {holds : Executor → Logical → Prop} {scanned : UInt32 → Prop}
  {body : UInt32 → FrameId → UInt16 → Bool → Bytes → α → Action (Bool × α)}
  {step : Rid → Bytes → α → Fallible Failure Logical (Bool × α)}
  {executor : Executor} {logical : Logical} {frameId : FrameId} {pageId : UInt32}

/-- A scan of a page goes on after a step. -/
theorem SlotsEnd.after {executor' : Executor} {dirty changed : Bool}
    {concrete : Except Failure (Bool × α) × Executor} {abstract : ScanEnd α}
    (ends : SlotsEnd executor' frameId pageId (dirty || changed) concrete abstract)
    (advances : Advances executor executor' none) :
    SlotsEnd executor frameId pageId dirty concrete (abstract.after changed) := by
  rcases concrete with ⟨_ | _, _⟩ <;> rcases abstract with ⟨_ | _, _, _⟩
  · exact ⟨ends.1, by simpa [ScanEnd.after, Bool.or_assoc] using ends.2.1,
      advances.trans ends.2.2.1, ends.2.2.2⟩
  · exact ends.elim
  · exact ends.elim
  · rcases ends with ⟨rfl, inUse, rest⟩
    refine ⟨by simp [Bool.or_assoc], ?_, advances.trans rest⟩
    simpa [ScanEnd.after, Bool.or_assoc] using inUse

/-- The scan of a held page ends as the logical scan says, and keeps what its body keeps. -/
theorem scanSlots_ends (refines : BodyRefines body step)
    (keeps : BodyKeeps holds scanned body step) (inside : scanned pageId) {dirty : Bool}
    {slotIds : List UInt16} (nodup : slotIds.Nodup)
    (inUse : Using executor logical frameId pageId dirty)
    (present : (logical.heap pageId).isSome) (before : holds executor logical) (result : α) :
    SlotsEnd executor frameId pageId dirty
      (scanSlots frameId (body pageId frameId) slotIds dirty result executor)
      (logical.scan step (logical.heap.liveIn pageId slotIds) result) ∧
    ((scanSlots frameId (body pageId frameId) slotIds dirty result executor).1.isOk →
      holds (scanSlots frameId (body pageId frameId) slotIds dirty result executor).2
        (logical.scan step (logical.heap.liveIn pageId slotIds) result).state) := by
  induction slotIds generalizing executor logical dirty result with
  | nil =>
      refine ⟨⟨by simp, ?_, .refl _ _⟩, fun _ => before⟩
      simpa using inUse
  | cons slotId slotIds ih =>
      rcases List.nodup_cons.mp nodup with ⟨apart, nodup⟩
      rcases Option.isSome_iff_exists.mp present with ⟨page, found⟩
      rw [scanSlots, Fallible.bind_ok (inUse.getTuple found slotId)]
      cases live : logical.heap.get ⟨pageId, slotId⟩ with
      | none =>
          rw [show logical.heap.liveIn pageId (slotId :: slotIds) =
            logical.heap.liveIn pageId slotIds by simp [Heap.liveIn, live]]
          exact ih nodup inUse present before result
      | some tuple =>
          rw [show logical.heap.liveIn pageId (slotId :: slotIds) =
            (⟨pageId, slotId⟩, tuple) :: logical.heap.liveIn pageId slotIds by
              simp [Heap.liveIn, live], Logical.scan]
          have touches := refines.isLocal ⟨pageId, slotId⟩ tuple result logical
          have ends := refines.ends result inUse live
          have kept := keeps.ends result inside inUse live before
          simp only [Fallible.bind_apply]
          generalize body pageId frameId slotId dirty tuple result executor =
            concrete at ends kept ⊢
          generalize step ⟨pageId, slotId⟩ tuple result logical = abstract at touches ends kept ⊢
          rcases concrete with ⟨_ | ⟨changed, result'⟩, executor'⟩ <;>
            rcases abstract with ⟨_ | ⟨_, _⟩, logical'⟩
          · refine ⟨⟨ends.1, by simpa using ends.2.1, ends.2.2⟩, fun ok => ?_⟩
            exact absurd ok (by simp [Except.isOk, Except.toBool])
          · exact ends.elim
          · exact ends.elim
          · rcases ends with ⟨same, inUse', advances⟩
            obtain ⟨rfl, rfl⟩ := Prod.mk.inj same
            have rest := ih nodup inUse' (by rwa [touches.isSome]) (kept rfl) result'
            rw [touches.liveIn (by rintro other inside ⟨⟩; exact apart inside)] at rest
            exact ⟨rest.1.after advances, rest.2⟩

theorem scanSlots_refines (refines : BodyRefines body step) {dirty : Bool} {slotIds : List UInt16}
    (nodup : slotIds.Nodup) (inUse : Using executor logical frameId pageId dirty)
    (present : (logical.heap pageId).isSome) (result : α) :
    SlotsEnd executor frameId pageId dirty
      (scanSlots frameId (body pageId frameId) slotIds dirty result executor)
      (logical.scan step (logical.heap.liveIn pageId slotIds) result) :=
  (scanSlots_ends refines (bodyKeeps_nothing body step) trivial nodup inUse present trivial
    result).1

/-- The slots of a page of the heap are distinct. -/
theorem Reflects.nodup_slots {inUse : Option FrameId} (reflects : Reflects executor logical inUse)
    (pageId : UInt32) : (logical.heap.slots pageId).Nodup := by
  apply Heap.nodup_slots
  intro page found
  rcases reflects.heap found with ⟨data, -, represents⟩
  have short : page.cells.length ≤ 4096 := represents.numSlots_le
  omega

/-- A scan goes on with more pages. -/
theorem PagesEnd.after {executor' : Executor} {pageIds : List UInt32} {dirty : Bool}
    {rest : Action (List UInt32 × α)} {abstract : ScanEnd α}
    (ends : PagesEnd executor' pageIds (rest executor') abstract)
    (advances : Advances executor executor' none) :
    PagesEnd executor (pageId :: pageIds)
      ((rest >>= fun found =>
        return (if dirty then pageId :: found.1 else found.1, found.2)) executor')
      (abstract.after dirty) := by
  rw [Fallible.bind_apply]
  generalize rest executor' = concrete at ends ⊢
  rcases concrete with ⟨_ | _, _⟩ <;> rcases abstract with ⟨_ | _, changed, _⟩
  · rcases ends with ⟨same, reflects, ⟨frameId, rest⟩, core⟩
    refine ⟨same, fun tidy => reflects (tidy.imp_left fun unchanged => ?_),
      ⟨frameId, advances.andThen rest⟩, core⟩
    simp only [Bool.or_eq_false_iff] at unchanged
    exact unchanged.2
  · exact ends.elim
  · exact ends.elim
  · rcases ends with ⟨same, inside, reflects, rest⟩
    refine ⟨same, fun other otherInside => ?_, reflects, advances.trans rest⟩
    cases dirty with
    | false => exact List.mem_cons_of_mem _ (inside other (by simpa using otherInside))
    | true =>
        rcases List.mem_cons.mp otherInside with rfl | otherInside
        · simp
        · exact List.mem_cons_of_mem _ (inside other otherInside)

/-- The same for the scan of pages, unless no frame is available or a page cannot be pinned. -/
theorem scanPages_ends (refines : BodyRefines body step)
    (keeps : BodyKeeps holds scanned body step) {pageIds : List UInt32}
    (inside : ∀ pageId ∈ pageIds, scanned pageId) (nodup : pageIds.Nodup)
    (reflects : Reflects executor logical none)
    (present : ∀ pageId ∈ pageIds, (logical.heap pageId).isSome) (before : holds executor logical)
    (result : α) :
    (PagesEnd executor pageIds (scanPages body pageIds result executor)
      (logical.scan step (logical.heap.live pageIds) result) ∧
      ((scanPages body pageIds result executor).1.isOk →
        holds (scanPages body pageIds result executor).2
          (logical.scan step (logical.heap.live pageIds) result).state)) ∨
    NoFrame executor logical (scanPages body pageIds result executor) ∨
    Overpins executor (scanPages body pageIds result executor) := by
  induction pageIds generalizing executor logical result with
  | nil => exact .inl ⟨⟨rfl, by simp, reflects, .refl _ _⟩, fun _ => before⟩
  | cons pageId pageIds ih =>
      rcases List.nodup_cons.mp nodup with ⟨apart, nodup⟩
      have here : (logical.heap pageId).isSome := present pageId (by simp)
      rcases Option.isSome_iff_exists.mp here with ⟨page, found⟩
      have fetchKept := keeps.fetch pageId before
      rcases reflects.fetchPage found with
        ⟨frameId, fetched, run, inUse, advances⟩ | ⟨executor', run, reflects', advances, full⟩ |
        ⟨run, overpinned⟩
      · rw [run] at fetchKept
        have slots := scanSlots_ends refines keeps (inside pageId (by simp))
          (reflects.nodup_slots pageId) inUse here fetchKept result
        have live : logical.heap.live (pageId :: pageIds) =
            logical.heap.liveIn pageId (logical.heap.slots pageId) ++
              logical.heap.live pageIds := by
          simp [Heap.live]
        have kept := Logical.scan_isSome refines.isLocal
          (logical.heap.liveIn pageId (logical.heap.slots pageId)) result logical
        have apartHere : ∀ entry ∈ logical.heap.liveIn pageId (logical.heap.slots pageId),
            entry.1.pageId ∉ pageIds := fun entry inside => by rwa [Heap.mem_liveIn inside]
        have others := Logical.scan_live refines.isLocal apartHere result logical
        rw [scanPages, Fallible.bind_ok run, Fallible.bind_ok (inUse.slots found), live,
          Logical.scan_append]
        simp only [Fallible.bind_apply (scanSlots _ _ _ _ _)]
        generalize scanSlots frameId (body pageId frameId) (logical.heap.slots pageId) false result
          fetched = concrete at slots ⊢
        generalize logical.scan step (logical.heap.liveIn pageId (logical.heap.slots pageId))
          result =
          abstract at slots kept others ⊢
        rcases concrete with ⟨_ | ⟨dirty, result'⟩, executor'⟩ <;>
          rcases abstract with ⟨_ | result'', changed, logical'⟩ <;> rcases slots with
            ⟨slots, within⟩
        · exact .inl ⟨⟨slots.1, by simpa using slots.2.1, ⟨frameId, advances.trans slots.2.2.1⟩,
            slots.2.2.2⟩, within⟩
        · exact slots.elim
        · exact slots.elim
        · rcases slots with ⟨same, inUse', advances'⟩
          obtain ⟨rfl, rfl⟩ := Prod.mk.inj same
          have unpinKept := keeps.unpin frameId dirty (within rfl)
          rcases inUse'.unpin dirty (by simp) with
            ⟨unpinned, release, reflects', released⟩
          rw [release] at unpinKept
          have step := (advances.trans advances').release released
          have presentRest : ∀ other ∈ pageIds, (logical'.heap other).isSome :=
              fun other later => by
            rw [kept other]
            exact present other (by simp [later])
          dsimp only
          rw [Fallible.bind_ok release]
          rcases ih (fun other later => inside other (by simp [later])) nodup reflects' presentRest
            unpinKept result' with ⟨rest, atEnd⟩ | noFrame | overpins
          · rw [others] at rest atEnd
            refine .inl ⟨rest.after step, fun ok => ?_⟩
            rw [Fallible.bind_apply] at ok ⊢
            generalize scanPages body pageIds result' unpinned = ended at ok atEnd ⊢
            rcases ended with ⟨_ | _, _⟩
            · exact absurd ok (by simp [Except.isOk, Except.toBool])
            · exact atEnd rfl
          · exact absurd released.available (noFrame.full frameId)
          · exact .inr (.inr (overpins.bind.after step))
      · refine .inr (.inl ?_)
        rw [scanPages, Fallible.bind_error run]
        exact ⟨⟨_, rfl⟩, full, reflects', advances⟩
      · refine .inr (.inr ⟨?_, overpinned⟩)
        rw [scanPages, Fallible.bind_error run]

theorem scanPages_refines (refines : BodyRefines body step) {pageIds : List UInt32}
    (nodup : pageIds.Nodup) (reflects : Reflects executor logical none)
    (present : ∀ pageId ∈ pageIds, (logical.heap pageId).isSome) (result : α) :
    PagesEnd executor pageIds (scanPages body pageIds result executor)
      (logical.scan step (logical.heap.live pageIds) result) ∨
    NoFrame executor logical (scanPages body pageIds result executor) ∨
    Overpins executor (scanPages body pageIds result executor) :=
  (scanPages_ends refines (bodyKeeps_nothing body step) (fun _ _ => trivial) nodup reflects present
    trivial result).imp_left And.left

end Executor

end VenomDb
