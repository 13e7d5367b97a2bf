import VenomDb.Engine.Ample
import VenomDb.Engine.Blind

/-!
# When an INSERT is safe

An `INSERT` panics when it has too few values for the key column, when the transaction ids, the page
ids or the pins of a page that it tries have run out, and when its row is longer than 65535 bytes
with a remainder that an empty page takes. It is safe otherwise, but for a row that is too long and
refused: the page allocated for it stays pinned, and later queries may miss its frame. The counters
are those of a build with overflow checks.
-/

namespace VenomDb

namespace Executor

open Fallible BufferPool

variable [Crc32] {base executor executor' : Executor} {held : Option FrameId} {pageId : UInt32}
  {frameId : FrameId}

section Failed

/-- The pool still shows what it showed, and the frames that could be had still can, but for one
that is held. -/
structure Undisturbed (base : Executor) (held : Option FrameId) (executor : Executor) : Prop where
  coherent : executor.bufferPool.Coherent none
  continues : Continues base.bufferPool executor.bufferPool
  available : ∀ {frameId}, held ≠ some frameId → base.Available frameId →
    executor.Available frameId
  pins : ∀ {frameId}, held ≠ some frameId → executor.pins frameId ≤ base.pins frameId
  pinned : ∀ {frameId}, held = some frameId → executor.pins frameId ≤ base.pins frameId + 1
  catalog : executor.catalog = base.catalog
  tablePages : executor.tablePages = base.tablePages

/-- A frame is held for a page. -/
def Holding (base : Executor) (frameId : FrameId) (executor : Executor) : Prop :=
  Undisturbed base (some frameId) executor ∧ ∃ page, executor.bufferPool.Held frameId page

/-- The pool changes. -/
theorem Undisturbed.pool {pool : BufferPool frameCount} {held' : Option FrameId}
    (undisturbed : Undisturbed base held executor) (coherent : pool.Coherent none)
    (continues : Continues executor.bufferPool pool)
    (available : ∀ {frameId}, held' ≠ some frameId → base.Available frameId →
      pool.Available frameId)
    (pins : ∀ {frameId}, held' ≠ some frameId → pool.pins frameId ≤ base.pins frameId)
    (pinned : ∀ {frameId}, held' = some frameId → pool.pins frameId ≤ base.pins frameId + 1) :
    Undisturbed base held' (Executor.record { executor with bufferPool := pool }) :=
  ⟨coherent, undisturbed.continues.trans continues, available, pins, pinned, undisturbed.catalog,
    undisturbed.tablePages⟩

/-- A frame is pinned once more, and no other has more pins. -/
theorem Undisturbed.hold {pool : BufferPool frameCount}
    (undisturbed : Undisturbed base none executor)
    (coherent : pool.Coherent none) (continues : Continues executor.bufferPool pool)
    (available : ∀ {other}, other ≠ frameId → executor.Available other → pool.Available other)
    (pins : ∀ {other}, other ≠ frameId → pool.pins other ≤ executor.pins other)
    (pinned : pool.pins frameId ≤ executor.pins frameId + 1) :
    Undisturbed base (some frameId) (Executor.record { executor with bufferPool := pool }) := by
  have before (other : FrameId) : executor.pins other ≤ base.pins other :=
    undisturbed.pins (by simp)
  refine undisturbed.pool coherent continues ?_ ?_ ?_
  · intro other apart isAvailable
    exact available (fun same => apart (same ▸ rfl)) (undisturbed.available (by simp) isAvailable)
  · intro other apart
    exact (pins fun same => apart (same ▸ rfl)).trans (before other)
  · intro other same
    obtain rfl := Option.some.inj same
    exact pinned.trans (Nat.succ_le_succ (before frameId))

/-- How a search for a page fails, unless it panics: it has changed no page. -/
def Spared (base : Executor) (failure : Failure) (executor : Executor) : Prop :=
  IsPanic failure ∨ ∃ held, Undisturbed base held executor

theorem holding_fetchPage (pageId : UInt32) :
    Ends (Undisturbed base none) (fetchPage pageId) (Holding base) (Spared base) := by
  intro executor undisturbed
  rw [fetchPage, mapError, onPool]
  rcases fetchPage_cases undisturbed.coherent pageId with
    ⟨frameId, pool, data, run, fetched⟩ | ⟨run, -⟩ |
    ⟨-, error, pool, run, coherent, continues, -, available, fewer⟩ | ⟨run, -⟩
  · rw [run]
    rcases fetched.held with ⟨page, isHeld, -⟩
    exact ⟨undisturbed.hold fetched.coherent fetched.continues fetched.available fetched.pins
      fetched.pinned, page, isHeld⟩
  · rw [run]
    exact .inr ⟨none, undisturbed.pool undisturbed.coherent.countMiss ⟨id, id⟩
      undisturbed.available undisturbed.pins undisturbed.pinned⟩
  · rw [run]
    exact .inr ⟨none, undisturbed.pool coherent continues
      (fun apart isAvailable => available _ (undisturbed.available apart isAvailable))
      (fun apart => (fewer _).trans (undisturbed.pins apart)) (by simp)⟩
  · rw [run]
    exact .inl ⟨_, rfl⟩

theorem undisturbed_unpin (dirty : Bool) {failed : Failure → Executor → Prop} :
    Ends (Holding base frameId) (modifyPool (BufferPool.unpin frameId dirty))
      (fun _ => Undisturbed base none) failed := by
  refine ends_modify fun executor holding => ?_
  rcases holding with ⟨undisturbed, page, isHeld⟩
  refine undisturbed.pool (undisturbed.coherent.unpin isHeld (.inl rfl))
    (continues_unpin dirty undisturbed.coherent isHeld) ?_ ?_ (by simp)
  · intro other _ isAvailable
    by_cases same : other = frameId
    · subst same
      exact available_unpin isHeld
    · apply available_unpin_of_ne isHeld same
      exact undisturbed.available (by simpa using Ne.symm same) isAvailable
  · intro other _
    by_cases same : other = frameId
    · subst same
      refine Nat.le_of_succ_le_succ ((pins_unpin dirty isHeld).le.trans ?_)
      exact undisturbed.pinned rfl
    · exact (pins_unpin_of_ne same).le.trans (undisturbed.pins (by simpa using Ne.symm same))

/-- Until the row is on the page, nothing has changed but the log. -/
theorem spared_insertInto (txnId pageId : UInt32) (wrap : IoError → SqlError) (rowBytes : Bytes) :
    Ends (Holding base frameId) (insertInto txnId pageId frameId wrap rowBytes)
      (fun _ _ => True) (Spared base) := by
  have logs : Ends (Holding base frameId)
      (mapError (Failure.wrapIo wrap) (onWal (WalManager.logInsert txnId pageId rowBytes)))
      (fun _ => Holding base frameId) (Spared base) := by
    rintro executor ⟨undisturbed, page, isHeld⟩
    rw [mapError, onWal]
    rcases WalManager.logInsert txnId pageId rowBytes executor.wal with ⟨failure | slotId, wal⟩
    · exact .inr ⟨some frameId, undisturbed.coherent, undisturbed.continues,
        undisturbed.available, undisturbed.pins, undisturbed.pinned, undisturbed.catalog,
        undisturbed.tablePages⟩
    · exact ⟨⟨undisturbed.coherent, undisturbed.continues, undisturbed.available,
        undisturbed.pins, undisturbed.pinned, undisturbed.catalog, undisturbed.tablePages⟩,
        page, isHeld⟩
  have edits : Ends (Holding base frameId)
      (onPage frameId none fun page => page.insertTuple rowBytes) (fun _ _ => True)
      (Spared base) := by
    refine ends_get_bind fun executor _ => ?_
    rintro start rfl
    cases start.bufferPool.getPage frameId with
    | none => trivial
    | some page =>
        dsimp only
        rcases made : page.insertTuple rowBytes with failure | out
        · exact .inl (panics_insertTuple page rowBytes failure made)
        · trivial
  refine logs.bind fun _ => edits.bind fun slotId => ?_
  exact (ends_modify fun _ _ => trivial : Ends _ _ (fun _ _ => True) _).bind fun _ =>
    ends_pure fun _ _ => trivial

theorem spared_insertExisting (txnId : UInt32) (rowBytes : Bytes) (pageIds : List UInt32) :
    Ends (Undisturbed base none) (insertExisting txnId rowBytes pageIds)
      (fun found executor => found = none → Undisturbed base none executor) (Spared base) := by
  induction pageIds with
  | nil => exact ends_pure fun _ undisturbed _ => undisturbed
  | cons pageId pageIds ih =>
      rw [insertExisting]
      refine (holding_fetchPage pageId).bind fun frameId => ends_get_then fun executor => ?_
      dsimp only
      split_ifs
      · exact (spared_insertInto txnId pageId .walInsert rowBytes).bind fun slotId =>
          ends_pure fun _ _ isNone => by simp at isNone
      · exact (undisturbed_unpin false).bind fun _ => ih

theorem spared_insertFresh (txnId : UInt32) (table : String) (rowBytes : Bytes) :
    Ends (Undisturbed base none) (insertFresh txnId table rowBytes) (fun _ _ => True)
      (Spared base) := by
  have allocates : Ends (Undisturbed base none)
      (mapError (Failure.wrapIo .newPage) (onPool newPage)) (fun out => Holding base out.2)
      (Spared base) := by
    intro executor undisturbed
    rw [mapError, onPool]
    rcases newPage_cases undisturbed.coherent with
      ⟨pageId, frameId, pool, run, allocated⟩ | ⟨run, -⟩ | ⟨pool, run, -⟩
    · rw [run]
      exact ⟨undisturbed.hold allocated.coherent allocated.continues allocated.available
        allocated.pins allocated.pinned, _, allocated.held⟩
    · rw [run]
      exact .inr ⟨none, undisturbed.pool undisturbed.coherent (.refl _) undisturbed.available
        undisturbed.pins undisturbed.pinned⟩
    · rw [run]
      exact .inl ⟨_, rfl⟩
  refine allocates.bind fun out => ?_
  refine (spared_insertInto txnId out.1 .walInsertNewPage rowBytes).bind fun slotId => ?_
  exact ends_modify_bind (fun _ => True) (fun _ _ => trivial)
    ((ends_modify fun _ _ => trivial : Ends _ _ (fun _ _ => True) _).bind fun _ =>
      ends_pure fun _ _ => trivial)

/-- A search for a page that fails has changed no page. -/
theorem spared_placeRow (txnId : UInt32) (table : String) (rowBytes : Bytes)
    (pageIds : List UInt32) :
    Ends (Undisturbed base none) (placeRow txnId table rowBytes pageIds) (fun _ _ => True)
      (Spared base) := by
  refine (spared_insertExisting txnId rowBytes pageIds).bind fun found => ?_
  cases found with
  | some rid => exact ends_pure fun _ _ => trivial
  | none =>
      exact (spared_insertFresh txnId table rowBytes).imp (fun _ undisturbed => undisturbed rfl)
        (fun _ _ done => done) fun _ _ spared => spared

end Failed

section Safety

variable {relevant : UInt32 → Prop} {room : UInt32 → ℕ} {table : String} {values : List Value}
  {pageIds : List UInt32} {length : ℕ}

/-- A listed page has room for a row of some length and its slot. -/
def Offers (executor : Executor) (pageIds : List UInt32) (length : ℕ) : Prop :=
  ∃ pageId ∈ pageIds, ∃ data, executor.bufferPool.view pageId = some data ∧
    length + 5 ≤ (Page.fromBytes pageId data).freeSpace

/-- A frame can be lost: what the clean frames show is in the file, two frames can be had, and each
frame can be pinned twice more. -/
structure AtEase (executor : Executor) : Prop where
  synced : ∀ frameId, executor.bufferPool.Synced frameId
  spare : ∃ first second, first ≠ second ∧ executor.Available first ∧ executor.Available second
  pins : ∀ frameId, executor.pins frameId + 2 < 2 ^ 32

/-- An `INSERT` that gets to try its row on a listed page, whose frame has all the pins it can have,
after pages without room. -/
def Strained (executor : Executor) (table : String) (values : List Value) : Prop :=
  ∃ schema rowBytes pageIds, executor.catalog.get table = some schema ∧
    checkInsertKey schema executor.indexManager table values = .ok () ∧
    schema.serializeRow values = .ok rowBytes ∧ executor.wal.nextTxnId.toNat + 1 < 2 ^ 32 ∧
    executor.tablePages.lookup table = some pageIds ∧ ¬Stuck executor pageIds ∧
    executor.Saturates pageIds fun pageId => executor.Offers [pageId] rowBytes.length

/-- What an `INSERT` needs so as not to panic: a value for the key column, and once the row is
written, a transaction id. If a frame can be had for the first page that is tried, it also needs a
listed page with room, or a page id and a row that an empty page takes. A longer row has to be too
long modulo `2 ^ 16` as well, and then there has to be a frame to `spare`. -/
def Withstands (executor : Executor) (table : String) (values : List Value) (spare : Prop) : Prop :=
  ∀ schema, executor.catalog.get table = some schema →
    (∀ index, schema.pkColIndex = some index → index < values.length) ∧
    ∀ rowBytes, checkInsertKey schema executor.indexManager table values = .ok () →
      schema.serializeRow values = .ok rowBytes →
        executor.wal.nextTxnId.toNat + 1 < 2 ^ 32 ∧
        ∀ pageIds, executor.tablePages.lookup table = some pageIds →
          Stuck executor pageIds ∨ executor.Offers pageIds rowBytes.length ∨
          executor.bufferPool.disk.numPages.toNat + 1 < 2 ^ 32 ∧
            (SlottedPage.empty.HasRoom rowBytes.length ∨
              ¬SlottedPage.empty.HasRoom (rowBytes.length % 2 ^ 16) ∧ spare)

theorem Crowded.offers_iff (crowded : Crowded relevant room executor)
    (owned : ∀ pageId ∈ pageIds, relevant pageId) :
    executor.Offers pageIds length ↔ ∃ pageId ∈ pageIds, length + 5 ≤ room pageId := by
  have free {pageId : UInt32} {data : PageData} (spacious : Spacious (room pageId) data) :
      (Page.fromBytes pageId data).freeSpace = room pageId :=
    Spacious.freeSpace_eq (show Spacious _ (Page.fromBytes pageId data).data from spacious)
  refine ⟨?_, ?_⟩
  · rintro ⟨pageId, inside, data, seen, fits⟩
    rcases crowded.view (owned pageId inside) with ⟨data', seen', spacious⟩
    obtain rfl : data = data' := Option.some.inj (seen.symm.trans seen')
    exact ⟨pageId, inside, free spacious ▸ fits⟩
  · rintro ⟨pageId, inside, fits⟩
    rcases crowded.view (owned pageId inside) with ⟨data, seen, spacious⟩
    exact ⟨pageId, inside, data, seen, (free spacious).symm ▸ fits⟩

theorem Crowded.coherent (crowded : Crowded relevant room executor)
    (synced : ∀ frameId, executor.bufferPool.Synced frameId) :
    executor.bufferPool.Coherent none :=
  ⟨crowded.tabled.table, crowded.tabled.frame, crowded.tabled.allocated, crowded.tabled.fileLength,
    fun frameId _ => synced frameId, crowded.tabled.faultless⟩

/-- An `INSERT` with too few values for the key column panics. -/
theorem execInsert_few {schema : Schema} {index : ℕ}
    (known : executor.catalog.get table = some schema) (keyed : schema.pkColIndex = some index)
    (few : values.length ≤ index) :
    execInsert table values executor = (.error (.panic .outOfBounds), executor) := by
  rw [execInsert, bind_ok (schemaOf_of_known known), get_bind]
  rcases checkInsertKey_cases schema executor.indexManager table values with
    ⟨-, -, -, panics⟩ | ⟨enough, -⟩
  · rw [panics, ofExcept_error_bind]
  · have inside := enough index keyed
    omega

variable [Build]

/-- A frame that is lost costs no query its rows. -/
theorem Undisturbed.selectAll (undisturbed : Undisturbed base held executor)
    (stocked : Stocked relevant room base) (atEase : base.AtEase) (table : String) :
    executor.selectAll table = base.selectAll table := by
  have before : base.Ready := by
    rcases atEase.spare with ⟨first, second, apart, isFirst, isSecond⟩
    refine ⟨⟨first, isFirst⟩, fun frameId => ?_⟩
    exact lt_of_le_of_lt (Nat.le_succ _) (atEase.pins frameId)
  have pinnable (frameId : FrameId) : executor.Pinnable frameId := by
    refine lt_of_le_of_lt (Nat.succ_le_succ ?_) (atEase.pins frameId)
    by_cases same : held = some frameId
    · exact undisturbed.pinned same
    · exact (undisturbed.pins same).trans (Nat.le_succ _)
  rcases atEase.spare with ⟨first, second, apart, isFirst, isSecond⟩
  have other : ∃ frameId, held ≠ some frameId ∧ base.Available frameId := by
    by_cases same : held = some first
    · exact ⟨second, fun same' => apart (Option.some.inj (same.symm.trans same')), isSecond⟩
    · exact ⟨first, same, isFirst⟩
  rcases other with ⟨frameId, free, isAvailable⟩
  apply selectAll_of_views (stocked.crowded.coherent atEase.synced) undisturbed.coherent
    before ⟨⟨frameId, undisturbed.available free isAvailable⟩, pinnable⟩ undisturbed.catalog
    undisturbed.tablePages undisturbed.continues.view
  intro pageIds listed
  refine ⟨stocked.nodup (.inl listed), fun pageId inside => ?_⟩
  rcases stocked.crowded.view (stocked.listed (.inl listed) inside) with
    ⟨data, seen, page, represents, -⟩
  exact ⟨data, page, seen, represents⟩

/-- An `INSERT` returns, and if it returns an error every table answers as before. -/
def InsertsSafely (executor : Executor) (table : String) (values : List Value) : Prop :=
  match execInsert table values executor with
  | (.ok _, _) => True
  | (.error failure, executor') =>
      ¬IsPanic failure ∧ ∀ other, executor'.selectAll other = executor.selectAll other

omit [Crc32] [Build] in
theorem not_isPanic_sql (error : SqlError) : ¬IsPanic (.sql error) := by simp [IsPanic]

omit [Build] in
/-- A saturated page that is tried strains the statement. -/
theorem Stocked.strained {pageIds : List UInt32} (stocked : Stocked relevant room executor)
    (known : executor.catalog.get table = some schema)
    (checked : checkInsertKey schema executor.indexManager table values = .ok ())
    (encoded : schema.serializeRow values = .ok rowBytes)
    (txns : executor.wal.nextTxnId.toNat + 1 < 2 ^ 32)
    (listed : executor.tablePages.lookup table = some pageIds)
    (free : ¬Stuck executor.begun pageIds)
    (saturates : executor.begun.Saturates pageIds fun pageId =>
      rowBytes.length + 5 ≤ room pageId) : executor.Strained table values := by
  rcases saturates with ⟨tried, pageId, others, rfl, full, isSaturated⟩
  refine ⟨schema, rowBytes, _, known, checked, encoded, txns, listed,
    fun stuck => free ⟨stuck.full, stuck.absent⟩, tried, pageId, others, rfl, ?_, isSaturated⟩
  intro other inside offered
  have owned := stocked.owned _ listed other (List.mem_append_left _ inside)
  rcases (stocked.crowded.offers_iff (by simpa using owned)).mp offered with
    ⟨same, isOther, fits⟩
  exact full other inside (List.mem_singleton.mp isOther ▸ fits)

theorem Stocked.insertsSafely (stocked : Stocked relevant room executor)
    (withstands : executor.Withstands table values executor.AtEase)
    (unstrained : ¬executor.Strained table values) : executor.InsertsSafely table values := by
  have ends := insertEnds_execInsert stocked.crowded table stocked.owned values
  rw [InsertsSafely]
  generalize execInsert table values executor = ended at ends ⊢
  have twin : Twin executor.begun executor := ⟨rfl, rfl, .refl _⟩
  cases ends with
  | refused keyed early => exact ⟨not_isPanic_sql _, fun _ => rfl⟩
  | unlisted known keyed txns unlisted => exact ⟨not_isPanic_sql _, twin.selectAll⟩
  | @short schema index panic known keyed few =>
      have enough := (withstands schema known).1 index keyed
      omega
  | @last schema rowBytes known checked encoded last =>
      exact absurd ((withstands schema known).2 rowBytes checked encoded).1 last
  | @placed schema rowBytes pageIds ended known keyed checked encoded txns listed ends failed =>
      have needs := ((withstands schema known).2 rowBytes checked encoded).2 pageIds listed
      have offers : executor.Offers pageIds rowBytes.length ↔ _ :=
        stocked.crowded.offers_iff (stocked.owned pageIds listed)
      -- a search that got past the listed pages needs what a new page needs
      have rest (free : ¬Stuck executor.begun pageIds)
          (full : ∀ pageId ∈ pageIds, ¬rowBytes.length + 5 ≤ room pageId) :=
        (needs.resolve_left fun stuck => free ⟨stuck.full, stuck.absent⟩).resolve_left
          fun offered => by
            rcases offers.mp offered with ⟨pageId, inside, fits⟩
            exact full pageId inside fits
      cases ends with
      | kept fits same crowded => trivial
      | grown ids fits fresh entered crowded => trivial
      | stuck stuck same =>
          refine ⟨not_isPanic_sql _, fun other => ?_⟩
          rcases same with rfl | rfl
          · have twin' : Twin executor.begun.missed executor := ⟨rfl, rfl, rfl, rfl, rfl, rfl⟩
            exact twin'.selectAll other
          · have twin' : Twin executor.begun.record executor := ⟨rfl, rfl, .refl _⟩
            exact twin'.selectAll other
      | saturated free saturates =>
          have strained := stocked.strained known checked encoded txns listed free saturates
          exact absurd strained unstrained
      | exhausted free full ids => exact absurd (rest free full).1 ids
      | overlong free full ids tooLong refused same crowded =>
          refine ⟨not_isPanic_sql _, fun other => ?_⟩
          have atEase : executor.AtEase := by
            rcases (rest free full).2 with fits | ⟨-, atEase⟩
            · exact absurd ((SlottedPage.hasRoom_iff_freeSpace _).mp fits) tooLong
            · exact atEase
          have undisturbed : Undisturbed executor none executor.begun :=
            ⟨stocked.crowded.coherent atEase.synced, .refl _, fun _ available => available,
              fun _ => le_refl _, by simp, rfl, rfl⟩
          rcases (spared_placeRow _ table rowBytes pageIds).error undisturbed (failed rfl) with
            panics | ⟨held, undisturbed'⟩
          · exact absurd panics (not_isPanic_sql _)
          · exact undisturbed'.selectAll stocked atEase other
      | overrun free full ids tooLong accepted =>
          rcases (rest free full).2 with fits | ⟨refused, -⟩
          · exact absurd ((SlottedPage.hasRoom_iff_freeSpace _).mp fits) tooLong
          · exact absurd accepted refused

theorem Stocked.withstands (stocked : Stocked relevant room executor)
    (safe : executor.InsertsSafely table values) : executor.Withstands table values True := by
  have ends := insertEnds_execInsert stocked.crowded table stocked.owned values
  rw [InsertsSafely] at safe
  generalize execInsert table values executor = ended at ends safe
  intro schema known
  have onlySchema {other : Schema} (same : executor.catalog.get table = some other) :
      other = schema := Option.some.inj (same.symm.trans known)
  cases ends with
  | refused keyed early =>
      refine ⟨fun index isKey => keyed schema index known isKey, fun rowBytes checked encoded => ?_⟩
      exact absurd encoded (early schema rowBytes known checked)
  | unlisted known' keyed txns unlisted =>
      obtain rfl := onlySchema known'
      refine ⟨keyed, fun rowBytes _ _ => ⟨txns, fun pageIds listed => ?_⟩⟩
      simp [unlisted] at listed
  | short known' keyed few => exact absurd ⟨_, rfl⟩ safe.1
  | last known' checked encoded last => exact absurd ⟨_, rfl⟩ safe.1
  | placed known' keyed checked encoded txns listed ends failed =>
      obtain rfl := onlySchema known'
      refine ⟨keyed, fun rowBytes' _ encoded' => ⟨txns, fun pageIds' listed' => ?_⟩⟩
      obtain rfl := Except.ok.inj (encoded.symm.trans encoded')
      obtain rfl := Option.some.inj (listed.symm.trans listed')
      cases ends with
      | kept fits same crowded =>
          exact .inr (.inl ((stocked.crowded.offers_iff (stocked.owned _ listed)).mpr fits))
      | grown ids fits fresh entered crowded =>
          exact .inr (.inr ⟨ids, .inl ((SlottedPage.hasRoom_iff_freeSpace _).mpr fits)⟩)
      | stuck stuck same => exact .inl ⟨stuck.full, stuck.absent⟩
      | saturated free saturates => exact absurd ⟨_, rfl⟩ safe.1
      | exhausted free full ids => exact absurd ⟨_, rfl⟩ safe.1
      | overlong free full ids tooLong refused same crowded =>
          exact .inr (.inr ⟨ids, .inr ⟨refused, trivial⟩⟩)
      | overrun free full ids tooLong accepted => exact absurd ⟨_, rfl⟩ safe.1

/-- In every reachable state an `INSERT` is safe if it has what it needs, a frame to spare and no
need of a page that cannot be pinned, and only if it has what it needs. -/
theorem insertsSafely_of_withstands (reachable : Reachable Returns executor) (table : String)
    (values : List Value) :
    (executor.Withstands table values executor.AtEase → ¬executor.Strained table values →
      executor.InsertsSafely table values) ∧
    (executor.InsertsSafely table values → executor.Withstands table values True) := by
  rcases reachable.ample with ⟨relevant, room, stocked⟩
  exact ⟨stocked.insertsSafely, stocked.withstands⟩

end Safety

end Executor

/-! ## A key column behind another one -/

namespace Sample

attribute [local instance] Crc32.ieee Build.debug

open Executor

def createKeyed : Statement := .createTable "t" [⟨"a", .int, false⟩, ⟨"id", .int, true⟩]

theorem attains_keyed : Attains [createKeyed] (opened.execute .ofInsertion createKeyed).state := by
  have started : Attains [] opened := attains_start .ofInsertion
  exact started.execute .ofInsertion createKeyed ⟨by decide, by decide⟩ rfl

/-- `INSERT INTO t VALUES (1)` -/
theorem execInsert_panics : ∃ executor : Executor, Session Succeeds [createKeyed] executor ∧
    (execInsert "t" [.int 1] executor).1 = .error (.panic .outOfBounds) ∧
    ¬executor.InsertsSafely "t" [.int 1] := by
  rcases attains_keyed with ⟨executor, session, rests, -⟩
  have known : executor.catalog.get "t" =
      some (Schema.new "t" [⟨"a", .int, false⟩, ⟨"id", .int, true⟩]) := by
    rw [rests.reflects.catalog_eq]
    rfl
  have panics : execInsert "t" [.int 1] executor = (.error (.panic .outOfBounds), executor) :=
    execInsert_few known rfl (by decide)
  refine ⟨executor, session, congrArg Prod.fst panics, fun safe => ?_⟩
  rw [InsertsSafely, panics] at safe
  exact safe.1 ⟨_, rfl⟩

/-- `INSERT INTO t VALUES (3, 4)` into a page with two rows -/
theorem insertsSafely_insertedTwo : ∃ executor : Executor, Reachable Returns executor ∧
    executor.InsertsSafely "t" [.int 3, .int 4] := by
  rcases attains_insertedTwo with ⟨executor, session, rests, -, idle⟩
  have reachable := session.reachable.mono returns_of_succeeds
  refine ⟨executor, reachable, (insertsSafely_of_withstands reachable "t" [.int 3, .int 4]).1 ?_ ?_⟩
  swap
  · rintro ⟨-, -, -, -, -, -, -, -, -, -, pageId, -, -, -, frameId, -, saturated⟩
    exact saturated (idle.ready.pinnable frameId)
  intro schema known
  obtain rfl : Schema.new "t" [⟨"id", .int, true⟩, ⟨"a", .int, false⟩] = schema := by
    rw [rests.reflects.catalog_eq] at known
    exact Option.some.inj known
  refine ⟨fun index keyed => ?_, fun rowBytes _ encoded => ⟨?_, fun pageIds _ => ?_⟩⟩
  · obtain rfl := Option.some.inj keyed
    decide
  · rw [rests.reflects.nextTxnId_eq]
    decide
  · obtain rfl := Except.ok.inj encoded
    rw [rests.reflects.numPages_eq]
    exact .inr (.inr ⟨by decide, .inl (by decide)⟩)

end Sample

end VenomDb
