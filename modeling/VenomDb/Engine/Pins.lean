import VenomDb.Buffer.Pins
import VenomDb.Engine.Recover
import VenomDb.Engine.Statements

/-!
# Who holds a pin after a statement

A scan that fails on a row leaves its page pinned, unless the failure is that the new row does
not fit. So does an `INSERT` whose row fits into no page. Every other way out of a statement
returns its pins.
-/

namespace VenomDb

namespace Executor

open Fallible

/-- No frame has a pin. -/
abbrev Idle (executor : Executor) : Prop := executor.bufferPool.Idle

/-- One frame has one pin. -/
abbrev Holds (frameId : FrameId) (executor : Executor) : Prop :=
  executor.bufferPool.Busy frameId

/-- A failure that ends the process. -/
def IsPanic (failure : Failure) : Prop := ∃ panic, failure = .panic panic

/-- How a scan fails: it leaves its page pinned, unless there was no page or the row did not fit
into its place. -/
def Torn (failure : Failure) (executor : Executor) : Prop :=
  IsPanic failure ∨ (IsOfPlace failure ∧ executor.Idle) ∨
    (¬IsOfPlace failure ∧ ∃ frameId, executor.Holds frameId)

theorem Idle.available {executor : Executor} (idle : executor.Idle) (frameId : FrameId) :
    executor.Available frameId :=
  (idle.free frameId (by simp)).2

theorem Idle.ready {executor : Executor} (idle : executor.Idle) : executor.Ready :=
  ⟨⟨⟨0, by decide⟩, idle.available _⟩, idle.pinnable⟩

theorem Idle.room {executor : Executor} (idle : executor.Idle) (frameId : FrameId) :
    executor.pins frameId + 2 < 2 ^ 32 := by
  simp [BufferPool.pins, (idle.free frameId (by simp)).1]

/-- How a statement fails: one pin stays at most. -/
def Strands (failure : Failure) (executor : Executor) : Prop :=
  IsPanic failure ∨ executor.Idle ∨ ∃ frameId, executor.Holds frameId

theorem strands_of_idle (failure : Failure) (executor : Executor) (idle : executor.Idle) :
    Strands failure executor :=
  .inr (.inl idle)

theorem strands_of_torn (failure : Failure) (executor : Executor) (torn : Torn failure executor) :
    Strands failure executor :=
  torn.imp id (Or.imp And.right And.right)

/-- Whatever a statement left pinned, the next one finds a frame and can pin every page. -/
theorem Strands.ready {failure : Failure} {executor : Executor} (strands : Strands failure executor)
    (returned : ¬IsPanic failure) : executor.Ready := by
  rcases strands with panics | idle | ⟨held, holds⟩
  · exact absurd panics returned
  · exact idle.ready
  · obtain ⟨other, apart⟩ : ∃ other : FrameId, held ≠ other := by
      by_cases zero : held = ⟨0, by decide⟩
      · exact ⟨⟨1, by decide⟩, by rw [zero]; decide⟩
      · exact ⟨⟨0, by decide⟩, zero⟩
    refine ⟨⟨other, (holds.free other (by simpa using apart)).2⟩, fun frameId => ?_⟩
    by_cases same : held = frameId
    · simp [BufferPool.Pinnable, BufferPool.pins, holds.count frameId (by rw [same])]
    · simp [BufferPool.Pinnable, BufferPool.pins, (holds.free frameId (by simpa using same)).1]

theorem torn_of_isPanic (failure : Failure) (executor : Executor) (panics : IsPanic failure) :
    Torn failure executor :=
  .inl panics

section Pages

variable {α β : Type}

/-- Operations on the bytes of a page fail only by a panic. -/
def Panics (result : Except Failure α) : Prop := ∀ failure, result = .error failure →
    IsPanic failure

theorem panics_ok (value : α) : Panics (.ok value : Except Failure α) := by rintro _ ⟨⟩

theorem Panics.bind {result : Except Failure α} {next : α → Except Failure β}
    (first : Panics result) (second : ∀ value, Panics (next value)) : Panics (result >>= next) := by
  rcases result with failure | value
  · intro other same
    exact first other (congrArg Except.error (Except.error.inj same))
  · exact second value

theorem Panics.map {result : Except Failure α} (panics : Panics result) (change : α → β) :
    Panics (result.map change) := by
  rcases result with failure | value
  · intro other same
    exact panics other (congrArg Except.error (Except.error.inj same))
  · rintro _ ⟨⟩

theorem panics_slice (data : PageData) (start length : ℕ) : Panics (data.slice start length) := by
  intro failure failed
  rw [PageData.slice] at failed
  split_ifs at failed
  exact ⟨_, (Except.error.inj failed).symm⟩

theorem panics_copyFromSlice (data : PageData) (start : ℕ) (bytes : Bytes) :
    Panics (data.copyFromSlice start bytes) := by
  intro failure failed
  rw [PageData.copyFromSlice] at failed
  split_ifs at failed
  exact ⟨_, (Except.error.inj failed).symm⟩

theorem panics_readSlot (page : Page) (slotId : UInt16) : Panics (page.readSlot slotId) :=
  (panics_slice _ _ _).map _

theorem panics_writeSlot (page : Page) (slotId : UInt16) (slot : Slot) :
    Panics (page.writeSlot slotId slot) :=
  (panics_copyFromSlice _ _ _).map _

theorem panics_getTuple (page : Page) (slotId : UInt16) : Panics (page.getTuple slotId) := by
  rw [Page.getTuple]
  split_ifs
  · exact panics_ok _
  · refine (panics_readSlot page slotId).bind fun slot => ?_
    split_ifs
    · exact (panics_slice _ _ _).bind fun _ => panics_ok _
    · exact panics_ok _

theorem panics_deleteTuple (page : Page) (slotId : UInt16) : Panics (page.deleteTuple slotId) := by
  rw [Page.deleteTuple]
  split_ifs
  · exact panics_ok _
  · refine (panics_readSlot page slotId).bind fun slot => ?_
    split_ifs
    · exact (panics_writeSlot _ _ _).bind fun _ => panics_ok _
    · exact panics_ok _

theorem panics_updateTuple (page : Page) (slotId : UInt16) (newData : Bytes) :
    Panics (page.updateTuple slotId newData) := by
  rw [Page.updateTuple]
  split_ifs
  · exact panics_ok _
  · refine (panics_readSlot page slotId).bind fun slot => ?_
    split_ifs
    · exact panics_ok _
    · exact (panics_copyFromSlice _ _ _).bind fun _ => panics_ok _
    · exact panics_ok _

theorem panics_insertTuple (page : Page) (tuple : Bytes) : Panics (page.insertTuple tuple) := by
  dsimp only [Page.insertTuple]
  split_ifs
  · exact panics_ok _
  · exact panics_ok _
  · refine (panics_copyFromSlice _ _ _).bind fun data => ?_
    exact (panics_writeSlot _ _ _).bind fun _ => panics_ok _

end Pages

section Log

theorem panics_beginTxn :
    Ends (fun _ => True) WalManager.beginTxn (fun _ _ => True) fun failure _ =>
      IsPanic failure := by
  intro wal _
  dsimp only [WalManager.beginTxn]
  split_ifs
  · trivial
  · exact ⟨_, rfl⟩

theorem total_logUpdate (txnId pageId : UInt32) (slotId : UInt16) (oldBytes newBytes : Bytes)
    {failed : Failure → WalManager → Prop} :
    Ends (fun _ => True) (WalManager.logUpdate txnId pageId slotId oldBytes newBytes)
      (fun _ _ => True) failed :=
  ends_modify fun _ _ => trivial

theorem total_commit (txnId : UInt32) {failed : Failure → WalManager → Prop} :
    Ends (fun _ => True) (WalManager.commit txnId) (fun _ _ => True) failed :=
  ends_modify_bind (fun _ => True) (fun _ _ => trivial) (ends_modify fun _ _ => trivial)

theorem total_abort (txnId : UInt32) {failed : Failure → WalManager → Prop} :
    Ends (fun _ => True) (WalManager.abort txnId) (fun _ _ => True) failed :=
  ends_modify_bind (fun _ => True) (fun _ _ => trivial) (ends_modify fun _ _ => trivial)

theorem panics_logDelete (txnId pageId : UInt32) (slotId : UInt16) :
    Ends (fun _ => True) (WalManager.logDelete txnId pageId slotId) (fun _ _ => True)
      fun failure _ => IsPanic failure := by
  refine ends_get_bind fun wal _ => ?_
  cases wal.pages.lookup pageId with
  | none =>
      exact ends_modify_bind (fun _ => True) (fun _ _ => trivial) (ends_pure fun _ _ => trivial)
  | some page =>
      have read : Ends (fun other => other = wal) (ofExcept (page.getTuple slotId))
          (fun _ _ => True) (fun failure _ => IsPanic failure) :=
        ends_ofExcept (fun _ _ _ _ => trivial) fun failure failed _ _ =>
          panics_getTuple page slotId failure failed
      have deleted : Ends (fun _ : WalManager => True) (ofExcept (page.deleteTuple slotId))
          (fun _ _ => True) (fun failure _ => IsPanic failure) :=
        ends_ofExcept (fun _ _ _ _ => trivial) fun failure failed _ _ =>
          panics_deleteTuple page slotId failure failed
      refine read.bind fun oldData => deleted.bind fun found => ?_
      exact ends_modify_bind (fun _ => True) (fun _ _ => trivial)
        (ends_modify_bind (fun _ => True) (fun _ _ => trivial) (ends_pure fun _ _ => trivial))

end Log

section Calls

variable {α : Type} {frameId : FrameId} {before : BufferPool frameCount → Prop}

theorem ends_onPool {call : Fallible Failure (BufferPool frameCount) α}
    {after : α → BufferPool frameCount → Prop}
    {failed : Failure → BufferPool frameCount → Prop} (ends : Ends before call after failed) :
    Ends (fun executor : Executor => before executor.bufferPool) (onPool call)
      (fun value executor => after value executor.bufferPool)
      (fun failure executor => failed failure executor.bufferPool) := by
  intro executor holds
  have ended := ends executor.bufferPool holds
  rw [onPool]
  generalize call executor.bufferPool = outcome at ended ⊢
  rcases outcome with ⟨_ | _, pool⟩ <;> exact ended

/-- The log manager does not touch the pool. -/
theorem ends_onWal {call : Fallible Failure WalManager α} {fails : Failure → Prop}
    (ends : Ends (fun _ => True) call (fun _ _ => True) fun failure _ => fails failure) :
    Ends (fun executor : Executor => before executor.bufferPool) (onWal call)
      (fun _ executor => before executor.bufferPool)
      (fun failure executor => before executor.bufferPool ∧ fails failure) := by
  intro executor holds
  rw [onWal]
  rcases run : call executor.wal with ⟨failure | value, wal⟩
  · exact ⟨holds, ends.error trivial run⟩
  · exact holds

/-- A call of the log manager that does not fail. -/
theorem ends_onWal_total {call : Fallible Failure WalManager α}
    {failed : Failure → Executor → Prop}
    (ends : Ends (fun _ => True) call (fun _ _ => True) fun _ _ => False) :
    Ends (fun executor : Executor => before executor.bufferPool) (onWal call)
      (fun _ executor => before executor.bufferPool) failed :=
  (ends_onWal ends).failing fun _ _ impossible => impossible.2.elim

theorem ends_row {result : Except Failure α} (avoids : Avoids result) :
    Ends (Holds frameId) (ofExcept result) (fun _ => Holds frameId) Torn :=
  ends_ofExcept (fun _ _ _ holds => holds) fun failure failed _ holds =>
    .inr (.inr ⟨avoids failure failed, frameId, holds⟩)

theorem ends_getTuple (frameId : FrameId) (slotId : UInt16) :
    Ends (fun executor : Executor => before executor.bufferPool) (getTuple frameId slotId)
      (fun _ executor => before executor.bufferPool) (fun failure _ => IsPanic failure) := by
  refine ends_get_then fun executor => ?_
  cases executor.bufferPool.getPage frameId with
  | none => exact ends_pure fun _ holds => holds
  | some page =>
      exact ends_ofExcept (fun _ _ _ holds => holds) fun failure failed _ _ =>
        panics_getTuple page slotId failure failed

theorem ends_onPage (other : FrameId) (default : α) {operation : Page → Except Failure (α × Page)}
    (panics : ∀ page, Panics (operation page)) :
    Ends (Holds frameId) (onPage other default operation) (fun _ => Holds frameId)
      (fun failure _ => IsPanic failure) := by
  refine ends_get_bind fun executor holds => ?_
  rcases found : executor.bufferPool.getPage other with _ | page
  · exact ends_pure fun _ same => same ▸ holds
  · have operate : Ends (fun executor' => executor' = executor) (ofExcept (operation page))
        (fun _ executor' => executor' = executor) (fun failure _ => IsPanic failure) :=
      ends_ofExcept (fun _ _ _ same => same) fun failure failed _ _ => panics page failure failed
    refine operate.bind fun outcome => ends_modify_bind (Holds frameId) ?_
      (ends_pure fun _ holds => holds)
    rintro executor' rfl
    exact BufferPool.Pins.setPage holds (by rw [found]; rfl) outcome.2

theorem ends_unpin (dirty : Bool) {failed : Failure → Executor → Prop} :
    Ends (Holds frameId) (modifyPool (BufferPool.unpin frameId dirty)) (fun _ => Idle) failed :=
  ends_modify fun _ holds => BufferPool.Pins.unpin holds dirty

/-- The indexes are not in the pool. -/
theorem ends_modifyIndexes (change : IndexManager → IndexManager)
    {failed : Failure → Executor → Prop} :
    Ends (fun executor : Executor => before executor.bufferPool) (modifyIndexes change)
      (fun _ executor => before executor.bufferPool) failed :=
  ends_modify fun _ holds => holds

end Calls

section Scan

variable {α : Type}

theorem ends_slots {frameId : FrameId} (other : FrameId) :
    Ends (Holds frameId) (slots other) (fun _ => Holds frameId) Torn := by
  refine ends_get_then fun executor => ?_
  split <;> exact ends_pure fun _ holds => holds

/-- A body of a scan returns with its page pinned. -/
def Balances (body : UInt32 → FrameId → UInt16 → Bool → Bytes → α → Action (Bool × α)) : Prop :=
  ∀ pageId frameId slotId dirty tuple result,
    Ends (Holds frameId) (body pageId frameId slotId dirty tuple result)
      (fun _ => Holds frameId) Torn

variable {body : UInt32 → FrameId → UInt16 → Bool → Bytes → α → Action (Bool × α)}

theorem ends_scanSlots (balances : Balances body) (pageId : UInt32) (frameId : FrameId)
    (slotIds : List UInt16) (dirty : Bool) (result : α) :
    Ends (Holds frameId) (scanSlots frameId (body pageId frameId) slotIds dirty result)
      (fun _ => Holds frameId) Torn := by
  induction slotIds generalizing dirty result with
  | nil => exact ends_pure fun _ holds => holds
  | cons slotId slotIds ih =>
      refine ((ends_getTuple frameId slotId).failing torn_of_isPanic).bind fun found => ?_
      cases found with
      | none => exact ih dirty result
      | some tuple =>
          exact (balances pageId frameId slotId dirty tuple result).bind fun _ => ih _ _

theorem balances_select (schema : Schema) (columns : SelectColumns) (filter : Option Expr) :
    Balances fun _ _ _ _ tuple (results : List Row) => do
      let row ← Fallible.ofExcept (selectRow schema columns filter tuple)
      return (false, results ++ row.toList) := by
  intro pageId frameId slotId dirty tuple results
  exact (ends_row (avoids_selectRow schema columns filter tuple)).bind fun _ =>
    ends_pure fun _ holds => holds

theorem ends_selected {frameId : FrameId} {schema : Schema} {filter : Option Expr} {tuple : Bytes}
    {skip : Action α} {hit : Row → Action α}
    (skips : Ends (Holds frameId) skip (fun _ => Holds frameId) Torn)
    (hits : ∀ row, Ends (Holds frameId) (hit row) (fun _ => Holds frameId) Torn) :
    Ends (Holds frameId) (do
      let row ← Fallible.ofExcept (schema.deserializeRow tuple)
      if ← Fallible.ofExcept (selects schema filter row) then hit row else skip)
      (fun _ => Holds frameId) Torn := by
  rw [ofExcept_selectRow]
  refine (ends_row (avoids_selectRow schema .star filter tuple)).bind fun selected => ?_
  cases selected with
  | none => exact skips
  | some row => exact hits row

theorem balances_delete (table : String) (schema : Schema) (filter : Option Expr) (txnId : UInt32) :
    Balances (deleteBody table schema filter txnId) := by
  intro pageId frameId slotId dirty tuple result
  refine ends_selected (ends_pure fun _ holds => holds) fun row => ?_
  refine ((ends_onWal (panics_logDelete txnId pageId slotId)).failing fun _ _ failed =>
    .inl failed.2).bind fun _ => ?_
  refine ((ends_onPage frameId false fun page => panics_deleteTuple page slotId).failing
    torn_of_isPanic).bind fun _ => ?_
  exact (ends_modifyIndexes _).bind fun _ => ends_pure fun _ holds => holds

theorem balances_update (table : String) (schema : Schema) (assignments : List Assignment)
    (filter : Option Expr) (txnId : UInt32) :
    Balances (updateBody table schema assignments filter txnId) := by
  intro pageId frameId slotId dirty oldBytes result
  refine ends_selected (ends_pure fun _ holds => holds) fun oldRow => ?_
  refine ends_get_then fun executor => ?_
  refine (ends_row (avoids_rewriteRow schema executor.indexManager table assignments
    oldRow)).bind fun rewritten => ?_
  refine (ends_onWal_total (total_logUpdate _ _ _ _ _)).bind fun _ => ?_
  refine ((ends_onPage frameId false fun page => panics_updateTuple page slotId rewritten.2).failing
    torn_of_isPanic).bind fun ok => ?_
  cases ok with
  | true => exact (ends_modifyIndexes _).bind fun _ => ends_pure fun _ holds => holds
  | false =>
      -- the row does not fit: the one failure after which the page is unpinned
      refine (ends_unpin dirty).bind fun _ => ?_
      refine (ends_onWal_total (total_abort txnId)).bind fun _ => ?_
      exact ends_throw fun _ idle => .inr (.inl ⟨trivial, idle⟩)

variable [Crc32]

/-- A page that cannot be fetched is not pinned. -/
theorem ends_fetchPage (pageId : UInt32) :
    Ends Idle (fetchPage pageId) Holds (fun failure executor => executor.Idle ∧
      (IsPanic failure ∨ ∃ error, failure = .sql (.fetchPage pageId error))) :=
  (ends_onPool (BufferPool.ends_fetchPage pageId)).mapError fun _ _ refused =>
    ⟨refused.2, BufferPool.wrapIo_of_isRaw refused.1 _⟩

theorem ends_fetchPage_torn (pageId : UInt32) :
    Ends Idle (fetchPage pageId) Holds Torn := by
  refine (ends_fetchPage pageId).failing ?_
  rintro failure executor ⟨idle, panics | ⟨error, rfl⟩⟩
  · exact .inl panics
  · exact .inr (.inl ⟨trivial, idle⟩)

theorem ends_scanPages (balances : Balances body) (pageIds : List UInt32) (result : α) :
    Ends Idle (scanPages body pageIds result) (fun _ => Idle) Torn := by
  induction pageIds generalizing result with
  | nil => exact ends_pure fun _ idle => idle
  | cons pageId pageIds ih =>
      refine (ends_fetchPage_torn pageId).bind fun frameId => ?_
      refine (ends_slots frameId).bind fun slotIds => ?_
      refine (ends_scanSlots balances pageId frameId slotIds false result).bind fun scanned => ?_
      refine (ends_unpin scanned.1).bind fun _ => ?_
      exact (ih scanned.2).bind fun _ => ends_pure fun _ idle => idle

theorem ends_flushPages (pageIds : List UInt32) {failed : Failure → Executor → Prop} :
    Ends Idle (flushPages pageIds) (fun _ => Idle) failed := by
  refine ends_forEach fun pageId => ?_
  exact (ends_onPool (BufferPool.ends_flushPage pageId)).mapError fun _ _ impossible =>
    impossible.elim

theorem ends_transact
    {body : UInt32 → UInt32 → FrameId → UInt16 → Bool → Bytes → Unit → Action (Bool × Unit)}
    (balances : ∀ txnId, Balances (body txnId)) (pageIds : List UInt32) :
    Ends Idle (transact body pageIds) (fun _ => Idle) Torn := by
  refine ((ends_onWal panics_beginTxn).failing fun _ _ failed => .inl failed.2).bind fun txnId => ?_
  refine (ends_scanPages (balances txnId) pageIds ()).bind fun scanned => ?_
  refine (ends_onWal_total (total_commit txnId)).bind fun _ => ?_
  exact (ends_flushPages scanned.1).bind fun _ => ends_pure fun _ idle => idle

end Scan

section Start

variable [Crc32]

theorem ends_tryFetchPage (pageId : UInt32) :
    Ends Idle (tryFetchPage pageId)
      (fun found executor => found.elim executor.Idle fun frameId => executor.Holds frameId)
        Torn := by
  intro executor idle
  have fetch := ends_onPool (BufferPool.ends_fetchPage pageId) executor idle
  rw [tryFetchPage]
  generalize onPool (BufferPool.fetchPage pageId) executor = ended at fetch ⊢
  rcases ended with ⟨(_ | error | panic) | frameId, fetched⟩
  · exact fetch.2
  · exact absurd rfl (fetch.1 error)
  · exact .inl ⟨panic, rfl⟩
  · exact fetch

theorem ends_pushPage (pageId : UInt32) : Ends Idle (pushPage pageId) (fun _ => Idle) Torn := by
  refine ends_get_then fun executor => ?_
  rcases executor.wal.pages.lookup pageId with _ | walPage
  · exact ends_pure fun _ idle => idle
  · refine (ends_tryFetchPage pageId).bind fun found => ?_
    cases found with
    | none => exact ends_pure fun _ idle => idle
    | some frameId =>
        refine ((ends_onPage frameId () fun _ => panics_ok _).failing torn_of_isPanic).bind
          fun _ => ?_
        exact ends_unpin true

omit [Crc32] in
theorem balances_rebuild (table : String) (schema : Schema) :
    Balances fun pageId _ => rebuildBody table schema pageId := by
  intro pageId frameId slotId dirty tuple result
  dsimp only [rebuildBody]
  split
  · exact ends_throw fun _ _ => .inl ⟨_, rfl⟩
  · exact ends_pure fun _ holds => holds
  · exact (ends_modifyIndexes _).bind fun _ => ends_pure fun _ holds => holds

theorem ends_rebuildPages (table : String) (schema : Schema) (pageIds : List UInt32) :
    Ends Idle (rebuildPages table schema pageIds) (fun _ => Idle) Torn := by
  induction pageIds with
  | nil => exact ends_pure fun _ idle => idle
  | cons pageId pageIds ih =>
      refine (ends_tryFetchPage pageId).bind fun found => ?_
      cases found with
      | none => exact ih
      | some frameId =>
          refine (ends_slots frameId).bind fun slotIds => ?_
          refine (ends_scanSlots (balances_rebuild table schema) pageId frameId slotIds false
            ()).bind fun _ => ?_
          exact (ends_unpin false).bind fun _ => ih

theorem ends_rebuildTable (table : String) :
    Ends Idle (rebuildTable table) (fun _ => Idle) Torn := by
  refine ends_get_then fun executor => ?_
  cases executor.catalog.get table with
  | none => exact ends_pure fun _ idle => idle
  | some schema => exact ends_rebuildPages table schema _

theorem ends_recover (order : HashOrder) :
    Ends Idle (recover order) (fun _ => Idle) (fun _ _ => True) := by
  refine ends_modify_bind Idle (fun _ idle => idle) ?_
  have replays : Ends (fun _ => True) WalManager.recover (fun _ _ => True)
      (fun _ _ => True : Failure → WalManager → Prop) := by
    intro wal _
    split <;> trivial
  have pushes (pageId : UInt32) := (ends_pushPage pageId).failing fun _ _ _ => trivial
  have rebuilds (table : String) := (ends_rebuildTable table).failing fun _ _ _ => trivial
  refine ((ends_onWal replays).failing fun _ _ failed => failed.2).bind fun report =>
    ends_get_then fun replayed => ?_
  refine (ends_forEach pushes).bind fun _ => ends_get_then fun pushed => ?_
  refine (ends_forEach fun pageId => (ends_onPool (BufferPool.ends_flushPage pageId)).failing
    fun _ _ impossible => impossible.elim).bind fun _ => ?_
  refine ends_modify_bind Idle (fun _ idle => idle) (ends_get_then fun indexed => ?_)
  refine (ends_forEach rebuilds).bind fun _ => ends_get_then fun _ => ?_
  exact ends_pure fun _ idle => idle

theorem idle_of_start {order : HashOrder} {files : Files} {info : RecoveryInfo}
    {executor : Executor} (run : start order files = (.ok info, executor)) : executor.Idle :=
  (ends_recover order).ok (BufferPool.pins_new rfl) run

end Start

section Queries

variable [Crc32]

theorem ends_seqScan (schema : Schema) (columns : SelectColumns) (filter : Option Expr)
    (pageIds : List UInt32) :
    Ends Idle (seqScan schema columns filter pageIds) (fun _ => Idle) Torn :=
  (ends_scanPages (balances_select schema columns filter) pageIds []).bind fun _ =>
    ends_pure fun _ idle => idle

/-- A page is unpinned before its tuple is decoded. -/
theorem ends_selectRids (schema : Schema) (columns : SelectColumns) (expr : Expr)
    (pageIds : List UInt32) (rids : List Rid) (results : List Row) :
    Ends Idle (selectRids schema columns expr pageIds rids results) (fun _ => Idle)
      (fun failure executor => IsPanic failure ∨ executor.Idle) := by
  induction rids generalizing results with
  | nil => exact ends_pure fun _ idle => idle
  | cons rid rids ih =>
      rw [selectRids]
      split_ifs
      · refine ((ends_fetchPage rid.pageId).failing fun _ _ failed => .inr failed.1).bind
          fun frameId => ?_
        refine ((ends_getTuple frameId rid.slotId).failing fun _ _ panics => .inl panics).bind
          fun found => ?_
        refine (ends_unpin false).bind fun _ => ?_
        cases found with
        | none => exact ih results
        | some tuple =>
            have select : Ends Idle (ofExcept (selectRow schema columns (some expr) tuple))
                (fun _ => Idle) (fun failure executor => IsPanic failure ∨ executor.Idle) :=
              ends_ofExcept (fun _ _ _ idle => idle) fun _ _ _ idle => .inr idle
            exact select.bind fun row => ih (results ++ row.toList)
      · exact ih results

end Queries

section Insert

theorem ends_insertInto {frameId : FrameId} (txnId pageId : UInt32) (wrap : IoError → SqlError)
    (rowBytes : Bytes) :
    Ends (Holds frameId) (insertInto txnId pageId frameId wrap rowBytes) (fun _ => Idle)
      (fun failure executor => IsPanic failure ∨ executor.Holds frameId) := by
  have logs : Ends (fun _ => True) (WalManager.logInsert txnId pageId rowBytes) (fun _ _ => True)
      (fun _ _ => True) := by
    intro wal _
    split <;> trivial
  refine Ends.bind ((ends_onWal logs).mapError fun _ _ failed => .inr failed.1) fun _ => ?_
  refine ((ends_onPage frameId none fun page => panics_insertTuple page rowBytes).failing
    fun _ _ panics => .inl panics).bind fun _ => ?_
  exact (ends_unpin true).bind fun _ => ends_pure fun _ idle => idle

/-- An `INSERT` that finds no page leaves the new page pinned. -/
def Overfull (failure : Failure) (executor : Executor) : Prop :=
  Strands failure executor ∧
    ∀ error, failure = .sql (.walInsertNewPage error) → ∃ frameId, executor.Holds frameId

theorem overfull_of_holds {frameId : FrameId} (failure : Failure) (executor : Executor)
    (failed : IsPanic failure ∨ executor.Holds frameId) : Overfull failure executor := by
  refine ⟨failed.imp id fun holds => .inr ⟨frameId, holds⟩, ?_⟩
  rintro error rfl
  rcases failed with ⟨panic, impossible⟩ | holds
  · simp at impossible
  · exact ⟨frameId, holds⟩

variable [Crc32]

theorem ends_insertExisting (txnId : UInt32) (rowBytes : Bytes) (pageIds : List UInt32) :
    Ends Idle (insertExisting txnId rowBytes pageIds) (fun _ => Idle) Overfull := by
  induction pageIds with
  | nil => exact ends_pure fun _ idle => idle
  | cons pageId pageIds ih =>
      have fetch : Ends Idle (fetchPage pageId) Holds Overfull := by
        refine (ends_fetchPage pageId).failing ?_
        rintro failure executor ⟨idle, ⟨panic, rfl⟩ | ⟨error, rfl⟩⟩
        · exact ⟨strands_of_idle _ _ idle, by simp⟩
        · exact ⟨strands_of_idle _ _ idle, by simp⟩
      refine fetch.bind fun frameId => ends_get_then fun executor => ?_
      dsimp only
      split_ifs
      · exact ((ends_insertInto txnId pageId .walInsert rowBytes).failing
          overfull_of_holds).bind fun _ => ends_pure fun _ idle => idle
      · exact (ends_unpin false).bind fun _ => ih

theorem ends_insertFresh (txnId : UInt32) (table : String) (rowBytes : Bytes) :
    Ends Idle (insertFresh txnId table rowBytes) (fun _ => Idle) Overfull := by
  refine Ends.bind ((ends_onPool BufferPool.ends_newPage).mapError ?_) fun created => ?_
  · rintro failure executor ⟨isRaw, idle⟩
    refine ⟨strands_of_idle _ _ idle, fun error wrapped => ?_⟩
    rcases BufferPool.wrapIo_of_isRaw isRaw SqlError.newPage with ⟨panic, same⟩ | ⟨other, same⟩
    · rw [same] at wrapped
      simp at wrapped
    · rw [same] at wrapped
      simp at wrapped
  · refine ((ends_insertInto txnId created.1 .walInsertNewPage rowBytes).failing
      overfull_of_holds).bind fun slotId => ?_
    refine ends_modify_bind Idle (fun _ idle => idle) ?_
    exact ends_modify_bind Idle (fun _ idle => idle) (ends_pure fun _ idle => idle)

theorem ends_placeRow (txnId : UInt32) (table : String) (rowBytes : Bytes)
    (pageIds : List UInt32) :
    Ends Idle (placeRow txnId table rowBytes pageIds) (fun _ => Idle) Overfull := by
  refine (ends_insertExisting txnId rowBytes pageIds).bind fun found => ?_
  cases found with
  | none => exact ends_insertFresh txnId table rowBytes
  | some rid => exact ends_pure fun _ idle => idle

end Insert

section Execute

theorem ends_execCreateTable (order : HashOrder) (table : String) (columns : List ColumnDef) :
    Ends Idle (execCreateTable order table columns) (fun _ => Idle) (fun _ => Idle) := by
  refine (ends_modifyIndexes _).bind fun _ => ends_get_then fun executor => ?_
  have creates : Ends Idle (ofExcept (executor.catalog.createTable (Schema.new table columns)))
      (fun _ => Idle) (fun _ => Idle) :=
    ends_ofExcept (fun _ _ _ idle => idle) fun _ _ _ idle => idle
  refine creates.bind fun catalog => ends_modify_bind Idle (fun _ idle => idle) ?_
  refine ends_modify_bind Idle (fun _ idle => idle) ?_
  exact ends_modify_bind Idle (fun _ idle => idle) (ends_pure fun _ idle => idle)

theorem ends_schemaOf (table : String) :
    Ends Idle (schemaOf table) (fun _ => Idle) (fun _ => Idle) := by
  refine ends_get_then fun executor => ?_
  cases executor.catalog.get table with
  | none => exact ends_throw fun _ idle => idle
  | some schema => exact ends_pure fun _ idle => idle

theorem ends_pagesOf (table : String) :
    Ends Idle (pagesOf table) (fun _ => Idle) (fun _ => Idle) := by
  refine ends_get_then fun executor => ?_
  cases executor.tablePages.lookup table with
  | none => exact ends_throw fun _ idle => idle
  | some pageIds => exact ends_pure fun _ idle => idle

/-- A computation on rows while nothing is pinned. -/
theorem ends_rows {α : Type} (result : Except Failure α) :
    Ends Idle (ofExcept result) (fun _ => Idle) (fun _ => Idle) :=
  ends_ofExcept (fun _ _ _ idle => idle) fun _ _ _ idle => idle

variable [Crc32]

/-- The end of `INSERT`: index maintenance, commit and flush. -/
theorem ends_insert_finishes (table : String) (rid : Rid)
    (cells : List (String × Option Int64 × Option Int64)) (txnId : UInt32) :
    Ends Idle (do
      modifyIndexes (IndexManager.maintain table rid cells)
      onWal (WalManager.commit txnId)
      flushPages [rid.pageId]
      return ([] : List Row)) (fun _ => Idle) (fun _ => Idle) := by
  refine (ends_modifyIndexes _).bind fun _ => ?_
  refine (ends_onWal_total (total_commit txnId)).bind fun _ => ?_
  exact (ends_flushPages _).bind fun _ => ends_pure fun _ idle => idle

variable [Build]

theorem ends_tryIndexSelect (table : String) (schema : Schema) (expr : Expr)
    (columns : SelectColumns) (pageIds : List UInt32) :
    Ends Idle (tryIndexSelect table schema expr columns pageIds) (fun _ => Idle)
      (fun failure executor => IsPanic failure ∨ executor.Idle) := by
  refine ends_get_then fun executor => ?_
  refine ((ends_rows _).failing fun _ _ idle => .inr idle).bind fun rids => ?_
  cases rids with
  | none => exact ends_pure fun _ idle => idle
  | some rids =>
      exact (ends_selectRids schema columns expr pageIds rids []).bind fun _ =>
        ends_pure fun _ idle => idle

theorem ends_findRows (table : String) (schema : Schema) (columns : SelectColumns)
    (filter : Option Expr) (pageIds : List UInt32) :
    Ends Idle (findRows table schema columns filter pageIds) (fun _ => Idle) Strands := by
  have scan := (ends_seqScan schema columns filter pageIds).failing strands_of_torn
  cases filter with
  | none => exact scan
  | some expr =>
      have search : Ends Idle (tryIndexSelect table schema expr columns pageIds) (fun _ => Idle)
          Strands := by
        refine (ends_tryIndexSelect table schema expr columns pageIds).failing ?_
        exact fun _ _ failed => failed.imp_right .inl
      refine search.bind fun found => ?_
      cases found with
      | none => exact scan
      | some rows => exact ends_pure fun _ idle => idle

/-- A statement that returns `Ok` has returned all its pins. -/
theorem ends_execute (order : HashOrder) (stmt : Statement) :
    Ends Idle (execute order stmt) (fun _ => Idle) Strands := by
  have schemas (table : String) := (ends_schemaOf table).failing strands_of_idle
  have pages (table : String) := (ends_pagesOf table).failing strands_of_idle
  have rows {α : Type} (result : Except Failure α) := (ends_rows result).failing strands_of_idle
  cases stmt with
  | createTable table columns =>
      exact (ends_execCreateTable order table columns).failing strands_of_idle
  | insert table values =>
      refine (schemas table).bind fun schema => ends_get_then fun executor => ?_
      refine (rows _).bind fun _ => (rows _).bind fun rowBytes => ?_
      refine ((ends_onWal panics_beginTxn).failing fun _ _ failed => .inl failed.2).bind
        fun txnId => ?_
      refine (pages table).bind fun pageIds => ?_
      refine ((ends_placeRow _ _ _ _).failing fun _ _ failed => failed.1).bind fun rid => ?_
      exact (ends_insert_finishes table rid _ txnId).failing strands_of_idle
  | select table columns filter orderBy limit =>
      refine (schemas table).bind fun schema => (pages table).bind fun pageIds => ?_
      refine (ends_findRows table schema columns filter pageIds).bind fun results => ?_
      exact (rows _).bind fun _ => rows _
  | delete table filter =>
      refine (schemas table).bind fun schema => (pages table).bind fun pageIds => ?_
      exact (ends_transact (balances_delete table schema filter) pageIds).failing strands_of_torn
  | update table assignments filter =>
      refine (schemas table).bind fun schema => (pages table).bind fun pageIds => ?_
      exact (ends_transact (balances_update table schema assignments filter) pageIds).failing
        strands_of_torn

end Execute

end Executor

end VenomDb
