import VenomDb.Engine.Intact

/-!
# Statements and restarts keep the types of pages

A statement may fail anywhere, with records in the log that nothing commits and with pages
changed in memory. What it leaves behind is typed all the same, and so is what a later session
makes of it.
-/

namespace VenomDb

namespace Executor

open Fallible BufferPool

variable [Crc32] {catalog : Catalog} {owner : UInt32 → Option Schema} {young : Option UInt32}
  {executor executor' : Executor} {pageId : UInt32} {frameId : FrameId} {schema : Schema}
  {table : String} {α β : Type}

/-- However a statement fails, unless it is by a panic. -/
def Stays (catalog : Catalog) (owner : UInt32 → Option Schema) (failure : Failure)
    (executor : Executor) : Prop :=
  IsPanic failure ∨ Intact catalog owner none executor

theorem stays_of_intact (failure : Failure) (executor : Executor)
    (intact : Intact catalog owner none executor) : Stays catalog owner failure executor :=
  .inr intact

section Scan

variable {failed : Failure → Executor → Prop}
  {body : UInt32 → FrameId → UInt16 → Bool → Bytes → α → Action (Bool × α)}

theorem within_unpin (dirty : Bool) :
    Ends (Within catalog owner young pageId frameId) (modifyPool (BufferPool.unpin frameId dirty))
      (fun _ => Intact catalog owner young) failed :=
  (intact_unpin frameId dirty).imp (fun _ within => within.intact) (fun _ _ intact => intact)
    fun _ _ fails => fails

/-- The body of a scan keeps the types if it gets legible tuples. -/
def Reads (catalog : Catalog) (owner : UInt32 → Option Schema) (schema : Schema)
    (failed : Failure → Executor → Prop)
    (body : UInt32 → FrameId → UInt16 → Bool → Bytes → α → Action (Bool × α)) : Prop :=
  ∀ pageId frameId slotId dirty tuple result, owner pageId = some schema →
    Legible schema tuple → tuple.length < 2 ^ 16 →
    Ends (Within catalog owner none pageId frameId)
      (body pageId frameId slotId dirty tuple result)
      (fun _ => Within catalog owner none pageId frameId) failed

theorem within_scanSlots (reads : Reads catalog owner schema failed body)
    (isOwner : owner pageId = some schema) (slotIds : List UInt16) (dirty : Bool) (result : α) :
    Ends (Within catalog owner none pageId frameId)
      (scanSlots frameId (body pageId frameId) slotIds dirty result)
      (fun _ => Within catalog owner none pageId frameId) failed := by
  induction slotIds generalizing dirty result with
  | nil => exact ends_pure fun _ within => within
  | cons slotId slotIds ih =>
      refine (within_getTuple isOwner slotId).bind fun found => ?_
      cases found with
      | none =>
          exact (ih dirty result).imp (fun executor read => And.left read)
            (fun _ _ within => within) fun _ _ fails => fails
      | some tuple =>
          rintro executor ⟨within, legible⟩
          rcases legible tuple rfl with ⟨isLegible, short⟩
          exact ((reads pageId frameId slotId dirty tuple result isOwner isLegible short).bind
            fun changed => ih _ _) executor within

theorem intact_scanPages (reads : Reads catalog owner schema failed body)
    (refuses : ∀ failure executor, Intact catalog owner none executor → failed failure executor)
    {pageIds : List UInt32}
    (owned : ∀ pageId ∈ pageIds, owner pageId = some schema) (result : α) :
    Ends (Intact catalog owner none) (scanPages body pageIds result)
      (fun _ => Intact catalog owner none) failed := by
  induction pageIds generalizing result with
  | nil => exact ends_pure fun _ intact => intact
  | cons pageId pageIds ih =>
      have isOwner := owned pageId List.mem_cons_self
      have others := ih fun other inside => owned other (List.mem_cons_of_mem _ inside)
      refine ((intact_fetchPage pageId).failing refuses).bind fun frameId => ?_
      refine within_slots.bind fun slotIds => ?_
      refine (within_scanSlots reads isOwner slotIds false result).bind fun scanned => ?_
      refine (within_unpin scanned.1).bind fun _ => ?_
      exact (others scanned.2).bind fun _ => ends_pure fun _ intact => intact

/-- A computation on rows. -/
theorem within_ofExcept {result : Except Failure α}
    (fails : ∀ failure, result = .error failure → ∀ executor,
      Within catalog owner none pageId frameId executor → failed failure executor) :
    Ends (Within catalog owner none pageId frameId) (ofExcept result)
      (fun _ => Within catalog owner none pageId frameId) failed :=
  ends_ofExcept (fun _ _ _ within => within) fails

theorem within_row (result : Except Failure α) :
    Ends (Within catalog owner none pageId frameId) (ofExcept result)
      (fun _ => Within catalog owner none pageId frameId) (Stays catalog owner) :=
  within_ofExcept fun _ _ _ within => .inr within.intact

theorem within_modifyIndexes (change : IndexManager → IndexManager) :
    Ends (Within catalog owner young pageId frameId) (modifyIndexes change)
      (fun _ => Within catalog owner young pageId frameId) failed := by
  rintro executor ⟨intact, resident⟩
  have changed : Ends (Intact catalog owner young) (modifyIndexes change)
      (fun _ => Intact catalog owner young) failed := intact_modifyIndexes change
  exact ⟨changed executor intact, resident⟩

/-- `SELECT` reads rows without a panic. -/
theorem reads_select
    (refuses : ∀ failure executor, Refused catalog owner none failure executor →
      failed failure executor) (columns : SelectColumns) (filter : Option Expr) :
    Reads catalog owner schema failed fun _ _ _ _ tuple (results : List Row) => do
        let row ← Fallible.ofExcept (selectRow schema columns filter tuple)
        return (false, results ++ row.toList) := by
  intro pageId frameId slotId dirty tuple results _ legible short
  refine Ends.bind (within_ofExcept ?_) fun _ => ends_pure fun _ within => within
  rintro failure failed executor within
  refine refuses failure executor ⟨?_, within.intact⟩
  rintro ⟨panic, rfl⟩
  exact legible.selectRow_ne_panic short columns filter panic failed

theorem reads_delete (table : String) (filter : Option Expr) (txnId : UInt32) :
    Reads catalog owner schema (Stays catalog owner) (deleteBody table schema filter txnId) := by
  intro pageId frameId slotId dirty tuple _ isOwner legible short
  refine (within_row _).bind fun row => (within_row _).bind fun selected => ?_
  split_ifs
  · refine (within_onWal (intact_logDelete isOwner slotId)).bind fun _ => ?_
    refine (within_onPage Page.deleteTuple_id ?_ ?_).bind fun _ => ?_
    · intro schema page out _ spells run
      rcases spells.deleteTuple slotId with ⟨out', run', spells'⟩
      obtain rfl : out = out' := Except.ok.inj (run.symm.trans run')
      exact spells'
    · exact fun page failure _ failed => .inl (panics_deleteTuple page slotId failure failed)
    · exact (within_modifyIndexes _).bind fun _ => ends_pure fun _ within => within
  · exact ends_pure fun _ within => within

theorem reads_update (table : String) (assignments : List Assignment) (filter : Option Expr)
    (txnId : UInt32) : Reads catalog owner schema (Stays catalog owner)
      (updateBody table schema assignments filter txnId) := by
  intro pageId frameId slotId dirty oldBytes _ isOwner legible short
  refine (within_row _).bind fun oldRow => (within_row _).bind fun selected => ?_
  split_ifs
  · refine ends_get_then fun executor => ?_
    have rewrites : Ends (Within catalog owner none pageId frameId)
        (ofExcept (rewriteRow schema executor.indexManager table assignments oldRow))
        (fun made executor => Within catalog owner none pageId frameId executor ∧
          Legible schema made.2) (Stays catalog owner) := by
      refine ends_ofExcept ?_ fun _ _ _ within => .inr within.intact
      intro made rewritten executor within
      exact ⟨within, legible_of_serializeRow (Logical.rewriteRow_eq_ok rewritten).2.2⟩
    refine rewrites.bind fun made => ?_
    rintro executor ⟨within, new⟩
    refine Ends.bind (within_onWal (intact_logUpdate isOwner legible new)) (fun _ => ?_) executor
      within
    refine (within_onPage Page.updateTuple_id ?_ ?_).bind fun ok => ?_
    · intro other page out isOther spells run
      obtain rfl : schema = other := Option.some.inj (isOwner.symm.trans isOther)
      rcases spells.updateTuple new slotId with ⟨out', run', spells'⟩
      obtain rfl : out = out' := Except.ok.inj (run.symm.trans run')
      exact spells'
    · exact fun page failure _ failed => .inl (panics_updateTuple page slotId made.2 failure failed)
    · split_ifs
      · exact (within_modifyIndexes _).bind fun _ => ends_pure fun _ within => within
      · refine (within_unpin dirty).bind fun _ => (intact_abort txnId).bind fun _ => ?_
        exact ends_throw fun _ intact => .inr intact
  · exact ends_pure fun _ within => within

end Scan

section Tables

variable {failed : Failure → Executor → Prop} {after : β → Executor → Prop}

/-- A statement about a table that the catalog knows. -/
theorem intact_schemaOf {next : Schema → Action β}
    (refuses : ∀ failure executor, Intact catalog owner none executor → failed failure executor)
    (rest : ∀ schema, catalog.get table = some schema →
      Ends (Intact catalog owner none) (next schema) after failed) :
    Ends (Intact catalog owner none) (schemaOf table >>= next) after failed := by
  have found : Ends (Intact catalog owner none) (schemaOf table)
      (fun schema executor => Intact catalog owner none executor ∧
        catalog.get table = some schema) failed := by
    refine ends_get_bind fun executor intact => ?_
    rw [intact.known]
    cases known : catalog.get table with
    | none =>
        exact ends_throw fun _ same => refuses _ _ (same ▸ intact)
    | some schema => exact ends_pure fun _ same => same ▸ ⟨intact, rfl⟩
  refine found.bind fun schema => ?_
  rintro executor ⟨intact, known⟩
  exact rest schema known executor intact

/-- The pages in the list of a table have the type of the table. -/
theorem intact_pagesOf {next : List UInt32 → Action β} (known : catalog.get table = some schema)
    (refuses : ∀ failure executor, Intact catalog owner none executor → failed failure executor)
    (rest : ∀ pageIds, (∀ pageId ∈ pageIds, owner pageId = some schema) →
      Ends (Intact catalog owner none) (next pageIds) after failed) :
    Ends (Intact catalog owner none) (pagesOf table >>= next) after failed := by
  have found : Ends (Intact catalog owner none) (pagesOf table)
      (fun pageIds executor => Intact catalog owner none executor ∧
        ∀ pageId ∈ pageIds, owner pageId = some schema) failed := by
    refine ends_get_bind fun executor intact => ?_
    cases listed : executor.tablePages.lookup table with
    | none =>
        exact ends_throw fun _ same => refuses _ _ (same ▸ intact)
    | some pageIds =>
        refine ends_pure fun _ same => same ▸ ⟨intact, fun pageId inside => ?_⟩
        rcases intact.listed (.inl listed) inside with ⟨other, known', isOwner⟩
        obtain rfl : schema = other := Option.some.inj (known.symm.trans known')
        exact isOwner
  refine found.bind fun pageIds => ?_
  rintro executor ⟨intact, owned⟩
  exact rest pageIds owned executor intact

theorem intact_flushPages (pageIds : List UInt32) :
    Ends (Intact catalog owner young) (flushPages pageIds) (fun _ => Intact catalog owner young)
      failed := by
  refine ends_forEach fun pageId => ?_
  intro executor intact
  have flushed := intact.onPool (fun base _ pool =>
      (base.Visible pageId → pool.OnFile pageId) ∧ pool.Bare pageId)
    fun _ _ _ known => (shows_flushPage (unhashed_spelled owner) known pageId).failing
      fun _ _ impossible => ⟨impossible, impossible.elim⟩
  rw [mapError]
  generalize Executor.onPool (BufferPool.flushPage pageId) executor = outcome at flushed ⊢
  rcases outcome with ⟨failure | _, executor'⟩
  · exact flushed.1.elim
  · exact flushed.1

end Tables

section Queries

theorem intact_selectRids (columns : SelectColumns) (expr : Expr) {pageIds : List UInt32}
    (owned : ∀ pageId ∈ pageIds, owner pageId = some schema) (rids : List Rid)
    (results : List Row) :
    Ends (Intact catalog owner none) (selectRids schema columns expr pageIds rids results)
      (fun _ => Intact catalog owner none) (fun _ => Intact catalog owner none) := by
  induction rids generalizing results with
  | nil => exact ends_pure fun _ intact => intact
  | cons rid rids ih =>
      rw [selectRids]
      split_ifs with inside
      · refine (intact_fetchPage rid.pageId).bind fun frameId => ?_
        refine (within_getTuple (owned _ inside) rid.slotId).bind fun found => ?_
        rintro executor ⟨within, -⟩
        refine Ends.bind (within_unpin false) (fun _ => ?_) executor within
        cases found with
        | none => exact ih results
        | some tuple =>
            exact Ends.bind (ends_ofExcept (fun _ _ _ intact => intact) fun _ _ _ intact => intact)
              fun row => ih _
      · exact ih results

theorem intact_seqScan (columns : SelectColumns) (filter : Option Expr) {pageIds : List UInt32}
    (owned : ∀ pageId ∈ pageIds, owner pageId = some schema) :
    Ends (Intact catalog owner none) (seqScan schema columns filter pageIds)
      (fun _ => Intact catalog owner none) (fun _ => Intact catalog owner none) :=
  (intact_scanPages (reads_select (fun _ _ refused => refused.2) columns filter)
      (fun _ _ intact => intact) owned []).bind
    fun _ => ends_pure fun _ intact => intact

/-- A scan in a transaction of its own. -/
theorem intact_transact
    {body : UInt32 → UInt32 → FrameId → UInt16 → Bool → Bytes → Unit → Action (Bool × Unit)}
    (reads : ∀ txnId, Reads catalog owner schema (Stays catalog owner) (body txnId))
    {pageIds : List UInt32} (owned : ∀ pageId ∈ pageIds, owner pageId = some schema) :
    Ends (Intact catalog owner none) (transact body pageIds) (fun _ => Intact catalog owner none)
      (Stays catalog owner) := by
  refine (intact_beginTxn.failing fun _ _ failed => .inr failed.2).bind fun txnId => ?_
  refine (intact_scanPages (reads txnId) stays_of_intact owned ()).bind fun scanned => ?_
  refine (intact_commit txnId).bind fun _ => ?_
  exact (intact_flushPages scanned.1).bind fun _ => ends_pure fun _ intact => intact

end Queries

section Grow

variable {txnId : UInt32} {rowBytes : Bytes}

omit [Crc32] in
/-- What `log_insert` does, by what the log manager's copy of the page makes of the tuple. -/
theorem logInsert_eq (txnId pageId : UInt32) (data : Bytes) (wal : WalManager) :
    WalManager.logInsert txnId pageId data wal =
      match (WalManager.entry wal.pages pageId).insertTuple data with
      | .error failure => (.error failure, wal)
      | .ok (none, page) =>
          (.error (.io .pageFull), { wal with pages := wal.pages.insert pageId page })
      | .ok (some slotId, page) =>
          (.ok slotId, WalManager.append (.insert 0 txnId pageId slotId data)
            { wal with pages := wal.pages.insert pageId page }) := by
  rw [WalManager.logInsert, get_bind]
  rcases (WalManager.entry wal.pages pageId).insertTuple data with failure | ⟨_ | slotId, page⟩
  · rfl
  · rfl
  · rfl

/-- A logged insert on a page of a table. -/
theorem intact_logInsert (isOwner : owner pageId = some schema)
    (legible : Legible schema rowBytes) :
    Ends (Intact catalog owner none) (onWal (WalManager.logInsert txnId pageId rowBytes))
      (fun _ => Intact catalog owner none) (Stays catalog owner) := by
  intro executor intact
  have bound := intact.lt_numPages (by rw [isOwner]; rfl)
  have spells : Spells schema (WalManager.entry executor.wal.pages pageId).data := by
    rcases found : executor.wal.pages.lookup pageId with _ | page
    · simpa [WalManager.entry, found] using Spells.new schema pageId
    · simpa [WalManager.entry, found] using (intact.copies found).2 schema isOwner
  have panics := panics_insertTuple (WalManager.entry executor.wal.pages pageId) rowBytes
  rw [onWal, logInsert_eq]
  rcases run : (WalManager.entry executor.wal.pages pageId).insertTuple rowBytes with
    failure | ⟨slotId, page⟩
  · exact .inl (panics failure run)
  · have spelled : Spelled owner pageId page.data := by
      intro other isOther
      obtain rfl : schema = other := Option.some.inj (isOwner.symm.trans isOther)
      exact spells.of_insertTuple legible run
    cases slotId with
    | none => exact .inr (intact.wal (intact.copies_insert bound spelled) intact.attributed)
    | some slotId =>
        refine intact.wal (intact.copies_insert bound spelled) (intact.attributed.append ?_ _)
        intro other isPage
        obtain rfl : pageId = other := Option.some.inj isPage
        exact ⟨schema, isOwner, legible⟩

/-- A page that was just allocated is in its frame and nowhere else. -/
structure Reserved (catalog : Catalog) (owner : UInt32 → Option Schema) (pageId : UInt32)
    (frameId : FrameId) (executor : Executor) : Prop where
  intact : Intact catalog owner none executor
  unowned : owner pageId = none
  uncopied : executor.wal.pages.lookup pageId = none
  resident : executor.bufferPool.pageTable.lookup pageId = some frameId
  page : executor.bufferPool.getPage frameId = some (Page.new pageId)
  dirty : (executor.bufferPool.frames frameId).isDirty = true

theorem reserved_newPage :
    Ends (Intact catalog owner none) (onPool newPage)
      (fun out => Reserved catalog owner out.1 out.2)
      (fun failure executor => (failure = .io .poolFull ∨ failure = .panic .overflow) ∧
        Intact catalog owner none executor) := by
  intro executor intact
  have made := intact.onPool (fun base (out : UInt32 × FrameId) pool =>
      pool.pageTable.lookup out.1 = some out.2 ∧
      (pool.frames out.2).page = some (Page.new out.1) ∧ (pool.frames out.2).isDirty = true ∧
      pool.disk.numPages.toNat = out.1.toNat + 1 ∧
      base.disk.numPages.toNat ≤ out.1.toNat)
    fun _ _ _ known => shows_newPage (unhashed_spelled owner) known
  generalize Executor.onPool newPage executor = outcome at made ⊢
  rcases outcome with ⟨failure | ⟨pageId, frameId⟩, executor'⟩
  · exact made
  · rcases made with ⟨intact', ⟨resident, page, dirty, -, unused⟩, sameWal⟩
    have fresh : executor.bufferPool.disk.numPages.toNat ≤ pageId.toNat := unused
    refine ⟨intact', ?_, ?_, resident, page, dirty⟩
    · by_contra isOwned
      have bound := intact.lt_numPages (Option.isSome_iff_ne_none.mpr isOwned)
      omega
    · rcases copied : executor'.wal.pages.lookup pageId with _ | copy
      · rfl
      · rw [sameWal] at copied
        have bound := (intact.copies copied).1
        omega

/-- The allocated page gets its type when its first tuple is logged. -/
theorem Reserved.own (reserved : Reserved catalog owner pageId frameId executor) {wal : WalManager}
    (copies : ∀ {other page}, wal.pages.lookup other = some page → other ≠ pageId →
      executor.wal.pages.lookup other = some page)
    (copy : ∀ {page}, wal.pages.lookup pageId = some page → Spells schema page.data)
    (attributed : WalManager.Attributed (Function.update owner pageId (some schema)) wal.log) :
    Within catalog (Function.update owner pageId (some schema)) (some pageId) pageId frameId
      (Executor.record { executor with wal := wal }) := by
  have intact := reserved.intact
  have others {other : UInt32} (apart : other ≠ pageId) :
      Function.update owner pageId (some schema) other = owner other :=
    Function.update_of_ne apart _ _
  have same {other : UInt32} (isOwned : (owner other).isSome) : other ≠ pageId := by
    rintro rfl
    simp [reserved.unowned] at isOwned
  have notYoung {other : UInt32} (apart : some pageId ≠ some other) : other ≠ pageId := by
    rintro rfl
    exact apart rfl
  have bound : pageId.toNat < executor.bufferPool.disk.numPages.toNat :=
    intact.tabled.allocated reserved.page
  suffices changed : Intact catalog (Function.update owner pageId (some schema)) (some pageId)
      { executor with wal := wal } from ⟨changed.record, reserved.resident⟩
  refine ⟨intact.known, intact.schemas, intact.filed, ?_, intact.tabled, ?_, ?_, ?_, ⟨?_, ?_⟩, ?_,
    attributed⟩
  · intro table pageIds other listed inside
    rcases intact.listed listed inside with ⟨found, known, isOwner⟩
    exact ⟨found, known, by rwa [others (same (by simp [isOwner]))]⟩
  · intro other isOwned isOld
    rw [others (notYoung isOld)] at isOwned
    exact intact.onFile isOwned (by simp)
  · intro other isYoung
    obtain rfl := Option.some.inj isYoung
    exact .inl (by simp [reserved.resident])
  · refine intact.versions.imp ?_ ?_
    · rintro other ⟨isOwned, isOld⟩
      rw [others (notYoung isOld)] at isOwned
      exact ⟨isOwned, by simp⟩
    · rintro other data ⟨-, isOld⟩ spelled found isOwner
      rw [others (notYoung isOld)] at isOwner
      exact spelled found isOwner
  · -- the new page is in no other frame, and empty in its own
    intro other page held isYoung found isOwner
    have resident := intact.tabled.frame held
    rw [← Option.some.inj isYoung, reserved.resident] at resident
    obtain rfl := Option.some.inj resident
    obtain rfl := Option.some.inj (held.symm.trans reserved.page)
    exact Spells.new found pageId
  · intro other data isYoung bare
    obtain rfl := Option.some.inj isYoung
    have clean := bare trivial frameId _ reserved.page rfl
    rw [reserved.dirty] at clean
    simp at clean
  · intro other page found
    by_cases apart : other = pageId
    · subst apart
      refine ⟨bound, fun found' isOwner => ?_⟩
      rw [Function.update_self] at isOwner
      exact Option.some.inj isOwner ▸ copy found
    · refine ⟨(intact.copies (copies found apart)).1, fun found' isOwner => ?_⟩
      rw [others apart] at isOwner
      exact (intact.copies (copies found apart)).2 found' isOwner

theorem reserved_logInsert (legible : Legible schema rowBytes) :
    Ends (Reserved catalog owner pageId frameId)
      (onWal (WalManager.logInsert txnId pageId rowBytes))
      (fun _ => Within catalog (Function.update owner pageId (some schema)) (some pageId) pageId
        frameId) (Stays catalog owner) := by
  intro executor reserved
  have intact := reserved.intact
  have blank : WalManager.entry executor.wal.pages pageId = Page.new pageId := by
    rw [WalManager.entry, reserved.uncopied, Option.getD_none]
  have spells : Spells schema (WalManager.entry executor.wal.pages pageId).data :=
    blank ▸ Spells.new schema pageId
  have panics := panics_insertTuple (WalManager.entry executor.wal.pages pageId) rowBytes
  rw [onWal, logInsert_eq]
  rcases run : (WalManager.entry executor.wal.pages pageId).insertTuple rowBytes with
    failure | ⟨_ | slotId, page⟩
  · exact .inl (panics failure run)
  · refine .inr (intact.wal (intact.copies_insert ?_ fun other isOther => ?_) intact.attributed)
    · exact intact.tabled.allocated reserved.page
    · simp [reserved.unowned] at isOther
  · refine reserved.own ?_ ?_ ?_
    · intro other page' found apart
      exact (AList.lookup_insert_ne apart).symm.trans found
    · intro page' found
      obtain rfl := Option.some.inj ((AList.lookup_insert _).symm.trans found)
      exact spells.of_insertTuple legible run
    · have old : WalManager.Attributed (Function.update owner pageId (some schema))
          executor.wal.log := by
        intro record inside other isPage
        rcases intact.attributed record inside other isPage with ⟨found, isOwner, isLegible⟩
        refine ⟨found, ?_, isLegible⟩
        rw [Function.update_of_ne ?_, isOwner]
        rintro rfl
        simp [reserved.unowned] at isOwner
      refine old.append ?_ _
      intro other isPage
      obtain rfl : pageId = other := Option.some.inj isPage
      exact ⟨schema, Function.update_self _ _ _, legible⟩

/-- The logged tuple is put on the page, and the page is unpinned. -/
theorem within_insertTuple (isOwner : owner pageId = some schema)
    (legible : Legible schema rowBytes) {failed : Failure → Executor → Prop}
    (panics : ∀ failure executor, IsPanic failure → failed failure executor) :
    Ends (Within catalog owner young pageId frameId) (do
      let slotId ← onPage frameId none fun page => page.insertTuple rowBytes
      modifyPool (BufferPool.unpin frameId true)
      return slotId.getD 0) (fun _ => Intact catalog owner young) failed := by
  refine (within_onPage Page.insertTuple_id ?_ ?_).bind fun slotId => ?_
  · intro other page out isOther spells run
    obtain rfl : schema = other := Option.some.inj (isOwner.symm.trans isOther)
    exact spells.of_insertTuple legible run
  · exact fun page failure executor failed =>
      panics failure executor (panics_insertTuple page rowBytes failure failed)
  · exact (within_unpin true).bind fun _ => ends_pure fun _ intact => intact

/-- A failure of an I/O call keeps what it says under another text. -/
theorem stays_wrapIo (wrap : IoError → SqlError) (failure : Failure) (executor : Executor)
    (stays : Stays catalog owner failure executor) :
    Stays catalog owner (Failure.wrapIo wrap failure) executor := by
  rcases stays with ⟨panic, rfl⟩ | intact
  · exact .inl ⟨panic, rfl⟩
  · exact .inr intact

theorem intact_insertExisting {pageIds : List UInt32} (legible : Legible schema rowBytes)
    (owned : ∀ pageId ∈ pageIds, owner pageId = some schema) :
    Ends (Intact catalog owner none) (insertExisting txnId rowBytes pageIds)
      (fun _ => Intact catalog owner none) (Stays catalog owner) := by
  induction pageIds with
  | nil => exact ends_pure fun _ intact => intact
  | cons pageId pageIds ih =>
      have isOwner := owned pageId List.mem_cons_self
      have others := ih fun other inside => owned other (List.mem_cons_of_mem _ inside)
      rw [insertExisting]
      refine ((intact_fetchPage pageId).failing stays_of_intact).bind fun frameId => ?_
      refine ends_get_then fun executor => ?_
      dsimp only
      split_ifs
      · have logs : Ends (Within catalog owner none pageId frameId)
            (onWal (WalManager.logInsert txnId pageId rowBytes))
            (fun _ => Within catalog owner none pageId frameId) (Stays catalog owner) :=
          within_onWal (intact_logInsert isOwner legible)
        refine Ends.bind ((logs.mapError (stays_wrapIo .walInsert)).bind fun _ =>
          within_insertTuple isOwner legible fun _ _ panics => .inl panics) fun _ => ?_
        exact ends_pure fun _ intact => intact
      · exact (within_unpin false).bind fun _ => others

/-- How an `INSERT` fails: the page it allocated may have got its type before. -/
def Upset (catalog : Catalog) (failure : Failure) (executor : Executor) : Prop :=
  IsPanic failure ∨ ∃ owner, Intact catalog owner none executor

theorem upset_of_stays (failure : Failure) (executor : Executor)
    (stays : Stays catalog owner failure executor) : Upset catalog failure executor :=
  stays.imp_right fun intact => ⟨owner, intact⟩

theorem Intact.listPage (intact : Intact catalog owner young executor)
    (known : catalog.get table = some schema) (isOwner : owner pageId = some schema) :
    Intact catalog owner young { executor with
      tablePages := executor.tablePages.insert table
        ((executor.tablePages.lookup table).getD [] ++ [pageId]) } := by
  refine ⟨intact.known, intact.schemas, intact.filed, ?_, intact.tabled, intact.onFile,
    intact.youth, intact.versions, intact.youngVersions, intact.copies, intact.attributed⟩
  intro other pageIds found listed inside
  rcases listed with listed | listed
  · by_cases same : other = table
    · subst same
      rw [AList.lookup_insert, Option.some.injEq] at listed
      rw [← listed, List.mem_append, List.mem_singleton] at inside
      rcases inside with inside | rfl
      · rcases here : executor.tablePages.lookup other with _ | old
        · simp [here] at inside
        · rw [here, Option.getD_some] at inside
          exact intact.listed (.inl here) inside
      · exact ⟨schema, known, isOwner⟩
    · rw [AList.lookup_insert_ne same] at listed
      exact intact.listed (.inl listed) inside
  · exact intact.listed (.inr listed) inside

theorem intact_saveTableMeta (table : String) {failed : Failure → Executor → Prop} :
    Ends (Intact catalog owner young) (saveTableMeta table) (fun _ => Intact catalog owner young)
      failed := by
  refine ends_modify fun executor intact => ?_
  suffices changed : Intact catalog owner young { executor with
      pageFiles := executor.pageFiles.insert table ((executor.tablePages.lookup table).getD []) }
    from changed.record
  refine ⟨intact.known, intact.schemas, intact.filed, ?_, intact.tabled, intact.onFile,
    intact.youth, intact.versions, intact.youngVersions, intact.copies, intact.attributed⟩
  intro other pageIds found listed inside
  rcases listed with listed | listed
  · exact intact.listed (.inl listed) inside
  · by_cases same : other = table
    · subst same
      rw [AList.lookup_insert, Option.some.injEq] at listed
      rcases here : executor.tablePages.lookup other with _ | old
      · simp [← listed, here] at inside
      · rw [← listed, here, Option.getD_some] at inside
        exact intact.listed (.inl here) inside
    · rw [AList.lookup_insert_ne same] at listed
      exact intact.listed (.inr listed) inside

theorem intact_insertFresh (known : catalog.get table = some schema)
    (legible : Legible schema rowBytes) :
    Ends (Intact catalog owner none) (insertFresh txnId table rowBytes)
      (fun rid executor => ∃ owner, Intact catalog owner (some rid.pageId) executor)
      (Upset catalog) := by
  have given : Ends (Intact catalog owner none)
      (mapError (Failure.wrapIo .newPage) (onPool newPage))
      (fun out => Reserved catalog owner out.1 out.2) (Upset catalog) := by
    refine reserved_newPage.mapError ?_
    rintro failure executor ⟨rfl | rfl, intact⟩
    · exact .inr ⟨owner, intact⟩
    · exact .inl ⟨_, rfl⟩
  refine given.bind fun out => ?_
  have isOwner : Function.update owner out.1 (some schema) out.1 = some schema :=
    Function.update_self _ _ _
  have logs : Ends (Reserved catalog owner out.1 out.2)
      (mapError (Failure.wrapIo .walInsertNewPage)
        (onWal (WalManager.logInsert txnId out.1 rowBytes)))
      (fun _ => Within catalog (Function.update owner out.1 (some schema)) (some out.1) out.1
        out.2) (Upset catalog) :=
    (reserved_logInsert legible).mapError fun failure executor stays =>
      upset_of_stays _ _ (stays_wrapIo _ failure executor stays)
  refine Ends.bind (logs.bind fun _ =>
    within_insertTuple isOwner legible fun _ _ panics => .inl panics) fun slotId => ?_
  refine ends_modify_bind (Intact catalog (Function.update owner out.1 (some schema)) (some out.1))
    (fun _ intact => intact.listPage known isOwner) ?_
  exact (intact_saveTableMeta table).bind fun _ => ends_pure fun _ intact => ⟨_, intact⟩

/-- After its flush, the new page is as any other. -/
theorem intact_settle (pageId : UInt32) {failed : Failure → Executor → Prop} :
    Ends (Intact catalog owner (some pageId)) (flushPages [pageId])
      (fun _ => Intact catalog owner none) failed := by
  have settle : Ends (Intact catalog owner (some pageId))
      (mapError (Failure.wrapIo .flushPage) (onPool (BufferPool.flushPage pageId)))
      (fun _ => Intact catalog owner none) failed := by
    intro executor intact
    have flushed := intact.onPool (fun base _ pool =>
        (base.Visible pageId → pool.OnFile pageId) ∧ pool.Bare pageId)
      fun _ _ _ known => (shows_flushPage (unhashed_spelled owner) known pageId).failing
        fun _ _ impossible => ⟨impossible, impossible.elim⟩
    rw [mapError]
    generalize Executor.onPool (BufferPool.flushPage pageId) executor = outcome at flushed ⊢
    rcases outcome with ⟨failure | _, executor'⟩
    · exact flushed.1.elim
    · rcases flushed with ⟨intact', ⟨onFile, bare⟩, -⟩
      refine ⟨intact'.known, intact'.schemas, intact'.filed, intact'.listed, intact'.tabled, ?_,
        by simp, ⟨fun held _ => intact'.frame held, ?_⟩, ⟨by simp, by simp⟩, intact'.copies,
        intact'.attributed⟩
      · intro other isOwned _
        by_cases same : pageId = other
        · exact same ▸ onFile (intact.youth rfl)
        · exact intact'.onFile isOwned (by simpa using same)
      · rintro other data ⟨isOwned, -⟩ - present
        by_cases same : pageId = other
        · subst same
          exact intact'.youngVersions.file rfl (fun _ => bare) present
        · exact intact'.versions.file ⟨isOwned, by simpa using same⟩ (fun hidden => hidden.elim)
            present
  exact settle.bind fun _ => ends_pure fun _ intact => intact

theorem intact_execInsert (table : String) (values : List Value) :
    Ends (Intact catalog owner none) (execInsert table values)
      (fun _ executor => ∃ owner, Intact catalog owner none executor) (Upset catalog) := by
  have refuses (failure : Failure) (executor : Executor)
      (intact : Intact catalog owner none executor) : Upset catalog failure executor :=
    .inr ⟨owner, intact⟩
  refine intact_schemaOf refuses fun schema known => ends_get_then fun executor => ?_
  refine Ends.bind (ends_ofExcept (fun _ _ _ intact => intact) fun _ _ _ intact =>
    .inr ⟨owner, intact⟩) fun _ => ?_
  have encodes : Ends (Intact catalog owner none) (ofExcept (schema.serializeRow values))
      (fun rowBytes executor => Intact catalog owner none executor ∧ Legible schema rowBytes)
      (Upset catalog) :=
    ends_ofExcept (fun _ encoded _ intact => ⟨intact, legible_of_serializeRow encoded⟩)
      fun _ _ _ intact => .inr ⟨owner, intact⟩
  refine encodes.bind fun rowBytes => ?_
  rintro executor ⟨intact, legible⟩
  refine Ends.bind (intact_beginTxn.failing fun _ _ failed => .inr ⟨owner, failed.2⟩)
    (fun txnId => ?_) executor intact
  refine intact_pagesOf known refuses fun pageIds owned => ?_
  have places : Ends (Intact catalog owner none) (placeRow txnId table rowBytes pageIds)
      (fun rid executor => ∃ owner young, Intact catalog owner young executor ∧
        (young = none ∨ young = some rid.pageId)) (Upset catalog) := by
    refine ((intact_insertExisting legible owned).failing upset_of_stays).bind fun found => ?_
    cases found with
    | some rid => exact ends_pure fun _ intact => ⟨owner, none, intact, .inl rfl⟩
    | none =>
        exact (intact_insertFresh known legible).imp (fun _ intact => intact)
          (fun _ _ ⟨owner, intact⟩ => ⟨owner, _, intact, .inr rfl⟩) fun _ _ upset => upset
  refine places.bind fun rid => ?_
  rintro executor ⟨owner, young, intact, stage⟩
  have flushes : Ends (Intact catalog owner young) (flushPages [rid.pageId])
      (fun _ => Intact catalog owner none) (Upset catalog) := by
    rcases stage with rfl | rfl
    · exact intact_flushPages _
    · exact intact_settle rid.pageId
  have finishes : Ends (Intact catalog owner young) (do
      modifyIndexes (IndexManager.maintain table rid (indexCells schema none (some values)))
      onWal (WalManager.commit txnId)
      flushPages [rid.pageId]
      return ([] : List Row)) (fun _ executor => ∃ owner, Intact catalog owner none executor)
      (Upset catalog) := by
    refine (intact_modifyIndexes _).bind fun _ => (intact_commit txnId).bind fun _ => ?_
    exact flushes.bind fun _ => ends_pure fun _ intact => ⟨owner, intact⟩
  exact finishes executor intact

end Grow

section Create

/-- A new table has no pages. -/
theorem intact_execCreateTable (order : HashOrder) (table : String) (columns : List ColumnDef) :
    Ends (Intact catalog owner none) (execCreateTable order table columns)
      (fun _ executor => Intact executor.catalog owner none executor)
      (fun _ => Intact catalog owner none) := by
  refine (intact_modifyIndexes _).bind fun _ => ends_get_bind fun executor intact => ?_
  rintro start rfl
  rw [intact.known, Catalog.createTable]
  split_ifs with taken
  · exact intact
  · have missing : catalog.get table = none := AList.lookup_eq_none.mpr taken
    rw [ofExcept_ok_bind, modify_bind]
    let new : Catalog :=
      { tables := catalog.tables.insert table (Schema.new table columns)
        indexDefs := catalog.indexDefs ++
          (Schema.new table columns).primaryKey.toList.map fun column => (table, column) }
    have get_new (other : String) : new.get other =
        if other = table then some (Schema.new table columns) else catalog.get other := by
      split_ifs with same
      · subst same
        exact AList.lookup_insert _
      · exact AList.lookup_insert_ne same
    have schemas {other : String} {schema : Schema} (known : new.get other = some schema) :
        schema = Schema.new other schema.columns := by
      rw [get_new] at known
      split_ifs at known with same
      · rw [← Option.some.inj known, same]
        rfl
      · exact intact.schemas known
    have created : Intact new owner none { start with
        catalog := new
        tablePages := start.tablePages.insert table []
        catalogFile := some (CatalogFile.save order new) } := by
      refine ⟨rfl, schemas, CatalogFile.get_load_save order schemas, ?_, intact.tabled,
        intact.onFile, intact.youth, intact.versions, intact.youngVersions, intact.copies,
        intact.attributed⟩
      intro other pageIds pageId listed inside
      have old : other ≠ table ∧ start.Lists other pageIds := by
        rcases listed with listed | listed
        · by_cases same : other = table
          · subst same
            rw [AList.lookup_insert, Option.some.injEq] at listed
            simp [← listed] at inside
          · rw [AList.lookup_insert_ne same] at listed
            exact ⟨same, .inl listed⟩
        · refine ⟨?_, .inr listed⟩
          rintro rfl
          rcases intact.listed (.inr listed) inside with ⟨schema, known, -⟩
          simp [missing] at known
      rcases intact.listed old.2 inside with ⟨schema, known, isOwner⟩
      exact ⟨schema, by rw [get_new, if_neg old.1, known], isOwner⟩
    have saved : Ends (Intact new owner none) (saveTableMeta table)
        (fun _ => Intact new owner none) (fun _ _ => False) := intact_saveTableMeta table
    exact saved.ok created.record rfl

end Create

end Executor

end VenomDb
