import VenomDb.Buffer.Residence
import VenomDb.Engine.Durability

/-!
# Who owns a page

A page belongs to the table whose list has it, in memory or in its file. A new page has an id
that nobody owns, and a listed page is never lost. Only the page that an `INSERT` allocates is
listed before it is on file, until the statement flushes it.
-/

namespace VenomDb

/-- The page lists of a directory: no page twice, and the data file is not too long. -/
structure Files.Sane (files : Files) : Prop where
  nodup : ∀ {table pageIds}, files.pages.lookup table = some pageIds → pageIds.Nodup
  apart : ∀ {table other pageIds otherIds pageId}, files.pages.lookup table = some pageIds →
    files.pages.lookup other = some otherIds → pageId ∈ pageIds → pageId ∈ otherIds → table = other
  small : files.db.length < 2 ^ 32

namespace Executor

open Fallible BufferPool

/-- The list of a table, in memory or in its file. -/
def Lists (executor : Executor) (table : String) (pageIds : List UInt32) : Prop :=
  executor.tablePages.lookup table = some pageIds ∨ executor.pageFiles.lookup table = some pageIds

/-- A table lists a page. -/
def Owns (executor : Executor) (table : String) (pageId : UInt32) : Prop :=
  ∃ pageIds, executor.Lists table pageIds ∧ pageId ∈ pageIds

/-- How far the page that an `INSERT` allocates has come. -/
inductive Growth
  /-- Every listed page is on file. -/
  | settled
  /-- A page was given out and is not listed yet. -/
  | reserved (pageId : UInt32)
  /-- A page is listed and perhaps not on file yet. -/
  | listed (pageId : UInt32)

variable [Crc32] {base executor executor' : Executor} {growing : Prop} {growth : Growth}
  {table : String} {pageIds : List UInt32} {pageId : UInt32}

/-- The lists since a state `base`. Pages may be listed before they are on file only if the
statement is `growing`. -/
structure Assigned (base : Executor) (growing : Prop) (growth : Growth) (executor : Executor) :
    Prop where
  nodup : ∀ {table pageIds}, executor.Lists table pageIds → pageIds.Nodup
  apart : ∀ {table other pageId}, executor.Owns table pageId → executor.Owns other pageId →
    table = other
  onFile : ∀ {table pageId}, executor.Owns table pageId →
    executor.bufferPool.OnFile pageId ∨ growth = .listed pageId
  spare : ∀ {pageId}, growth = .reserved pageId →
    executor.bufferPool.Visible pageId ∧ ∀ table, ¬executor.Owns table pageId
  young : ∀ {pageId}, growth = .listed pageId → executor.bufferPool.Visible pageId ∧ growing
  tabled : executor.bufferPool.Tabled
  stored : ∀ {pageId}, base.Stored pageId → executor.Stored pageId
  recorded : Recorded base (fun moment => moment.toFiles.Sane ∧
    (∀ pageId, base.Stored pageId → (DiskManager.stored moment.db pageId).isSome) ∧
    (growing ∨ moment.toFiles.Complete)) executor

theorem Assigned.visible (assigned : Assigned base growing growth executor)
    (owns : executor.Owns table pageId) : executor.bufferPool.Visible pageId := by
  rcases assigned.onFile owns with onFile | listed
  · exact .inr onFile
  · exact (assigned.young listed).1

theorem Assigned.sane (assigned : Assigned base growing growth executor) : executor.files.Sane where
  nodup := fun listed => assigned.nodup (.inr listed)
  apart := fun listed otherListed inside otherInside =>
    assigned.apart ⟨_, .inr listed, inside⟩ ⟨_, .inr otherListed, otherInside⟩
  small := assigned.tabled.fileLength.trans_lt (UInt32.toNat_lt _)

theorem Assigned.complete (assigned : Assigned base growing growth executor) :
    growing ∨ executor.files.Complete := by
  by_cases grows : growing
  · exact .inl grows
  · refine .inr fun table pageIds pageId listed inside => ?_
    refine (assigned.onFile ⟨pageIds, .inr listed, inside⟩).resolve_right fun young => ?_
    exact grows (assigned.young young).2

/-- A state with the same lists or fewer. -/
theorem Assigned.change (assigned : Assigned base growing growth executor)
    (lists : ∀ {table pageIds}, executor'.Lists table pageIds → pageIds = [] ∨
      executor.Lists table pageIds)
    (retains : Retains executor.bufferPool executor'.bufferPool)
    (history : executor'.history = executor.history) : Assigned base growing growth executor' := by
  have owns {table : String} {pageId : UInt32} (owns : executor'.Owns table pageId) :
      executor.Owns table pageId := by
    rcases owns with ⟨pageIds, listed, inside⟩
    rcases lists listed with rfl | listed
    · simp at inside
    · exact ⟨pageIds, listed, inside⟩
  refine ⟨?_, ?_, ?_, ?_, ?_, retains.tabled, ?_, ?_⟩
  · intro table pageIds listed
    rcases lists listed with rfl | listed
    · exact List.nodup_nil
    · exact assigned.nodup listed
  · exact fun first second => assigned.apart (owns first) (owns second)
  · exact fun here => (assigned.onFile (owns here)).imp retains.onFile id
  · intro pageId isReserved
    rcases assigned.spare isReserved with ⟨visible, unlisted⟩
    exact ⟨retains.visible visible, fun table here => unlisted table (owns here)⟩
  · exact fun isListed => (assigned.young isListed).imp retains.visible id
  · exact fun stored => retains.onFile (assigned.stored stored)
  · rcases assigned.recorded with ⟨moments, past, conditions⟩
    exact ⟨moments, history.trans past, conditions⟩

theorem Assigned.recordHere (assigned : Assigned base growing growth executor) :
    Assigned base growing growth executor.record :=
  ⟨assigned.nodup, assigned.apart, assigned.onFile, assigned.spare, assigned.young,
    assigned.tabled, assigned.stored,
    assigned.recorded.record rfl ⟨assigned.sane, fun _ => assigned.stored, assigned.complete⟩⟩

theorem Assigned.pool {pool : BufferPool frameCount}
    (assigned : Assigned base growing growth executor)
    (retains : Retains executor.bufferPool pool) :
    Assigned base growing growth (Executor.record { executor with bufferPool := pool }) :=
  Assigned.recordHere (assigned.change (fun listed => .inr listed) retains rfl)

theorem Assigned.keeps_onWal {α : Type} (call : Fallible Failure WalManager α) :
    Keeps (Assigned base growing growth) (onWal call) := fun _ assigned =>
  Assigned.recordHere
    (assigned.change (fun listed => .inr listed) assigned.tabled.retains rfl)

/-- A call of the pool that loses no page. -/
theorem Assigned.keeps_onPool {α : Type} {call : Fallible Failure (BufferPool frameCount) α}
    (retains : ∀ base, Ends (Retains base) call (fun _ => Retains base) (fun _ => Retains base)) :
    Keeps (Assigned base growing growth) (onPool call) := fun executor assigned =>
  assigned.pool ((retains executor.bufferPool).keeps _ assigned.tabled.retains)

theorem indifferent_assigned : Indifferent (Assigned base growing growth) where
  fetch := fun pageId => Assigned.keeps_onPool fun _ => retains_fetchPage pageId
  allocate := Assigned.keeps_onPool fun _ => retains_newPage.imp (fun _ retains => retains)
    (fun _ _ made => made.1) fun _ _ retains => retains
  flush := fun pageId => Assigned.keeps_onPool fun _ => (retains_flushPage pageId).imp
    (fun _ retains => retains) (fun _ _ flushed => flushed.1) fun _ _ impossible => impossible.elim
  unpin := fun frameId dirty executor assigned =>
    assigned.pool (assigned.tabled.retains.unpin frameId dirty)
  edit := fun held sameId assigned => assigned.pool (assigned.tabled.retains.setPage held sameId)
  indexes := fun _ _ assigned =>
    assigned.change (fun listed => .inr listed) assigned.tabled.retains rfl
  pageFile := by
    intro table executor assigned
    refine Assigned.recordHere (assigned.change ?_ assigned.tabled.retains rfl)
    intro other pageIds listed
    rcases listed with listed | listed
    · exact .inr (.inl listed)
    · by_cases same : other = table
      · subst same
        rw [AList.lookup_insert, Option.some.injEq] at listed
        rcases found : executor.tablePages.lookup other with _ | found'
        · rw [found, Option.getD_none] at listed
          exact .inl listed.symm
        · rw [found, Option.getD_some] at listed
          exact .inr (.inl (listed ▸ found))
      · rw [AList.lookup_insert_ne same] at listed
        exact .inr (.inr listed)
  catalogFile := fun _ _ assigned => Assigned.recordHere
    (assigned.change (fun listed => .inr listed) assigned.tabled.retains rfl)

section Grow

/-- A page that was given out and not listed is listed by one table. -/
theorem Assigned.list (assigned : Assigned base growing (.reserved pageId) executor)
    (grows : growing) (table : String) :
    Assigned base growing (.listed pageId) { executor with
      tablePages := executor.tablePages.insert table
        ((executor.tablePages.lookup table).getD [] ++ [pageId]) } := by
  rcases assigned.spare rfl with ⟨visible, unlisted⟩
  let listing := { executor with
    tablePages := executor.tablePages.insert table
      ((executor.tablePages.lookup table).getD [] ++ [pageId]) }
  have lists {other : String} {pageIds : List UInt32} (listed : listing.Lists other pageIds) :
      executor.Lists other pageIds ∨
        other = table ∧ pageIds = (executor.tablePages.lookup table).getD [] ++ [pageId] := by
    rcases listed with listed | listed
    · by_cases same : other = table
      · subst same
        rw [AList.lookup_insert, Option.some.injEq] at listed
        exact .inr ⟨rfl, listed.symm⟩
      · rw [AList.lookup_insert_ne same] at listed
        exact .inl (.inl listed)
    · exact .inl (.inr listed)
  have old {found : UInt32} (inside : found ∈ (executor.tablePages.lookup table).getD []) :
      executor.Owns table found := by
    rcases here : executor.tablePages.lookup table with _ | pageIds
    · rw [here, Option.getD_none] at inside
      simp at inside
    · rw [here, Option.getD_some] at inside
      exact ⟨pageIds, .inl here, inside⟩
  have owner {other : String} {found : UInt32} (owns : listing.Owns other found) :
      executor.Owns other found ∨ other = table ∧ found = pageId := by
    rcases owns with ⟨pageIds, listed, inside⟩
    rcases lists listed with listed | ⟨rfl, rfl⟩
    · exact .inl ⟨pageIds, listed, inside⟩
    · rcases List.mem_append.mp inside with inside | inside
      · exact .inl (old inside)
      · exact .inr ⟨rfl, List.mem_singleton.mp inside⟩
  refine ⟨?_, ?_, ?_, by simp, ?_, assigned.tabled, assigned.stored, assigned.recorded⟩
  · intro other pageIds listed
    rcases lists listed with listed | ⟨rfl, rfl⟩
    · exact assigned.nodup listed
    · rw [List.nodup_append]
      refine ⟨?_, List.nodup_singleton _, ?_⟩
      · rcases here : executor.tablePages.lookup other with _ | pageIds
        · exact List.nodup_nil
        · exact assigned.nodup (.inl here)
      · rintro found inside _ last rfl
        obtain rfl := List.mem_singleton.mp last
        exact unlisted other (old inside)
  · intro first second found firstOwns secondOwns
    rcases owner firstOwns with firstOld | ⟨rfl, rfl⟩
    · rcases owner secondOwns with secondOld | ⟨rfl, rfl⟩
      · exact assigned.apart firstOld secondOld
      · exact absurd firstOld (unlisted first)
    · rcases owner secondOwns with secondOld | ⟨rfl, -⟩
      · exact absurd secondOld (unlisted second)
      · rfl
  · intro other found owns
    rcases owner owns with owns | ⟨-, rfl⟩
    · exact (assigned.onFile owns).imp id (by simp)
    · exact .inr rfl
  · intro found same
    obtain rfl : pageId = found := Growth.listed.inj same
    exact ⟨visible, grows⟩

/-- A new page is nobody's: owned pages have ids below the counter. -/
theorem Assigned.allocate {frameId : FrameId} (assigned : Assigned base growing .settled executor)
    (run : onPool newPage executor = (.ok (pageId, frameId), executor')) :
    Assigned base growing (.reserved pageId) executor' := by
  have kept := indifferent_assigned.allocate executor assigned
  rw [run] at kept
  rcases made : newPage executor.bufferPool with ⟨result, pool⟩
  rw [onPool, made] at run
  obtain ⟨rfl, rfl⟩ := Prod.mk.inj run
  rcases retains_newPage.ok assigned.tabled.retains made with ⟨-, visible, fresh⟩
  refine ⟨kept.nodup, kept.apart, fun owns => (kept.onFile owns).imp id (by simp), ?_, by simp,
    kept.tabled, kept.stored, kept.recorded⟩
  intro other same
  obtain rfl : pageId = other := Growth.reserved.inj same
  refine ⟨visible, fun table owns => ?_⟩
  have owns : executor.Owns table pageId := owns
  have below := assigned.tabled.lt_of_visible (assigned.visible owns)
  exact absurd fresh (Nat.not_le.mpr below)

/-- The new page is flushed. -/
theorem Assigned.ends_flush (pageId : UInt32) :
    Ends (Assigned base growing (.listed pageId)) (onPool (flushPage pageId))
      (fun _ => Assigned base growing .settled) (fun _ _ => False) := by
  intro executor assigned
  have kept := indifferent_assigned.flush pageId executor assigned
  have flushed := retains_flushPage pageId executor.bufferPool assigned.tabled.retains
  rw [onPool] at kept ⊢
  generalize flushPage pageId executor.bufferPool = ended at kept flushed ⊢
  rcases ended with ⟨failure | _, pool⟩
  · exact flushed
  · have onFile := flushed.2 (assigned.young rfl).1
    refine ⟨kept.nodup, kept.apart, fun owns => ?_, by simp, by simp, kept.tabled, kept.stored,
      kept.recorded⟩
    rcases kept.onFile owns with onFile | same
    · exact .inl onFile
    · obtain rfl := Growth.listed.inj same
      exact .inl onFile

/-- Where a failing statement stops. -/
def Stopped (base : Executor) (growing : Prop) (_ : Failure) (executor : Executor) : Prop :=
  ∃ growth, Assigned base growing growth executor

/-- A call that keeps the lists at whatever point they are. -/
theorem Assigned.ends {α : Type} {action : Action α}
    (kept : Keeps (Assigned base growing growth) action) :
    Ends (Assigned base growing growth) action (fun _ => Assigned base growing growth)
      (Stopped base growing) :=
  kept.ends.failing fun _ _ assigned => ⟨growth, assigned⟩

theorem assigned_insertFresh (grows : growing) (txnId : UInt32) (table : String)
    (rowBytes : Bytes) :
    Ends (Assigned base growing .settled) (insertFresh txnId table rowBytes)
      (fun rid => Assigned base growing (.listed rid.pageId)) (Stopped base growing) := by
  have given : Ends (Assigned base growing .settled) (onPool newPage)
      (fun fresh => Assigned base growing (.reserved fresh.1)) (Stopped base growing) := by
    intro executor assigned
    rcases run : onPool newPage executor with ⟨failure | ⟨pageId, frameId⟩, executor'⟩
    · have kept := indifferent_assigned.allocate executor assigned
      rw [run] at kept
      exact ⟨_, kept⟩
    · exact assigned.allocate run
  have wrapped : Ends (Assigned base growing .settled)
      (mapError (Failure.wrapIo .newPage) (onPool newPage))
      (fun fresh => Assigned base growing (.reserved fresh.1)) (Stopped base growing) :=
    given.mapError fun _ _ stopped => stopped
  refine wrapped.bind fun fresh => ?_
  refine (Assigned.ends (indifferent_assigned.insertInto
    (fun _ => Assigned.keeps_onWal _) fresh.1 fresh.2 _)).bind fun slotId => ?_
  refine ends_modify_bind (Assigned base growing (.listed fresh.1))
    (fun _ assigned => assigned.list grows table) ?_
  exact (Assigned.ends (indifferent_assigned.pageFile table)).bind fun _ =>
    ends_pure fun _ assigned => assigned

/-- `placeRow` settles on a page with space, or lists a new page. -/
theorem assigned_placeRow (grows : growing) (txnId : UInt32) (table : String) (rowBytes : Bytes)
    (pageIds : List UInt32) :
    Ends (Assigned base growing .settled) (placeRow txnId table rowBytes pageIds)
      (fun rid executor => Assigned base growing .settled executor ∨
        Assigned base growing (.listed rid.pageId) executor) (Stopped base growing) := by
  refine (Assigned.ends (indifferent_assigned.insertExisting
    (fun _ => Assigned.keeps_onWal _) pageIds)).bind fun found => ?_
  cases found with
  | some rid => exact ends_pure fun _ assigned => .inl assigned
  | none =>
      exact (assigned_insertFresh grows txnId table rowBytes).imp (fun _ assigned => assigned)
        (fun _ _ assigned => .inr assigned) fun _ _ stopped => stopped

/-- The end of `INSERT`: index maintenance, commit and flush. -/
theorem assigned_insert_finishes (growth : Growth) (table : String) (rid : Rid)
    (cells : List (String × Option Int64 × Option Int64)) (txnId : UInt32)
    (stage : growth = .settled ∨ growth = .listed rid.pageId) :
    Ends (Assigned base growing growth) (do
      modifyIndexes (IndexManager.maintain table rid cells)
      onWal (WalManager.commit txnId)
      flushPages [rid.pageId]
      return ([] : List Row)) (fun _ => Assigned base growing .settled)
      (Stopped base growing) := by
  refine (Assigned.ends (indifferent_assigned.indexes _)).bind fun _ => ?_
  refine (Assigned.ends (Assigned.keeps_onWal _)).bind fun _ => ?_
  have flushed : Ends (Assigned base growing growth) (flushPages [rid.pageId])
      (fun _ => Assigned base growing .settled) (Stopped base growing) := by
    rcases stage with rfl | rfl
    · exact Assigned.ends (indifferent_assigned.steady.calm.flushPages _)
    · have flush : Ends (Assigned base growing (.listed rid.pageId))
          (mapError (Failure.wrapIo .flushPage) (onPool (flushPage rid.pageId)))
          (fun _ => Assigned base growing .settled) (Stopped base growing) :=
        (Assigned.ends_flush rid.pageId).mapError fun _ _ impossible => impossible.elim
      exact flush.bind fun _ => ends_pure fun _ assigned => assigned
  exact flushed.bind fun _ => ends_pure fun _ assigned => assigned

end Grow

section Statements

/-- A statement keeps the lists apart, at every moment and however it ends. If it succeeds, every
listed page is on file. -/
theorem assigned_execute [Build] (grows : growing) (order : HashOrder) (stmt : Statement) :
    Ends (Assigned base growing .settled) (execute order stmt)
      (fun _ => Assigned base growing .settled) (Stopped base growing) := by
  cases stmt with
  | createTable table columns =>
      refine Assigned.ends (indifferent_assigned.steady.calm.execCreateTable ?_ order columns)
      intro executor catalog assigned
      refine assigned.change ?_ assigned.tabled.retains rfl
      intro other pageIds listed
      rcases listed with listed | listed
      · by_cases same : other = table
        · subst same
          rw [AList.lookup_insert, Option.some.injEq] at listed
          exact .inl listed.symm
        · rw [AList.lookup_insert_ne same] at listed
          exact .inr (.inl listed)
      · exact .inr (.inr listed)
  | insert table values =>
      refine (Assigned.ends (keeps_schemaOf table)).bind fun schema => ends_get_then fun executor =>
        ?_
      refine (Assigned.ends (keeps_ofExcept _)).bind fun _ => ?_
      refine (Assigned.ends (keeps_ofExcept _)).bind fun rowBytes => ?_
      refine (Assigned.ends (Assigned.keeps_onWal _)).bind fun txnId => ?_
      refine (Assigned.ends (keeps_pagesOf table)).bind fun pageIds => ?_
      refine (assigned_placeRow grows txnId table rowBytes pageIds).bind fun rid => ?_
      intro executor placed
      rcases placed with assigned | assigned
      · exact assigned_insert_finishes .settled table rid _ txnId (.inl rfl) executor assigned
      · exact assigned_insert_finishes (.listed rid.pageId) table rid _ txnId (.inr rfl) executor
          assigned
  | select table columns filter orderBy limit =>
      exact Assigned.ends
        (indifferent_assigned.steady.calm.execSelect table columns filter orderBy limit)
  | delete table filter =>
      refine Assigned.ends ?_
      refine (keeps_schemaOf table).bind fun schema => (keeps_pagesOf table).bind fun pageIds => ?_
      refine (Assigned.keeps_onWal _).bind fun txnId => ?_
      refine (indifferent_assigned.steady.calm.scanPages (indifferent_assigned.steady.deleteBody
        (fun _ _ => Assigned.keeps_onWal _) table schema filter) pageIds ()).bind fun scanned => ?_
      refine (Assigned.keeps_onWal _).bind fun _ => ?_
      exact (indifferent_assigned.steady.calm.flushPages _).bind fun _ => keeps_pure _
  | update table assignments filter =>
      refine Assigned.ends ?_
      refine (keeps_schemaOf table).bind fun schema => (keeps_pagesOf table).bind fun pageIds => ?_
      refine (Assigned.keeps_onWal _).bind fun txnId => ?_
      refine (indifferent_assigned.steady.calm.scanPages (indifferent_assigned.steady.updateBody
        (fun _ _ _ _ => Assigned.keeps_onWal _) (Assigned.keeps_onWal _) table schema assignments
        filter) pageIds ()).bind fun scanned => ?_
      refine (Assigned.keeps_onWal _).bind fun _ => ?_
      exact (indifferent_assigned.steady.calm.flushPages _).bind fun _ => keeps_pure _

/-- A directory whose lists are kept apart and whose listed pages are on file, just opened. -/
theorem assigned_open {files : Files} (sane : files.Sane) (complete : files.Complete) :
    Assigned («open» files) False .settled («open» files) where
  nodup := by
    rintro table pageIds (listed | listed)
    · simp [«open»] at listed
    · exact sane.nodup listed
  apart := by
    rintro table other pageId ⟨pageIds, listed | listed, inside⟩
      ⟨otherIds, otherListed, otherInside⟩
    · simp [«open»] at listed
    · rcases otherListed with otherListed | otherListed
      · simp [«open»] at otherListed
      · exact sane.apart listed otherListed inside otherInside
  onFile := by
    rintro table pageId ⟨pageIds, listed | listed, inside⟩
    · simp [«open»] at listed
    · exact .inl (complete table pageIds pageId listed inside)
  spare := by simp
  young := by simp
  tabled := by
    refine tabled_new ?_ rfl
    change files.db.length ≤ (UInt32.ofNat files.db.length).toNat
    rw [UInt32.toNat_ofNat_of_lt' sane.small]
  stored := id
  recorded := .nothing

omit [Crc32] in
/-- The lists in memory become those of the files. -/
theorem lists_loadTables (listed : executor.loadTables.Lists table pageIds) :
    pageIds = [] ∨ executor.pageFiles.lookup table = some pageIds := by
  rcases listed with listed | listed
  · have loaded : executor.loadTables.tablePages.lookup table = _ :=
      AList.lookup_foldl_insert (fun name => (executor.pageFiles.lookup name).getD []) _ ∅ table
    rw [loaded] at listed
    split_ifs at listed
    · rcases filed : executor.pageFiles.lookup table with _ | found
      · rw [filed, Option.getD_none, Option.some.injEq] at listed
        exact .inl listed.symm
      · rw [filed, Option.getD_some] at listed
        exact .inr listed
    · simp at listed
  · exact .inr listed

theorem Assigned.loadTables (assigned : Assigned base growing growth executor) :
    Assigned base growing growth executor.loadTables :=
  assigned.change (fun listed => (lists_loadTables listed).imp id .inr) assigned.tabled.retains rfl

/-- Opening a directory keeps the lists apart, at every moment and however it ends. -/
theorem assigned_recover (order : HashOrder) :
    Keeps (Assigned base growing growth) (recover order) :=
  indifferent_assigned.recover Assigned.loadTables (Assigned.keeps_onWal _) order

end Statements

end Executor

end VenomDb
