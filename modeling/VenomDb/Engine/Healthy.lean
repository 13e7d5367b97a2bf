import VenomDb.Engine.IntactRuns
import VenomDb.Engine.Runs

/-!
# Every reachable state is typed

Each statement keeps the types of pages, and so does every restart, on whatever an earlier
session left in the files. So all states of all runs are typed, however their statements ended,
as long as none of them panicked.
-/

namespace VenomDb

namespace Executor

open Fallible BufferPool

variable [Crc32] {catalog : Catalog} {owner : UInt32 → Option Schema} {executor : Executor}
  {schema : Schema} {failed : Failure → Executor → Prop}

section Restart

/-- The files of a session are typed when they are opened again. -/
theorem Intact.reopen (intact : Intact catalog owner none executor) :
    Intact (CatalogFile.load executor.catalogFile) owner none
      («open» executor.files).loadTables where
  known := rfl
  schemas := by
    intro table schema known
    rw [intact.filed] at known
    exact intact.schemas known
  filed := fun _ => rfl
  listed := by
    intro table pageIds pageId listed inside
    have filed : executor.pageFiles.lookup table = some pageIds := by
      rcases lists_loadTables listed with rfl | filed
      · simp at inside
      · exact filed
    rw [intact.filed]
    exact intact.listed (.inr filed) inside
  tabled := by
    refine tabled_new ?_ rfl
    have small := intact.tabled.fileLength.trans_lt (UInt32.toNat_lt _)
    change executor.bufferPool.disk.file.length ≤
      (UInt32.ofNat executor.bufferPool.disk.file.length).toNat
    rw [UInt32.toNat_ofNat_of_lt' small]
  onFile := fun isOwned notYoung => intact.onFile isOwned notYoung
  youth := by simp
  versions := shows_new fun isRelevant present =>
    intact.versions.file isRelevant (fun hidden => hidden.elim) present
  youngVersions := shows_new fun isYoung => by simp at isYoung
  copies := by
    intro pageId page found
    simp [loadTables, «open», WalManager.new] at found
  attributed := intact.attributed

theorem intact_recoverWal :
    Ends (fun executor => Intact catalog owner none executor ∧ executor.wal.pages = ∅)
      (onWal WalManager.recover) (fun _ => Intact catalog owner none) (fun _ _ => True) := by
  rintro executor ⟨intact, blank⟩
  have owned : WalManager.Owned owner executor.wal.pages := blank ▸ WalManager.owned_empty
  rw [onWal]
  rcases run : WalManager.recover executor.wal with ⟨failure | report, wal⟩
  · trivial
  · rcases WalManager.owned_recover intact.attributed owned run with ⟨owned', sameLog⟩
    refine intact.wal ?_ (sameLog ▸ intact.attributed)
    intro pageId page found
    rcases owned' pageId page found with ⟨schema, isOwner, spells⟩
    refine ⟨intact.lt_numPages (by simp [isOwner]), fun other isOther => ?_⟩
    obtain rfl : schema = other := Option.some.inj (isOwner.symm.trans isOther)
    exact spells

theorem intact_tryFetchPage (pageId : UInt32) :
    Ends (Intact catalog owner none) (tryFetchPage pageId)
      (fun found executor => Intact catalog owner none executor ∧
        ∀ frameId, found = some frameId → Within catalog owner none pageId frameId executor)
      (fun _ _ => True) := by
  intro executor intact
  have fetched := intact_onPool_fetchPage pageId executor intact
  rw [tryFetchPage]
  generalize onPool (BufferPool.fetchPage pageId) executor = outcome at fetched ⊢
  rcases outcome with ⟨failure | frameId, executor'⟩
  · rcases fetched with ⟨⟨error, rfl⟩ | rfl, intact'⟩
    · exact ⟨intact', by simp⟩
    · trivial
  · refine ⟨fetched.intact, fun other same => ?_⟩
    obtain rfl := Option.some.inj same
    exact fetched

theorem intact_pushPage (pageId : UInt32) :
    Ends (Intact catalog owner none) (pushPage pageId) (fun _ => Intact catalog owner none)
      (fun _ _ => True) := by
  refine ends_get_bind fun executor intact => ?_
  rintro start rfl
  cases found : start.wal.pages.lookup pageId with
  | none => exact intact
  | some walPage =>
      have spelled := (intact.copies found).2
      refine Ends.bind (intact_tryFetchPage pageId) (fun fetched => ?_) start intact
      cases fetched with
      | none => exact ends_pure fun _ fetched => fetched.1
      | some frameId =>
          have overwrites : Ends (Within catalog owner none pageId frameId)
              (onPage frameId () fun page =>
                .ok ((), { page with data := walPage.data, dirty := true }))
              (fun _ => Within catalog owner none pageId frameId) (fun _ _ => True) := by
            refine ends_get_bind fun executor within => ?_
            rcases within.held with ⟨page, held, rfl⟩
            rintro _ rfl
            rw [held]
            exact within.setPage held rfl spelled
          rintro executor ⟨-, within⟩
          exact (overwrites.bind fun _ => within_unpin true) executor (within frameId rfl)

theorem reads_rebuild (table : String) :
    Reads catalog owner schema (fun _ _ => True) fun pageId _ =>
      rebuildBody table schema pageId := by
  intro pageId frameId slotId dirty tuple result _ _ _
  dsimp only [rebuildBody]
  split
  · exact ends_throw fun _ _ => trivial
  · exact ends_pure fun _ within => within
  · exact (within_modifyIndexes _).bind fun _ => ends_pure fun _ within => within

theorem intact_rebuildPages (table : String) {pageIds : List UInt32}
    (owned : ∀ pageId ∈ pageIds, owner pageId = some schema) :
    Ends (Intact catalog owner none) (rebuildPages table schema pageIds)
      (fun _ => Intact catalog owner none) (fun _ _ => True) := by
  induction pageIds with
  | nil => exact ends_pure fun _ intact => intact
  | cons pageId pageIds ih =>
      have isOwner := owned pageId List.mem_cons_self
      have others := ih fun other inside => owned other (List.mem_cons_of_mem _ inside)
      refine (intact_tryFetchPage pageId).bind fun found => ?_
      cases found with
      | none =>
          exact others.imp (fun _ fetched => fetched.1) (fun _ _ intact => intact)
            fun _ _ failed => failed
      | some frameId =>
          have rest : Ends (Within catalog owner none pageId frameId) (do
              let slotIds ← slots frameId
              let _ ← scanSlots frameId (rebuildBody table schema pageId) slotIds false ()
              modifyPool (BufferPool.unpin frameId false)
              rebuildPages table schema pageIds) (fun _ => Intact catalog owner none)
              (fun _ _ => True) := by
            refine within_slots.bind fun slotIds => ?_
            refine (within_scanSlots (reads_rebuild table) isOwner slotIds false ()).bind
              fun _ => ?_
            exact (within_unpin false).bind fun _ => others
          exact rest.imp (fun _ fetched => fetched.2 frameId rfl) (fun _ _ intact => intact)
            fun _ _ failed => failed

theorem intact_rebuildTable (table : String) :
    Ends (Intact catalog owner none) (rebuildTable table) (fun _ => Intact catalog owner none)
      (fun _ _ => True) := by
  refine ends_get_bind fun executor intact => ?_
  rintro start rfl
  rw [intact.known]
  cases known : catalog.get table with
  | none => exact intact
  | some schema =>
      refine intact_rebuildPages table ?_ start intact
      intro pageId inside
      rcases listed : start.tablePages.lookup table with _ | pageIds
      · simp [listed] at inside
      · rw [listed, Option.getD_some] at inside
        rcases intact.listed (.inl listed) inside with ⟨other, known', isOwner⟩
        obtain rfl : schema = other := Option.some.inj (known.symm.trans known')
        exact isOwner

theorem intact_onPool_flushPage (pageId : UInt32) :
    Ends (Intact catalog owner none) (onPool (BufferPool.flushPage pageId))
      (fun _ => Intact catalog owner none) failed := by
  intro executor intact
  have flushed := intact.onPool (fun base _ pool =>
      (base.Visible pageId → pool.OnFile pageId) ∧ pool.Bare pageId)
    fun _ _ _ known => (shows_flushPage (unhashed_spelled owner) known pageId).failing
      fun _ _ impossible => ⟨impossible, impossible.elim⟩
  generalize Executor.onPool (BufferPool.flushPage pageId) executor = outcome at flushed ⊢
  rcases outcome with ⟨failure | _, executor'⟩
  · exact flushed.1.elim
  · exact flushed.1

/-- Recovery keeps the types, once the lists are loaded. -/
theorem intact_recover (order : HashOrder) :
    Ends (fun executor => Intact catalog owner none executor.loadTables ∧
        executor.wal.pages = ∅) (recover order) (fun _ => Intact catalog owner none)
      (fun _ _ => True) := by
  have creates : Ends (Intact catalog owner none) (Fallible.modify createIndexes : Action Unit)
      (fun _ => Intact catalog owner none) (fun _ _ => True) := by
    intro executor intact
    have changed : Ends (Intact catalog owner none)
        (modifyIndexes fun _ => executor.createIndexes.indexManager)
        (fun _ => Intact catalog owner none) (fun _ _ => True) := intact_modifyIndexes _
    exact changed executor intact
  refine ends_modify_bind (fun executor => Intact catalog owner none executor ∧
    executor.wal.pages = ∅) (fun _ opened => opened) ?_
  refine intact_recoverWal.bind fun report => ends_get_then fun replayed => ?_
  refine (ends_forEach intact_pushPage).bind fun _ => ends_get_then fun pushed => ?_
  refine (ends_forEach intact_onPool_flushPage).bind fun _ => creates.bind fun _ => ?_
  refine ends_get_then fun indexed => (ends_forEach intact_rebuildTable).bind fun _ => ?_
  exact ends_get_then fun _ => ends_pure fun _ intact => intact

theorem Intact.start (intact : Intact catalog owner none executor) {order : HashOrder}
    {info : RecoveryInfo} {executor' : Executor}
    (run : start order executor.files = (.ok info, executor')) :
    Intact (CatalogFile.load executor.catalogFile) owner none executor' :=
  (intact_recover order).ok ⟨intact.reopen, rfl⟩ run

end Restart

section Runs

/-- The pages of a state are typed. -/
def Healthy (executor : Executor) : Prop :=
  ∃ owner, Intact executor.catalog owner none executor

theorem Intact.healthy (intact : Intact catalog owner none executor) : executor.Healthy := by
  refine ⟨owner, ?_⟩
  rw [intact.known]
  exact intact

theorem intact_execDelete (table : String) (filter : Option Expr) :
    Ends (Intact catalog owner none) (execDelete table filter) (fun _ => Intact catalog owner none)
      (Stays catalog owner) := by
  refine intact_schemaOf stays_of_intact fun schema known => ?_
  refine intact_pagesOf known stays_of_intact fun pageIds owned => ?_
  exact intact_transact (reads_delete table filter) owned

theorem intact_execUpdate (table : String) (assignments : List Assignment) (filter : Option Expr) :
    Ends (Intact catalog owner none) (execUpdate table assignments filter)
      (fun _ => Intact catalog owner none) (Stays catalog owner) := by
  refine intact_schemaOf stays_of_intact fun schema known => ?_
  refine intact_pagesOf known stays_of_intact fun pageIds owned => ?_
  exact intact_transact (reads_update table assignments filter) owned

/-- An empty directory. -/
theorem intact_empty : Intact Catalog.new (fun _ => none) none («open» Files.empty) where
  known := rfl
  schemas := by simp [Catalog.get, Catalog.new]
  filed := fun _ => rfl
  listed := by simp [Lists, «open», Files.empty]
  tabled := tabled_new (by simp [DiskManager.new, Files.empty]) rfl
  onFile := by simp
  youth := by simp
  versions := shows_new fun isRelevant => by simp at isRelevant
  youngVersions := shows_new fun isYoung => by simp at isYoung
  copies := by simp [«open», WalManager.new]
  attributed := by simp [WalManager.Attributed, «open», WalManager.new, Files.empty]

variable [Build]

theorem intact_execSelect (table : String) (columns : SelectColumns) (filter : Option Expr)
    (orderBy : Option (String × OrderDir)) (limit : Option UInt64) :
    Ends (Intact catalog owner none) (execSelect table columns filter orderBy limit)
      (fun _ => Intact catalog owner none) (fun _ => Intact catalog owner none) := by
  have sorts (result : Except Failure (List Row)) :
      Ends (Intact catalog owner none) (ofExcept result) (fun _ => Intact catalog owner none)
        (fun _ => Intact catalog owner none) :=
    ends_ofExcept (fun _ _ _ intact => intact) fun _ _ _ intact => intact
  refine intact_schemaOf (fun _ _ intact => intact) fun schema known => ?_
  refine intact_pagesOf known (fun _ _ intact => intact) fun pageIds owned => ?_
  have scans : Ends (Intact catalog owner none) (seqScan schema columns filter pageIds)
      (fun _ => Intact catalog owner none) (fun _ => Intact catalog owner none) :=
    intact_seqScan columns filter owned
  have finds : Ends (Intact catalog owner none) (findRows table schema columns filter pageIds)
      (fun _ => Intact catalog owner none) (fun _ => Intact catalog owner none) := by
    cases filter with
    | none => exact scans
    | some expr =>
        have routes : Ends (Intact catalog owner none)
            (tryIndexSelect table schema expr columns pageIds)
            (fun _ => Intact catalog owner none) (fun _ => Intact catalog owner none) := by
          refine ends_get_then fun executor => ?_
          refine Ends.bind (ends_ofExcept (fun _ _ _ intact => intact)
            fun _ _ _ intact => intact) fun rids => ?_
          cases rids with
          | none => exact ends_pure fun _ intact => intact
          | some rids =>
              exact (intact_selectRids columns expr owned rids []).bind
                fun _ => ends_pure fun _ intact => intact
        refine routes.bind fun found => ?_
        cases found with
        | none => exact scans
        | some rows => exact ends_pure fun _ intact => intact
  exact finds.bind fun rows => (sorts _).bind fun rows => sorts _

/-- A statement that returns leaves the pages typed. -/
theorem healthy_execute (order : HashOrder) (stmt : Statement) :
    Ends Healthy (execute order stmt) (fun _ => Healthy)
      (fun failure executor => IsPanic failure ∨ executor.Healthy) := by
  rintro executor ⟨owner, intact⟩
  have stays (failure : Failure) (executor' : Executor)
      (stays : Stays executor.catalog owner failure executor') :
      IsPanic failure ∨ executor'.Healthy := stays.imp_right Intact.healthy
  cases stmt with
  | createTable table columns =>
      exact (intact_execCreateTable order table columns).imp (fun _ intact => intact)
        (fun _ _ created => ⟨owner, created⟩) (fun _ _ intact => .inr intact.healthy) executor
          intact
  | insert table values =>
      exact (intact_execInsert table values).imp (fun _ intact => intact)
        (fun _ _ ⟨_, intact⟩ => intact.healthy)
        (fun _ _ upset => upset.imp_right fun ⟨_, intact⟩ => intact.healthy) executor intact
  | select table columns filter orderBy limit =>
      exact (intact_execSelect table columns filter orderBy limit).imp (fun _ intact => intact)
        (fun _ _ intact => intact.healthy) (fun _ _ intact => .inr intact.healthy) executor intact
  | delete table filter =>
      exact (intact_execDelete table filter).imp (fun _ intact => intact)
        (fun _ _ intact => intact.healthy) stays executor intact
  | update table assignments filter =>
      exact (intact_execUpdate table assignments filter).imp (fun _ intact => intact)
        (fun _ _ intact => intact.healthy) stays executor intact

/-- In all states of all runs the pages are typed. -/
theorem Reachable.healthy (reachable : Reachable Returns executor) : executor.Healthy := by
  induction reachable with
  | start run => exact (intact_empty.start run).healthy
  | @execute order stmt result executor executor' before run returned ih =>
      have ended := healthy_execute order stmt executor ih
      rw [run] at ended
      rcases result with failure | rows
      · refine ended.resolve_left ?_
        rintro ⟨panic, rfl⟩
        exact returned panic rfl
      · exact ended
  | restart before run ih =>
      rcases ih with ⟨owner, intact⟩
      exact (intact.start run).healthy

end Runs

end Executor

end VenomDb
