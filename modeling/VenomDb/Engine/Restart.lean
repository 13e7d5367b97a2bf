import VenomDb.Engine.Recover
import VenomDb.Engine.Sound

/-!
# Restarting

Opening the files that a sound state left behind succeeds, with the same heap: every
page that the log tells of is fetched from the data file, overwritten with its
replayed copy and flushed, and then the indexes are built from the heap.
-/

namespace VenomDb

/-- The pages under the first ids. -/
def Heap.below (numPages : ℕ) (heap : Heap) : Heap := fun pageId =>
  if pageId.toNat < numPages then heap pageId else none

theorem Heap.below_eq {numPages : ℕ} {heap : Heap}
    (inside : ∀ {pageId}, (heap pageId).isSome → pageId.toNat < numPages) :
    heap.below numPages = heap := by
  funext pageId
  by_cases lt : pageId.toNat < numPages
  · rw [below, if_pos lt]
  · rw [below, if_neg lt, eq_comm, ← Option.not_isSome_iff_eq_none]
    exact fun present => lt (inside present)

namespace Logical

/-- The rebuild of the indexes on one tuple. -/
def rebuildStep (table : String) (schema : Schema) (rid : Rid) (tuple : Bytes) (_ : Unit) :
    Fallible Failure Logical (Bool × Unit) :=
  match schema.deserializeRow tuple with
  | .error (.panic panic) => Fallible.throw (.panic panic)
  | .error _ => return (false, ())
  | .ok row => do
      Fallible.modify (maintain table rid (Executor.rebuildCells schema row))
      return (false, ())

/-- The indexes after the rows of some tuples were entered. -/
def rebuild (table : String) (schema : Schema) (entries : List (Rid × Bytes))
    (manager : IndexManager) :
    IndexManager :=
  entries.foldl (fun manager (rid, tuple) =>
    match schema.deserializeRow tuple with
    | .ok row => manager.maintain table rid (Executor.rebuildCells schema row)
    | .error _ => manager) manager

def rebuildTable (logical : Logical) (manager : IndexManager) (table : String) : IndexManager :=
  match logical.catalog.get table with
  | none => manager
  | some schema =>
      rebuild table schema (logical.heap.live ((logical.tablePages.lookup table).getD [])) manager

/-- The state after a restart, before the indexes are rebuilt. The data file has `numPages` pages;
pages that the log tells of but that are not in the file are left out. -/
def reopened (numPages : ℕ) (logical : Logical) : Logical where
  catalog := CatalogFile.load logical.catalogFile
  tablePages := (CatalogFile.load logical.catalogFile).tables.keys.foldl
    (fun pages name => pages.insert name ((logical.pageFiles.lookup name).getD [])) ∅
  indexManager := (CatalogFile.load logical.catalogFile).indexDefs.foldl
    (fun manager (table, column) => manager.createIndex table column) IndexManager.new
  catalogFile := logical.catalogFile
  pageFiles := logical.pageFiles
  log := logical.log
  currentLsn := 0
  nextTxnId := 1
  numPages := numPages
  heap := logical.heap.below numPages
  shadow := logical.heap

def restart (order : HashOrder) (numPages : ℕ) (logical : Logical) : Logical :=
  { logical.reopened numPages with
    indexManager :=
      (order.tables (logical.reopened numPages).tablePages.keys).foldl
        (logical.reopened numPages).rebuildTable (logical.reopened numPages).indexManager }

variable {logical : Logical} {numPages : ℕ}

/-- What a restart relies on: the log need not tell of nothing but the heap, as long as recovery
finds the heap in it. -/
structure Replayable (logical : Logical) : Prop where
  filed : Filed logical.catalog logical.tablePages logical.catalogFile logical.pageFiles
  owned : ∀ pageId, (logical.heap pageId).isSome ↔ Listed logical.tablePages pageId
  typed : Typed logical.catalog logical.tablePages logical.heap
  replays : WalManager.Replays logical.log logical.heap

theorem Sound.replayable (sound : Sound none logical) : Replayable logical :=
  ⟨sound.filed, sound.owned, sound.typed, sound.explains.replays⟩

theorem lookup_reopened (replayable : Replayable logical) (numPages : ℕ) (table : String) :
    (logical.reopened numPages).tablePages.lookup table = logical.tablePages.lookup table := by
  have keys : table ∈ (CatalogFile.load logical.catalogFile).tables.keys ↔
      (logical.tablePages.lookup table).isSome := by
    rw [← replayable.filed.tables, ← replayable.filed.loaded, Catalog.get, AList.lookup_isSome,
      AList.mem_keys]
  rw [reopened, AList.lookup_foldl_insert fun name => (logical.pageFiles.lookup name).getD [],
    replayable.filed.pageFiles]
  cases found : logical.tablePages.lookup table with
  | none => rw [if_neg (by rw [keys, found]; simp), AList.lookup_empty]
  | some pageIds => rw [if_pos (by rw [keys, found]; rfl), Option.getD_some]

theorem Sound.reopened (sound : Sound none logical)
    (stored : ∀ {pageId}, (logical.heap pageId).isSome → pageId.toNat < numPages) :
    Sound none (logical.reopened numPages) := by
  have heap : (logical.reopened numPages).heap = logical.heap := Heap.below_eq stored
  have lookup := lookup_reopened sound.replayable numPages
  have get (table : String) : (logical.reopened numPages).catalog.get table =
      logical.catalog.get table := sound.filed.loaded table
  refine ⟨⟨?_, ?_, ?_, ?_, ?_, ?_, ?_⟩, ?_, ⟨?_⟩, ⟨?_, ?_, ?_⟩, heap ▸ sound.explains⟩
  · intro table
    rw [get, lookup]
    exact sound.filed.tables table
  · intro table schema known
    rw [get] at known
    exact sound.filed.schemas known
  · exact fun table => rfl
  · rfl
  · intro table
    rw [lookup]
    exact sound.filed.pageFiles table
  · intro table pageIds listed
    rw [lookup] at listed
    exact sound.filed.nodup listed
  · intro first second firstIds secondIds pageId inFirst inSecond
    rw [lookup] at inFirst inSecond
    exact sound.filed.apart inFirst inSecond
  · intro pageId
    rw [heap, sound.owned]
    simp only [Listed, lookup]
  · intro table schema pageIds rid tuple known listed
    rw [get] at known
    rw [lookup] at listed
    rw [heap]
    exact sound.typed.row known listed
  · rw [heap]
    exact fun present => ⟨_, present, rfl⟩
  · intro pageId fresh
    by_contra present
    have inside := stored (Option.isSome_iff_ne_none.mpr present)
    exact absurd fresh (not_le.mpr inside)
  · rw [heap]
    exact sound.copied.compact

theorem Sound.withIndexes {pending : Option UInt32} (sound : Sound pending logical)
    (manager : IndexManager) : Sound pending { logical with indexManager := manager } :=
  ⟨sound.filed, sound.owned, sound.typed, sound.copied, sound.explains⟩

theorem Replayable.usable (replayable : Replayable logical) (order : HashOrder)
    (stored : ∀ {pageId}, (logical.heap pageId).isSome → pageId.toNat < numPages) :
    (logical.restart order numPages).Usable := by
  have heap : (logical.restart order numPages).heap = logical.heap := Heap.below_eq stored
  refine ⟨?_, ?_, ?_, ?_⟩
  · intro table pageIds listed
    exact replayable.filed.nodup ((lookup_reopened replayable numPages table).symm.trans listed)
  · intro table pageIds listed pageId inside
    rw [heap, replayable.owned]
    exact ⟨table, pageIds, (lookup_reopened replayable numPages table).symm.trans listed, inside⟩
  · intro pageId page present
    rw [heap] at present
    exact ⟨page, present, rfl⟩
  · intro pageId fresh
    by_contra present
    exact absurd fresh (not_le.mpr (stored (Option.isSome_iff_ne_none.mpr present)))

theorem Sound.restart (sound : Sound none logical) (order : HashOrder)
    (stored : ∀ {pageId}, (logical.heap pageId).isSome → pageId.toNat < numPages) :
    Sound none (logical.restart order numPages) :=
  (sound.reopened stored).withIndexes _

/-- What the rebuild of the indexes relies on: listed pages are in the heap or not in the file, and
their tuples can be read. -/
structure Rebuildable (logical : Logical) : Prop where
  known : ∀ {table pageIds}, logical.tablePages.lookup table = some pageIds → ∀ pageId ∈ pageIds,
    (logical.heap pageId).isSome ∨ logical.numPages ≤ pageId.toNat
  readable : ∀ {table schema pageIds}, logical.catalog.get table = some schema →
    logical.tablePages.lookup table = some pageIds → ∀ entry ∈ logical.heap.live pageIds,
    ∃ row, schema.deserializeRow entry.2 = .ok row

/-- A live tuple of the first pages is a live tuple. -/
theorem get_of_below {heap : Heap} {rid : Rid} {tuple : Bytes}
    (live : (heap.below numPages).get rid = some tuple) : heap.get rid = some tuple := by
  rw [Heap.get, Heap.below] at live
  split_ifs at live with inside
  · exact live
  · simp at live

theorem Replayable.rebuildable (replayable : Replayable logical) (numPages : ℕ) :
    (logical.reopened numPages).Rebuildable where
  known := by
    intro table pageIds listed pageId inside
    rw [lookup_reopened replayable] at listed
    by_cases lt : pageId.toNat < numPages
    · left
      rw [show (logical.reopened numPages).heap pageId = logical.heap pageId from if_pos lt]
      exact (replayable.owned pageId).mpr ⟨table, pageIds, listed, inside⟩
    · exact .inr (not_lt.mp lt)
  readable := by
    rintro table schema pageIds known listed ⟨rid, tuple⟩ inside
    rw [lookup_reopened replayable] at listed
    rw [show (logical.reopened numPages).catalog.get table = logical.catalog.get table from
      replayable.filed.loaded table] at known
    rcases Heap.mem_live.mp inside with ⟨owned, live⟩
    rcases replayable.typed.row known listed owned (get_of_below live) with ⟨⟨row, encodes⟩, short⟩
    exact ⟨row, encodes.deserializeRow short⟩

theorem isLocal_rebuildStep {table : String} {schema : Schema} :
    IsLocal (rebuildStep table schema) := by
  intro rid tuple result logical
  rw [rebuildStep]
  rcases schema.deserializeRow tuple with (_ | _ | _) | row <;> exact .refl _ _

/-- Scanning rows that can be read enters all of them. -/
theorem scan_rebuildStep {table : String} {schema : Schema} {entries : List (Rid × Bytes)}
    (readable : ∀ entry ∈ entries, ∃ row, schema.deserializeRow entry.2 = .ok row)
    (logical : Logical) :
    logical.scan (rebuildStep table schema) entries () =
      ⟨.ok (), false,
        { logical with indexManager := rebuild table schema entries logical.indexManager }⟩ := by
  induction entries generalizing logical with
  | nil => rfl
  | cons entry entries ih =>
      rcases entry with ⟨rid, tuple⟩
      rcases readable (rid, tuple) (by simp) with ⟨row, decoded⟩
      rw [scan, rebuildStep]
      simp only [decoded, Fallible.modify_bind, Fallible.pure_apply]
      rw [ih fun other inside => readable other (by simp [inside])]
      simp [ScanEnd.after, rebuild, decoded, maintain]

end Logical

namespace Executor

variable [Crc32] {executor : Executor} {logical : Logical} {table : String} {schema : Schema}

theorem rebuild_refines (table : String) (schema : Schema) :
    BodyRefines (fun pageId _ => rebuildBody table schema pageId)
      (Logical.rebuildStep table schema) where
  isLocal := Logical.isLocal_rebuildStep
  ends := by
    rintro executor logical frameId pageId slotId dirty tuple ⟨⟩ inUse -
    rw [rebuildBody, Logical.rebuildStep]
    rcases schema.deserializeRow tuple with (_ | _ | panic) | row
    · exact inUse.bodyEnds_ok ()
    · exact inUse.bodyEnds_ok ()
    · exact inUse.bodyEnds_error (by simp)
    · rcases inUse.maintain table ⟨pageId, slotId⟩ (rebuildCells schema row) with
        ⟨executor', maintained, inUse', pool⟩
      simp only [Fallible.bind_ok maintained]
      exact ⟨rfl, by simpa using inUse', .of_pool pool⟩

/-- With frames available, a fetch that ignores errors holds the page, unless there is none. -/
theorem Reflects.tryFetchPage (reflects : Reflects executor logical none)
    (ready : executor.Ready) (pageId : UInt32) :
    (∃ frameId executor', tryFetchPage pageId executor = (.ok (some frameId), executor') ∧
      Using executor' logical frameId pageId false ∧ Advances executor executor' (some frameId)) ∨
    (executor.bufferPool.view pageId = none ∧ ∃ executor',
      Executor.tryFetchPage pageId executor = (.ok none, executor') ∧
      Reflects executor' logical none ∧ Advances executor executor' none) := by
  rcases reflects.onPool_fetchPage pageId with
    ⟨frameId, executor', run, inUse, advances⟩ | ⟨executor', -, -, -, full⟩ |
    ⟨unseen, error, executor', run, rest⟩ | ⟨-, overpinned⟩
  · exact .inl ⟨frameId, executor', by simp [Executor.tryFetchPage, run], inUse, advances⟩
  · exact absurd full ready.not_full
  · exact .inr ⟨unseen, executor', by simp [Executor.tryFetchPage, run], rest⟩
  · exact absurd overpinned ready.not_overpinned

/-- A page under an id that was never given out cannot be seen. -/
theorem Reflects.view_eq_none {inUse : Option FrameId} {pageId : UInt32}
    (reflects : Reflects executor logical inUse) (fresh : logical.numPages ≤ pageId.toNat) :
    executor.bufferPool.view pageId = none := by
  by_contra seen
  rcases Option.ne_none_iff_exists'.mp seen with ⟨data, found⟩
  have lt := reflects.coherent.view_lt found
  rw [reflects.numPages_eq] at lt
  omega

/-- A page in the data file can be seen. -/
theorem Reflects.view_of_stored {inUse : Option FrameId} {pageId : UInt32}
    (reflects : Reflects executor logical inUse) (stored : executor.Stored pageId) :
    executor.bufferPool.view pageId ≠ none := by
  rw [BufferPool.view]
  cases resident : executor.bufferPool.pageTable.lookup pageId with
  | none =>
      rw [Stored, Option.isSome_iff_ne_none] at stored
      simpa using stored
  | some frameId =>
      rcases reflects.coherent.table resident with ⟨page, held, -⟩
      simp [held]

theorem rebuildPages_ends {pageIds : List UInt32} (reflects : Reflects executor logical none)
    (ready : executor.Ready)
    (known : ∀ pageId ∈ pageIds, (logical.heap pageId).isSome ∨ logical.numPages ≤ pageId.toNat)
    (readable : ∀ entry ∈ logical.heap.live pageIds, ∃ row, schema.deserializeRow entry.2 =
      .ok row) :
    ∃ executor', rebuildPages table schema pageIds executor = (.ok (), executor') ∧
      Reflects executor' { logical with
        indexManager := Logical.rebuild table schema (logical.heap.live pageIds)
          logical.indexManager } none ∧ Advances executor executor' none := by
  induction pageIds generalizing executor logical with
  | nil => exact ⟨executor, rfl, reflects, .refl _ _⟩
  | cons pageId pageIds ih =>
      have live : logical.heap.live (pageId :: pageIds) =
          logical.heap.liveIn pageId (logical.heap.slots pageId) ++ logical.heap.live pageIds := by
        simp [Heap.live]
      rw [live] at readable ⊢
      have readableRest : ∀ entry ∈ logical.heap.live pageIds,
          ∃ row, schema.deserializeRow entry.2 = .ok row :=
        fun entry inside => readable entry (List.mem_append_right _ inside)
      have knownRest : ∀ other ∈ pageIds,
          (logical.heap other).isSome ∨ logical.numPages ≤ other.toNat :=
        fun other inside => known other (by simp [inside])
      rcases reflects.tryFetchPage ready pageId with
        ⟨frameId, fetched, run, inUse, advances⟩ | ⟨unseen, fetched, run, reflects', advances⟩
      · have present : (logical.heap pageId).isSome := by
          rcases known pageId (by simp) with present | fresh
          · exact present
          · rcases inUse.held with ⟨page, held, rfl⟩
            have seen := BufferPool.view_of_frame inUse.reflects.coherent held.page
            rw [inUse.reflects.view_eq_none fresh] at seen
            simp at seen
        rcases Option.isSome_iff_exists.mp present with ⟨page, found⟩
        have slots := scanSlots_refines (rebuild_refines table schema)
          (reflects.nodup_slots pageId) inUse present ()
        rw [Logical.scan_rebuildStep
          (fun entry inside => readable entry (List.mem_append_left _ inside))] at slots
        rw [rebuildPages, Fallible.bind_ok run]
        dsimp only
        rw [Fallible.bind_ok (inUse.slots found)]
        simp only [Fallible.bind_apply (scanSlots _ _ _ _ _)]
        generalize scanSlots frameId (rebuildBody table schema pageId) (logical.heap.slots pageId)
          false () fetched = ended at slots ⊢
        rcases ended with ⟨_ | ⟨dirty, ⟨⟩⟩, scanned⟩
        · exact slots.elim
        · rcases slots with ⟨-, inUse', advances'⟩
          rcases inUse'.unpin false (by simp) with
            ⟨unpinned, release, reflects', released⟩
          have step := (advances.trans advances').release released
          rcases ih reflects' (step.ready ready) knownRest
            readableRest with ⟨executor', rest, reflects'', advancesRest⟩
          refine ⟨executor', ?_, ?_, step.trans advancesRest⟩
          · dsimp only
            rw [Fallible.bind_ok release]
            exact rest
          · simpa [Logical.rebuild] using reflects''
      · have missing : logical.heap pageId = none := by
          by_contra present
          rcases Option.ne_none_iff_exists'.mp present with ⟨page, found⟩
          rcases reflects.heap found with ⟨data, seen, -⟩
          rw [unseen] at seen
          simp at seen
        rcases ih reflects' (advances.ready ready) knownRest
          readableRest with ⟨executor', rest, reflects'', advancesRest⟩
        refine ⟨executor', ?_, ?_, advances.trans advancesRest⟩
        · rw [rebuildPages, Fallible.bind_ok run]
          exact rest
        · simpa [Heap.slots, missing, Heap.liveIn] using reflects''

theorem rebuildTable_ends (reflects : Reflects executor logical none)
    (ready : executor.Ready) (rebuildable : logical.Rebuildable)
    (table : String) :
    ∃ executor', rebuildTable table executor = (.ok (), executor') ∧
      Reflects executor' { logical with
        indexManager := logical.rebuildTable logical.indexManager table } none ∧
      Advances executor executor' none := by
  have catalog : executor.catalog = logical.catalog := reflects.catalog_eq
  have tablePages : executor.tablePages = logical.tablePages := reflects.tablePages_eq
  rw [rebuildTable, Fallible.get_bind, catalog, tablePages, Logical.rebuildTable]
  cases found : logical.catalog.get table with
  | none => exact ⟨executor, rfl, reflects, .refl _ _⟩
  | some schema =>
      cases listed : logical.tablePages.lookup table with
      | none => exact rebuildPages_ends reflects ready (by simp) (by simp [Heap.live])
      | some pageIds =>
          exact rebuildPages_ends reflects ready (rebuildable.known listed)
            (rebuildable.readable found listed)

theorem rebuildTables_ends (reflects : Reflects executor logical none)
    (ready : executor.Ready) (rebuildable : logical.Rebuildable)
    (tables : List String) :
    ∃ executor', Fallible.forEach tables rebuildTable executor = (.ok (), executor') ∧
      Reflects executor' { logical with
        indexManager := tables.foldl logical.rebuildTable logical.indexManager } none ∧
      Advances executor executor' none := by
  refine Fallible.forEach_simulates (fun manager executor' =>
    Reflects executor' { logical with indexManager := manager } none ∧
      Advances executor executor' none) logical.rebuildTable ?_ logical.indexManager
    ⟨reflects, .refl _ _⟩
  rintro table - manager current ⟨reflects, advances⟩
  rcases rebuildTable_ends reflects (advances.ready ready)
    ⟨rebuildable.known, rebuildable.readable⟩ table with ⟨executor', run, reflects', step⟩
  exact ⟨executor', run, reflects', advances.trans step⟩

/-- A page of the log manager replaces the page in the data file, if there is one. -/
theorem Reflects.pushPage {pageId : UInt32} (reflects : Reflects executor logical none)
    (ready : executor.Ready) (copied : (logical.shadow pageId).isSome)
    (stored : pageId.toNat < logical.numPages → executor.Stored pageId) :
    ∃ executor', pushPage pageId executor = (.ok (), executor') ∧
      Reflects executor' { logical with
        heap := if pageId.toNat < logical.numPages then
          Function.update logical.heap pageId (logical.shadow pageId) else logical.heap } none ∧
      Advances executor executor' none := by
  rcases (reflects.shadow pageId).cases with ⟨-, missing⟩ | ⟨walPage, page, found, copy, represents⟩
  · simp [missing] at copied
  rw [Executor.pushPage, Fallible.get_bind, found]
  dsimp only
  rcases reflects.tryFetchPage ready pageId with
    ⟨frameId, fetched, run, inUse, advances⟩ | ⟨unseen, fetched, run, reflects', advances⟩
  · have inside : pageId.toNat < logical.numPages := by
      by_contra fresh
      rcases inUse.held with ⟨page, held, rfl⟩
      have seen := BufferPool.view_of_frame inUse.reflects.coherent held.page
      rw [inUse.reflects.view_eq_none (not_lt.mp fresh)] at seen
      simp at seen
    rcases inUse.held with ⟨concrete, held, id⟩
    let pushed : Page := { concrete with data := walPage.data, dirty := true }
    have sameId : pushed.id = concrete.id := rfl
    have push : Executor.onPage frameId () (fun page =>
        .ok ((), { page with data := walPage.data, dirty := true })) fetched =
        (.ok (), record { fetched with
          bufferPool := fetched.bufferPool.setPage frameId pushed }) := by
      simp [Executor.onPage, BufferPool.getPage, held.page, modifyPool, Fallible.bind_apply, pushed]
    rcases inUse.setPage held id sameId represents with ⟨inUse', advances'⟩
    rcases inUse'.unpin true (by simp) with
      ⟨unpinned, release, reflects', released⟩
    refine ⟨unpinned, ?_, ?_, (advances.trans advances').release released⟩
    · rw [Fallible.bind_ok run]
      dsimp only
      rw [Fallible.bind_ok push]
      exact release
    · rw [if_pos inside, copy]
      exact reflects'
  · have outside : ¬pageId.toNat < logical.numPages :=
      fun inside => reflects.view_of_stored (stored inside) unseen
    refine ⟨fetched, ?_, ?_, advances⟩
    · rw [Fallible.bind_ok run]
      rfl
    · rw [if_neg outside]
      exact reflects'

end Executor

/-- The files of a directory say what a logical state says, and the pages of its heap are intact as
far as the data file goes. -/
structure Files.Hold [Crc32] (files : Files) (logical : Logical) : Prop where
  log : files.log = logical.log
  pages : files.pages = logical.pageFiles
  catalog : files.catalog = logical.catalogFile
  small : files.db.length < 2 ^ 32
  intact : ∀ {pageId}, (logical.heap pageId).isSome → pageId.toNat < files.db.length →
    (DiskManager.stored files.db pageId).isSome

/-- Pushing every page of the log manager rebuilds the heap, as far as the data file goes. -/
theorem Heap.foldl_push {numPages : ℕ} {shadow : Heap} (heap : Heap) (pageIds : List UInt32) :
    pageIds.foldl (fun heap pageId => if pageId.toNat < numPages then
      Function.update heap pageId (shadow pageId) else heap) heap =
    fun pageId => if pageId ∈ pageIds ∧ pageId.toNat < numPages then shadow pageId
      else heap pageId := by
  induction pageIds generalizing heap with
  | nil => simp
  | cons first pageIds ih =>
      rw [List.foldl_cons, ih]
      funext pageId
      by_cases same : pageId = first
      · subst same
        by_cases inside : pageId.toNat < numPages <;> simp [inside]
      · by_cases inside : first.toNat < numPages <;> simp [inside, same]

namespace Executor

variable [Crc32] {files : Files} {logical : Logical}

/-- The pages of the log manager reach the pool. -/
theorem pushPages_ends {executor : Executor} (reflects : Reflects executor logical none)
    (ready : executor.Ready) {pageIds : List UInt32}
    (copied : ∀ pageId, pageId ∈ pageIds ↔ (logical.shadow pageId).isSome)
    (blank : logical.heap = Heap.empty)
    (stored : ∀ {pageId}, (logical.shadow pageId).isSome → pageId.toNat < logical.numPages →
      executor.Stored pageId) :
    ∃ executor', Fallible.forEach pageIds pushPage executor = (.ok (), executor') ∧
      Reflects executor' { logical with heap := logical.shadow.below logical.numPages } none ∧
      Advances executor executor' none := by
  have pushed : pageIds.foldl (fun heap pageId => if pageId.toNat < logical.numPages then
      Function.update heap pageId (logical.shadow pageId) else heap) logical.heap =
      logical.shadow.below logical.numPages := by
    rw [Heap.foldl_push]
    funext pageId
    cases missing : logical.shadow pageId with
    | none => simp [copied, missing, blank, Heap.below, Heap.empty]
    | some page => simp [copied, missing, blank, Heap.below, Heap.empty]
  rw [← pushed]
  refine Fallible.forEach_simulates (fun heap executor' =>
    Reflects executor' { logical with heap := heap } none ∧ Advances executor executor' none)
    (fun heap pageId => if pageId.toNat < logical.numPages then
      Function.update heap pageId (logical.shadow pageId) else heap) ?_ logical.heap
    ⟨reflects, .refl _ _⟩
  rintro pageId inside heap current ⟨reflects, advances⟩
  have here := (copied pageId).mp inside
  rcases reflects.pushPage (advances.ready ready) here
    (fun lt => advances.stored (stored here lt)) with ⟨executor', run, reflects', step⟩
  exact ⟨executor', run, reflects', advances.trans step⟩

theorem flushAll_ends {executor : Executor} (reflects : Reflects executor logical none)
    (pageIds : List UInt32) :
    ∃ executor', Fallible.forEach pageIds (fun pageId => onPool (BufferPool.flushPage pageId))
        executor = (.ok (), executor') ∧
      Reflects executor' logical none ∧ Advances executor executor' none := by
  refine Fallible.forEach_simulates (fun (_ : Unit) executor' =>
    Reflects executor' logical none ∧ Advances executor executor' none)
    (fun _ _ => ()) ?_ () ⟨reflects, .refl _ _⟩
  rintro pageId - - current ⟨reflects, advances⟩
  rcases reflects.flushPage pageId with ⟨executor', run, reflects', step, -⟩
  exact ⟨executor', run, reflects', advances.trans step⟩

/-- Opening a directory and replaying its log, before any page is touched. -/
theorem Reflects.opened (replayable : logical.Replayable) (hold : files.Hold logical) :
    ∃ report executor, onWal WalManager.recover («open» files).loadTables = (.ok report, executor) ∧
      Reflects executor { logical.reopened files.db.length with
        indexManager := IndexManager.new, heap := Heap.empty } none ∧
      executor.Ready ∧ executor.bufferPool.disk.file = files.db := by
  let executor := («open» files).loadTables
  have wal : executor.wal = WalManager.new logical.log := congrArg WalManager.new hold.log
  rcases replayable.replays with ⟨report, pages, run, -, shadows⟩
  have run : executor.wal.recover = (.ok report, { executor.wal with pages := pages }) := by
    rw [wal, run]
  have numPages : (UInt32.ofNat files.db.length).toNat = files.db.length :=
    UInt32.toNat_ofNat_of_lt' (by simpa [UInt32.size] using hold.small)
  refine ⟨report, record { executor with wal := { executor.wal with pages := pages } },
    by rw [onWal, run], ?_, ⟨⟨⟨0, by decide⟩, .inl rfl⟩, fun _ => BufferPool.pinnable_new⟩, rfl⟩
  rw [reflects_record]
  refine ⟨?_, ?_, by simp [Heap.empty], shadows⟩
  · simp [Executor.core, executor, loadTables, «open», Logical.reopened, hold.catalog, hold.pages,
      WalManager.new, BufferPool.new, DiskManager.new, numPages, hold.log, loadAllTableMetas]
  · exact BufferPool.coherent_new (le_of_eq numPages.symm) rfl

/-- Opening the files of a state that can be replayed succeeds. -/
theorem start_ends (replayable : logical.Replayable) (hold : files.Hold logical)
    (order : HashOrder) :
    ∃ info executor, start order files = (.ok info, executor) ∧
      Reflects executor (logical.restart order files.db.length) none ∧
      ∀ {pageId}, (DiskManager.stored files.db pageId).isSome → executor.Stored pageId := by
  rcases Reflects.opened replayable hold with ⟨report, opened, replay, reflects, ready, file⟩
  have stored {pageId : UInt32} (copied : (logical.heap pageId).isSome)
      (inside : pageId.toNat < files.db.length) : opened.Stored pageId := by
    rw [Stored, file]
    exact hold.intact copied inside
  have copied (pageId : UInt32) :
      pageId ∈ order.pages opened.wal.pages.keys ↔ (logical.heap pageId).isSome := by
    rw [(order.pages_perm _).mem_iff, ← AList.mem_keys, ← AList.lookup_isSome]
    rcases (reflects.shadow pageId).cases with ⟨found, missing⟩ | ⟨page, abstract, found, copy, -⟩
    · rw [found, show logical.heap pageId = none from missing]
      rfl
    · rw [found, show logical.heap pageId = some abstract from copy]
      rfl
  rcases pushPages_ends reflects ready copied rfl stored with ⟨pushed, push, reflects', advances⟩
  rcases flushAll_ends reflects' (order.pages pushed.bufferPool.pageTable.keys) with
    ⟨flushed, flush, reflects'', advances'⟩
  have indexed : Reflects flushed.createIndexes (logical.reopened files.db.length) none := by
    refine reflects''.of_core ?_ rfl rfl rfl rfl
    have catalog : flushed.catalog = CatalogFile.load logical.catalogFile := reflects''.catalog_eq
    have indexManager : flushed.indexManager = IndexManager.new := reflects''.indexManager_eq
    rw [show flushed.createIndexes.core = { flushed.core with
      indexManager := flushed.createIndexes.indexManager } from rfl, reflects''.core,
      createIndexes, catalog, indexManager]
    rfl
  have start : Advances opened flushed.createIndexes none :=
    (advances.trans advances').trans (.of_pool rfl)
  have tablePages : flushed.createIndexes.tablePages =
      (logical.reopened files.db.length).tablePages := congrArg Core.tablePages indexed.core
  rcases rebuildTables_ends indexed (start.ready ready)
    (replayable.rebuildable _)
    (order.tables (logical.reopened files.db.length).tablePages.keys) with
    ⟨executor, rebuild, final, advances''⟩
  have whole := start.trans advances''
  refine ⟨⟨report.redone, report.undone, executor.catalog.tables.keys.length⟩, executor, ?_, final,
    ?_⟩
  · rw [Executor.start, recover, Fallible.modify_bind, Fallible.bind_ok replay, Fallible.get_bind,
      Fallible.bind_ok push, Fallible.get_bind, Fallible.bind_ok flush, Fallible.modify_bind,
      Fallible.get_bind, tablePages, Fallible.bind_ok rebuild]
    rfl
  · intro pageId here
    refine whole.stored ?_
    rwa [Stored, file]

end Executor

end VenomDb
