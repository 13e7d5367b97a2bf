import VenomDb.Engine.Replay
import VenomDb.Engine.Statements

/-!
# What holds between statements

`Sound` is the invariant of the logical executor: the files describe the tables, every
page of the heap belongs to one table, its tuples are rows of that table, and the log
tells the heap. Inside a transaction the log may hold records that are not committed
yet. Statements that succeed keep it, and so do statements that fail before they
change a tuple.
-/

namespace VenomDb

/-- The bytes of a row, with anything after them. -/
def Encodes (schema : Schema) (tuple : Bytes) (row : Row) : Prop :=
  ∃ bytes rest, tuple = bytes ++ rest ∧ schema.serializeRow row = .ok bytes

theorem Encodes.deserializeRow {schema : Schema} {tuple : Bytes} {row : Row}
    (encodes : Encodes schema tuple row) (short : tuple.length < 2 ^ 16) :
    schema.deserializeRow tuple = .ok row := by
  rcases encodes with ⟨bytes, rest, rfl, encoded⟩
  rw [List.length_append] at short
  exact Schema.deserializeRow_of_serializeRow encoded (by omega) rest

namespace Logical

/-- A page is in the list of a table. -/
def Listed (tablePages : AList fun _ : String => List UInt32) (pageId : UInt32) : Prop :=
  ∃ table pageIds, tablePages.lookup table = some pageIds ∧ pageId ∈ pageIds

/-- The tables of the catalog have page lists without repetition, and the files say the same. -/
structure Filed (catalog : Catalog) (tablePages : AList fun _ : String => List UInt32)
    (catalogFile : Option CatalogFile) (pageFiles : AList fun _ : String => List UInt32) :
    Prop where
  tables : ∀ table, (catalog.get table).isSome = (tablePages.lookup table).isSome
  schemas : ∀ {table schema}, catalog.get table = some schema →
    schema = Schema.new table schema.columns
  loaded : ∀ table, (CatalogFile.load catalogFile).get table = catalog.get table
  indexDefs : (CatalogFile.load catalogFile).indexDefs = catalog.indexDefs
  pageFiles : ∀ table, pageFiles.lookup table = tablePages.lookup table
  nodup : ∀ {table pageIds}, tablePages.lookup table = some pageIds → pageIds.Nodup
  apart : ∀ {table other pageIds otherIds pageId}, tablePages.lookup table = some pageIds →
    tablePages.lookup other = some otherIds → pageId ∈ pageIds → pageId ∈ otherIds → table = other

/-- The tuples of a table's pages are rows of the table. -/
structure Typed (catalog : Catalog) (tablePages : AList fun _ : String => List UInt32)
    (heap : Heap) :
    Prop where
  row : ∀ {table schema pageIds rid tuple}, catalog.get table = some schema →
    tablePages.lookup table = some pageIds → rid.pageId ∈ pageIds → heap.get rid = some tuple →
    (∃ row, Encodes schema tuple row) ∧ tuple.length < 2 ^ 16

/-- The log manager's pages: tuples of the same lengths as those of the heap, and nothing under
ids that were never given out. -/
structure Copied (heap shadow : Heap) (numPages : ℕ) : Prop where
  shaped : ∀ {pageId page}, heap pageId = some page →
    ∃ copy, shadow pageId = some copy ∧ copy.lengths = page.lengths
  unallocated : ∀ {pageId}, numPages ≤ pageId.toNat → shadow pageId = none
  compact : ∀ {pageId page}, heap pageId = some page → page.cells.length < 2 ^ 16

/-- What every statement keeps, however it ends: nothing is said about the log. -/
structure Tidy (logical : Logical) : Prop where
  filed : Filed logical.catalog logical.tablePages logical.catalogFile logical.pageFiles
  owned : ∀ pageId, (logical.heap pageId).isSome ↔ Listed logical.tablePages pageId
  typed : Typed logical.catalog logical.tablePages logical.heap
  copied : Copied logical.heap logical.shadow logical.numPages

structure Sound (pending : Option UInt32) (logical : Logical) : Prop where
  filed : Filed logical.catalog logical.tablePages logical.catalogFile logical.pageFiles
  owned : ∀ pageId, (logical.heap pageId).isSome ↔ Listed logical.tablePages pageId
  typed : Typed logical.catalog logical.tablePages logical.heap
  copied : Copied logical.heap logical.shadow logical.numPages
  explains : Explains pending logical.log logical.heap

variable {logical : Logical} {pending : Option UInt32} {txnId : UInt32}

theorem Sound.tidy (sound : Sound pending logical) : Tidy logical :=
  ⟨sound.filed, sound.owned, sound.typed, sound.copied⟩

theorem Tidy.sound (tidy : Tidy logical) (explains : Explains pending logical.log logical.heap) :
    Sound pending logical :=
  ⟨tidy.filed, tidy.owned, tidy.typed, tidy.copied, explains⟩

theorem Tidy.usable (tidy : Tidy logical) : logical.Usable where
  nodup := tidy.filed.nodup
  present := fun listed pageId inside => (tidy.owned pageId).mpr ⟨_, _, listed, inside⟩
  shaped := tidy.copied.shaped
  unallocated := tidy.copied.unallocated

theorem Sound.usable (sound : Sound pending logical) : logical.Usable := sound.tidy.usable

theorem Tidy.beginTxn (tidy : Tidy logical) : Tidy logical.beginTxn :=
  ⟨tidy.filed, tidy.owned, tidy.typed, tidy.copied⟩

theorem Tidy.commit (tidy : Tidy logical) (txnId : UInt32) : Tidy (logical.commit txnId) :=
  ⟨tidy.filed, tidy.owned, tidy.typed, tidy.copied⟩

theorem Tidy.refuseRow (tidy : Tidy logical) (txnId : UInt32) (rid : Rid)
    (oldBytes newBytes : Bytes) : Tidy (logical.refuseRow txnId rid oldBytes newBytes) :=
  ⟨tidy.filed, tidy.owned, tidy.typed, tidy.copied⟩

theorem Tidy.withIndexes (tidy : Tidy logical) (manager : IndexManager) :
    Tidy { logical with indexManager := manager } :=
  ⟨tidy.filed, tidy.owned, tidy.typed, tidy.copied⟩

theorem Sound.weaken (sound : Sound none logical) (pending : Option UInt32) :
    Sound pending logical :=
  ⟨sound.filed, sound.owned, sound.typed, sound.copied, sound.explains.weaken pending⟩

theorem Sound.beginTxn (sound : Sound pending logical) : Sound pending logical.beginTxn :=
  ⟨sound.filed, sound.owned, sound.typed, sound.copied, sound.explains.control rfl⟩

theorem Sound.commit (sound : Sound (some txnId) logical) : Sound none (logical.commit txnId) :=
  ⟨sound.filed, sound.owned, sound.typed, sound.copied, sound.explains.commit⟩

theorem Sound.maintain (sound : Sound pending logical) (table : String) (rid : Rid)
    (cells : List (String × Option Int64 × Option Int64)) :
    Sound pending (logical.maintain table rid cells) :=
  ⟨sound.filed, sound.owned, sound.typed, sound.copied, sound.explains⟩

section Heap

variable {catalog : Catalog} {tablePages : AList fun _ : String => List UInt32}
  {before after shadow : Heap} {numPages : ℕ} {rid : Rid}

/-- A change that keeps the lengths of the tuples of a page. -/
theorem lengths_update {heap : Heap} {pageId : UInt32}
    {change : SlottedPage → SlottedPage}
    (lengths : ∀ page, heap pageId = some page → (change page).lengths = page.lengths)
    (other : UInt32) :
    (heap.update pageId change other).map SlottedPage.lengths =
      (heap other).map SlottedPage.lengths := by
  by_cases same : other = pageId
  · subst same
    cases found : heap other with
    | none => simp [Heap.update, found]
    | some page => simp [Heap.update, found, lengths page found]
  · simp [Heap.update, same]

/-- The pages of the log manager when one slot of a page has changed. -/
theorem Copied.touch {shadow' : Heap} (copied : Copied before shadow numPages)
    (lengths : ∀ pageId, (after pageId).map SlottedPage.lengths =
      (before pageId).map SlottedPage.lengths)
    (copyLengths : ∀ pageId, (shadow' pageId).map SlottedPage.lengths =
      (shadow pageId).map SlottedPage.lengths) :
    Copied after shadow' numPages where
  shaped := by
    intro pageId page present
    have same := lengths pageId
    have sameCopy := copyLengths pageId
    rw [present, Option.map_some, eq_comm, Option.map_eq_some_iff] at same
    rcases same with ⟨old, found, oldLengths⟩
    rcases copied.shaped found with ⟨copy, copyFound, shape⟩
    rw [copyFound, Option.map_some, Option.map_eq_some_iff] at sameCopy
    rcases sameCopy with ⟨copy', copyFound', copyLengths'⟩
    exact ⟨copy', copyFound', by rw [copyLengths', shape, oldLengths]⟩
  unallocated := by
    intro pageId fresh
    simpa [copied.unallocated fresh] using copyLengths pageId
  compact := by
    intro pageId page present
    have same := lengths pageId
    rw [present, Option.map_some, eq_comm, Option.map_eq_some_iff] at same
    rcases same with ⟨old, found, oldLengths⟩
    rw [← SlottedPage.length_of_lengths oldLengths]
    exact copied.compact found

/-- The rows of the tables when one tuple has changed. -/
theorem Typed.touch (typed : Typed catalog tablePages before)
    (touches : Heap.Touches rid before after)
    (here : ∀ {table schema pageIds tuple}, catalog.get table = some schema →
      tablePages.lookup table = some pageIds → rid.pageId ∈ pageIds → after.get rid = some tuple →
      (∃ row, Encodes schema tuple row) ∧ tuple.length < 2 ^ 16) :
    Typed catalog tablePages after := by
  refine ⟨?_⟩
  intro table schema pageIds other tuple known listed inside live
  by_cases same : other = rid
  · subst same
    exact here known listed inside live
  · rw [touches.get same] at live
    exact typed.row known listed inside live

theorem get_delete (heap : Heap) (rid : Rid) :
    (heap.update rid.pageId fun page => (page.deleteTuple rid.slotId.toNat).2).get rid = none := by
  cases found : heap rid.pageId <;>
    simp [Heap.get, Heap.update, found, SlottedPage.get_deleteTuple_self]

theorem get_overwrite {heap : Heap} {oldBytes : Bytes} (live : heap.get rid = some oldBytes)
    (newBytes : Bytes) :
    (heap.update rid.pageId fun page => page.overwrite rid.slotId.toNat newBytes).get rid =
      some (newBytes ++ oldBytes.drop newBytes.length) := by
  rcases Heap.exists_page_of_get live with ⟨page, found, here⟩
  simp [Heap.get, Heap.update, found, SlottedPage.get_overwrite_self, here]

end Heap

section Steps

variable {table : String} {schema : Schema} {rid : Rid}

theorem Tidy.deleteRow (tidy : Tidy logical) (table : String) (schema : Schema) (txnId : UInt32)
    (rid : Rid) (row : Row) : Tidy (logical.deleteRow table schema txnId rid row) where
  filed := tidy.filed
  owned := by
    intro pageId
    rw [(touches_deleteRow rid row logical).isSome]
    exact tidy.owned pageId
  typed := by
    refine tidy.typed.touch (touches_deleteRow rid row logical) ?_
    intro table schema pageIds tuple _ _ _ live
    exact absurd (live.symm.trans (get_delete logical.heap rid)) (by simp)
  copied := tidy.copied.touch (lengths_update fun page _ => page.lengths_deleteTuple _)
    (lengths_update fun page _ => page.lengths_deleteTuple _)

theorem Sound.deleteRow (sound : Sound (some txnId) logical) (table : String) (schema : Schema)
    (rid : Rid) (row : Row) :
    Sound (some txnId) (logical.deleteRow table schema txnId rid row) :=
  (sound.tidy.deleteRow table schema txnId rid row).sound (sound.explains.data _ rfl trivial)

/-- Redoing an update that fits. -/
theorem redo_update {oldBytes newBytes oldData : Bytes} {lsn : UInt64}
    (live : logical.heap.get rid = some oldBytes) (fits : newBytes.length ≤ oldBytes.length) :
    logical.heap.redo (.update lsn txnId rid.pageId rid.slotId oldData newBytes) =
      logical.heap.update rid.pageId fun page => page.overwrite rid.slotId.toNat newBytes := by
  rcases Heap.exists_page_of_get live with ⟨page, found, here⟩
  rw [Heap.redo, Heap.update_of_some found, found, Option.getD_some,
    SlottedPage.updateTuple_of_get here, if_pos fits]

/-- Redoing an update that does not fit. -/
theorem redo_update_refused {oldBytes newBytes oldData : Bytes} {lsn : UInt64}
    (live : logical.heap.get rid = some oldBytes) (larger : oldBytes.length < newBytes.length) :
    logical.heap.redo (.update lsn txnId rid.pageId rid.slotId oldData newBytes) =
      logical.heap := by
  rcases Heap.exists_page_of_get live with ⟨page, found, here⟩
  rw [Heap.redo, found, Option.getD_some, SlottedPage.updateTuple_of_get here,
    if_neg (by omega), ← found, Function.update_eq_self]

theorem Tidy.updateRow {pageIds : List UInt32} {oldBytes newBytes : Bytes} {row : Row}
    (tidy : Tidy logical) (known : logical.catalog.get table = some schema)
    (listed : logical.tablePages.lookup table = some pageIds) (inside : rid.pageId ∈ pageIds)
    (live : logical.heap.get rid = some oldBytes) (encoded : schema.serializeRow row = .ok newBytes)
    (fits : newBytes.length ≤ oldBytes.length) (txnId : UInt32) (oldRow : Row) :
    Tidy (logical.updateRow table schema txnId rid oldBytes newBytes oldRow row) where
  filed := tidy.filed
  owned := by
    intro pageId
    rw [(touches_updateRow rid oldBytes newBytes oldRow row logical).isSome]
    exact tidy.owned pageId
  typed := by
    refine tidy.typed.touch (touches_updateRow rid oldBytes newBytes oldRow row logical) ?_
    intro other otherSchema otherIds tuple otherKnown otherListed otherInside rewritten
    obtain rfl := tidy.filed.apart listed otherListed inside otherInside
    obtain rfl : schema = otherSchema := by simpa [known] using otherKnown
    obtain rfl : newBytes ++ oldBytes.drop newBytes.length = tuple := by
      simpa using (get_overwrite live newBytes).symm.trans rewritten
    have short := (tidy.typed.row known listed inside live).2
    refine ⟨⟨row, newBytes, _, rfl, encoded⟩, ?_⟩
    rw [List.length_append, List.length_drop]
    omega
  copied := by
    refine tidy.copied.touch (lengths_update fun page found => ?_) fun _ => rfl
    apply page.lengths_overwrite
    intro cell here
    replace found : logical.heap rid.pageId = some page := found
    rw [Heap.get, found, Option.bind_some] at live
    obtain ⟨inside, -, rfl⟩ := SlottedPage.get_eq_some live
    obtain ⟨-, rfl⟩ := List.getElem?_eq_some_iff.mp here
    exact fits

theorem Sound.updateRow {pageIds : List UInt32} {oldBytes newBytes : Bytes} {row : Row}
    (sound : Sound (some txnId) logical) (known : logical.catalog.get table = some schema)
    (listed : logical.tablePages.lookup table = some pageIds) (inside : rid.pageId ∈ pageIds)
    (live : logical.heap.get rid = some oldBytes) (encoded : schema.serializeRow row = .ok newBytes)
    (fits : newBytes.length ≤ oldBytes.length) (oldRow : Row) :
    Sound (some txnId) (logical.updateRow table schema txnId rid oldBytes newBytes oldRow row) := by
  refine (sound.tidy.updateRow known listed inside live encoded fits txnId oldRow).sound ?_
  have told := sound.explains.data ((LogRecord.update 0 txnId rid.pageId rid.slotId oldBytes
    newBytes).withLsn logical.currentLsn) rfl trivial
  rw [Heap.redo_withLsn, redo_update live fits] at told
  exact told

/-- Inside a transaction, a refused update is one more record that changes nothing. -/
theorem Sound.refuseRow {oldBytes newBytes : Bytes} (sound : Sound (some txnId) logical)
    (live : logical.heap.get rid = some oldBytes) (larger : oldBytes.length < newBytes.length) :
    Sound (some txnId) (logical.refuseRow txnId rid oldBytes newBytes) := by
  have told := sound.explains.data ((LogRecord.update 0 txnId rid.pageId rid.slotId oldBytes
    newBytes).withLsn logical.currentLsn) rfl trivial
  rw [Heap.redo_withLsn, redo_update_refused live larger] at told
  exact ⟨sound.filed, sound.owned, sound.typed, sound.copied, told.control rfl⟩

/-- A transaction that did nothing but log a refused update is closed. -/
theorem Sound.refuseFirst {oldBytes newBytes : Bytes} (sound : Sound none logical)
    (live : logical.heap.get rid = some oldBytes) (larger : oldBytes.length < newBytes.length)
    (txnId : UInt32) : Sound none (logical.refuseRow txnId rid oldBytes newBytes) := by
  refine ⟨sound.filed, sound.owned, sound.typed, sound.copied, ?_⟩
  refine sound.explains.refuse ((LogRecord.update 0 txnId rid.pageId rid.slotId oldBytes
    newBytes).withLsn logical.currentLsn) rfl trivial ?_
  rw [Heap.redo_withLsn, redo_update_refused live larger]

end Steps

section Insert

variable {table : String} {schema : Schema} {pageId : UInt32} {rowBytes : Bytes}

/-- A page that can take a tuple; it is listed, but may not be in the heap yet. -/
structure Placed (table : String) (pageId : UInt32) (length : ℕ) (logical : Logical) : Prop where
  filed : Filed logical.catalog logical.tablePages logical.catalogFile logical.pageFiles
  owned : ∀ other, Listed logical.tablePages other ↔ (logical.heap other).isSome ∨ other = pageId
  typed : Typed logical.catalog logical.tablePages logical.heap
  copied : Copied logical.heap logical.shadow logical.numPages
  listed : ∃ pageIds, logical.tablePages.lookup table = some pageIds ∧ pageId ∈ pageIds
  room : ((logical.heap pageId).getD .empty).HasRoom length
  copy : ((logical.shadow pageId).getD .empty).lengths = ((logical.heap pageId).getD .empty).lengths
  allocated : pageId.toNat < logical.numPages

theorem get_pushTuple (room : ((logical.heap pageId).getD .empty).HasRoom rowBytes.length)
    (rid : Rid) :
    (logical.pushTuple txnId pageId rowBytes).heap.get rid =
      if rid = logical.nextRid pageId then some rowBytes else logical.heap.get rid := by
  have count := SlottedPage.length_lt_of_hasRoom _ room
  rcases rid with ⟨other, slotId⟩
  by_cases same : other = pageId
  · subst same
    have slot : slotId.toNat = ((logical.heap other).getD .empty).cells.length ↔
        (⟨other, slotId⟩ : Rid) = logical.nextRid other := by
      simp only [nextRid, Rid.mk.injEq, true_and]
      rw [← UInt16.toNat_inj, UInt16.toNat_ofNat_of_lt' (by simp [UInt16.size]; omega)]
    simp only [Heap.get, pushTuple, Function.update_self, Option.bind_some, SlottedPage.get_push,
      slot]
    split_ifs
    · rfl
    · cases logical.heap other <;> simp [SlottedPage.empty, SlottedPage.get]
  · have apart : (⟨other, slotId⟩ : Rid) ≠ logical.nextRid pageId := by simp [nextRid, same]
    rw [if_neg apart, Heap.get, pushTuple_heap_of_ne same]
    rfl

theorem Placed.pushTuple {values : List Value}
    (placed : Placed table pageId rowBytes.length logical)
    (known : logical.catalog.get table = some schema)
    (encoded : schema.serializeRow values = .ok rowBytes) (txnId : UInt32) :
    Tidy (logical.pushTuple txnId pageId rowBytes) where
  filed := placed.filed
  owned := by
    intro other
    rw [show (logical.pushTuple txnId pageId rowBytes).tablePages = logical.tablePages from rfl,
      placed.owned]
    by_cases same : other = pageId
    · subst same
      simp [Logical.pushTuple]
    · simp [pushTuple_heap_of_ne same, same]
  typed := by
    refine ⟨?_⟩
    intro other otherSchema otherIds rid tuple otherKnown otherListed inside live
    rw [get_pushTuple placed.room] at live
    split_ifs at live with fresh
    · subst fresh
      obtain rfl : rowBytes = tuple := by simpa using live
      rcases placed.listed with ⟨pageIds, listed, here⟩
      obtain rfl := placed.filed.apart listed otherListed here inside
      obtain rfl : schema = otherSchema := by
        simpa using known.symm.trans otherKnown
      exact ⟨⟨values, rowBytes, [], by simp, encoded⟩, SlottedPage.lt_of_hasRoom _ placed.room⟩
    · exact placed.typed.row otherKnown otherListed inside live
  copied := by
    refine ⟨fun {other page} present => ?_, fun {other} fresh => ?_, fun {other page} present => ?_⟩
    · by_cases same : other = pageId
      · subst same
        obtain rfl : ((logical.heap other).getD .empty).push rowBytes = page := by
          simpa [Logical.pushTuple] using present
        refine ⟨((logical.shadow other).getD .empty).push rowBytes, ?_, ?_⟩
        · simp [Logical.pushTuple, Logical.logInsert, Logical.append]
        · simp [placed.copy]
      · rw [pushTuple_heap_of_ne same] at present
        rcases placed.copied.shaped present with ⟨copy, found, lengths⟩
        exact ⟨copy, (Function.update_of_ne same _ _).trans found, lengths⟩
    · have apart : other ≠ pageId := by
        rintro rfl
        exact absurd placed.allocated (not_lt.mpr fresh)
      exact (Function.update_of_ne apart _ _).trans (placed.copied.unallocated fresh)
    · by_cases same : other = pageId
      · subst same
        obtain rfl : ((logical.heap other).getD .empty).push rowBytes = page := by
          simpa [Logical.pushTuple] using present
        simpa [SlottedPage.push] using SlottedPage.length_lt_of_hasRoom _ placed.room
      · rw [pushTuple_heap_of_ne same] at present
        exact placed.copied.compact present

/-- The log tells of the tuple that was put on the page. -/
theorem Placed.explains (placed : Placed table pageId rowBytes.length logical)
    (explains : Explains none logical.log logical.heap) (txnId : UInt32) :
    Explains (some txnId) (logical.pushTuple txnId pageId rowBytes).log
      (logical.pushTuple txnId pageId rowBytes).heap := by
  have told := (explains.weaken (some txnId)).data
    (LogRecord.insert logical.currentLsn txnId pageId
      (UInt16.ofNat ((logical.shadow pageId).getD .empty).cells.length) rowBytes) rfl
    (SlottedPage.lt_of_hasRoom _ placed.room)
  simp only [Heap.redo, if_pos placed.room] at told
  exact told

theorem Placed.insertRow {values : List Value}
    (placed : Placed table pageId rowBytes.length logical)
    (explains : Explains none logical.log logical.heap)
    (known : logical.catalog.get table = some schema)
    (encoded : schema.serializeRow values = .ok rowBytes) (txnId : UInt32) :
    Sound none (logical.insertRow table schema values rowBytes txnId pageId) :=
  (((placed.pushTuple known encoded txnId).sound (placed.explains explains txnId)).maintain
    _ _ _).commit

/-- The page lists after a new page was entered. -/
theorem lookup_listPage (logical : Logical) (table : String) (pageId : UInt32) (other : String) :
    (logical.listPage table pageId).tablePages.lookup other =
      if other = table then some ((logical.tablePages.lookup table).getD [] ++ [pageId])
      else logical.tablePages.lookup other := by
  split_ifs with same
  · subst same
    simp [listPage]
  · simp [listPage, AList.lookup_insert_ne same]

theorem lookup_pageFiles_listPage (logical : Logical) (table : String) (pageId : UInt32)
    (other : String) :
    (logical.listPage table pageId).pageFiles.lookup other =
      if other = table then some ((logical.tablePages.lookup table).getD [] ++ [pageId])
      else logical.pageFiles.lookup other := by
  split_ifs with same
  · subst same
    simp [listPage]
  · simp [listPage, AList.lookup_insert_ne same]

/-- A page that no table lists is entered into the list of a table. -/
theorem Filed.listPage {pageIds : List UInt32}
    (filed : Filed logical.catalog logical.tablePages logical.catalogFile logical.pageFiles)
    (listed : logical.tablePages.lookup table = some pageIds)
    (unlisted : ¬Listed logical.tablePages pageId) :
    Filed logical.catalog (logical.listPage table pageId).tablePages logical.catalogFile
      (logical.listPage table pageId).pageFiles where
  tables := by
    intro other
    rw [lookup_listPage, filed.tables]
    split_ifs with same
    · subst same
      simp [listed]
    · rfl
  schemas := filed.schemas
  loaded := filed.loaded
  indexDefs := filed.indexDefs
  pageFiles := by
    intro other
    rw [lookup_listPage, lookup_pageFiles_listPage, filed.pageFiles]
  nodup := by
    intro other otherIds found
    rw [lookup_listPage] at found
    split_ifs at found with same
    · subst same
      obtain rfl : pageIds ++ [pageId] = otherIds := by simpa [listed] using found
      rw [List.nodup_append]
      refine ⟨filed.nodup listed, by simp, ?_⟩
      intro left leftInside right rightInside same
      obtain rfl : right = pageId := by simpa using rightInside
      exact unlisted ⟨_, _, listed, same ▸ leftInside⟩
    · exact filed.nodup found
  apart := by
    intro first second firstIds secondIds shared firstFound secondFound inFirst inSecond
    rw [lookup_listPage] at firstFound secondFound
    have old {other : String} {otherIds : List UInt32}
        (found : logical.tablePages.lookup other = some otherIds) (inside : shared ∈ otherIds) :
        shared ≠ pageId := by
      rintro rfl
      exact unlisted ⟨_, _, found, inside⟩
    split_ifs at firstFound secondFound with isFirst isSecond isSecond
    · rw [isFirst, isSecond]
    · obtain rfl : pageIds ++ [pageId] = firstIds := by simpa [listed] using firstFound
      have inside : shared ∈ pageIds := by simpa [old secondFound inSecond] using inFirst
      exact isFirst.trans (filed.apart listed secondFound inside inSecond)
    · obtain rfl : pageIds ++ [pageId] = secondIds := by simpa [listed] using secondFound
      have inside : shared ∈ pageIds := by simpa [old firstFound inFirst] using inSecond
      exact (filed.apart firstFound listed inFirst inside).trans isSecond.symm
    · exact filed.apart firstFound secondFound inFirst inSecond

theorem listed_listPage {pageIds : List UInt32}
    (listed : logical.tablePages.lookup table = some pageIds)
    (other : UInt32) : Listed (logical.listPage table pageId).tablePages other ↔
      Listed logical.tablePages other ∨ other = pageId := by
  constructor
  · rintro ⟨owner, ownIds, found, inside⟩
    rw [lookup_listPage] at found
    split_ifs at found with same
    · obtain rfl : pageIds ++ [pageId] = ownIds := by simpa [listed] using found
      rcases List.mem_append.mp inside with old | new
      · exact .inl ⟨table, pageIds, listed, old⟩
      · exact .inr (by simpa using new)
    · exact .inl ⟨owner, ownIds, found, inside⟩
  · rintro (⟨owner, ownIds, found, inside⟩ | rfl)
    · by_cases same : owner = table
      · subst same
        refine ⟨owner, pageIds ++ [pageId], by simp [lookup_listPage, listed], ?_⟩
        obtain rfl : pageIds = ownIds := by simpa [listed] using found
        simp [inside]
      · exact ⟨owner, ownIds, by simp [lookup_listPage, same, found], inside⟩
    · exact ⟨table, pageIds ++ [other], by simp [lookup_listPage, listed], by simp⟩

theorem Tidy.placed_fresh {pageIds : List UInt32} {length : ℕ} (tidy : Tidy logical)
    (missing : logical.heap logical.nextPageId = none)
    (nextPageId : logical.nextPageId.toNat = logical.numPages)
    (listed : logical.tablePages.lookup table = some pageIds)
    (room : SlottedPage.empty.HasRoom length) :
    Placed table logical.nextPageId length (logical.allocate.listPage table logical.nextPageId)
      where
  filed := by
    refine tidy.filed.listPage listed fun owned => ?_
    rw [← tidy.owned, missing] at owned
    simp at owned
  owned := by
    intro other
    exact (listed_listPage listed other).trans (or_congr_left (tidy.owned other).symm)
  typed := by
    refine ⟨fun {owner schema ownIds rid tuple} known found inside live => ?_⟩
    have apart : rid.pageId ≠ logical.nextPageId := by
      rcases Heap.exists_page_of_get live with ⟨page, here, -⟩
      intro same
      rw [same] at here
      exact absurd (missing.symm.trans here) (by simp)
    rw [lookup_listPage] at found
    split_ifs at found with same
    · subst same
      obtain rfl : pageIds ++ [logical.nextPageId] = ownIds := by
        simpa [allocate, listed] using found
      exact tidy.typed.row known listed (by simpa [apart] using inside) live
    · exact tidy.typed.row known found inside live
  copied := by
    refine ⟨tidy.copied.shaped, fun {other} fresh => tidy.copied.unallocated ?_,
      tidy.copied.compact⟩
    have : logical.numPages + 1 ≤ other.toNat := fresh
    omega
  listed := ⟨pageIds ++ [logical.nextPageId], by simp [lookup_listPage, allocate, listed], by simp⟩
  room := by
    rw [show (logical.allocate.listPage table logical.nextPageId).heap = logical.heap from
      rfl, missing]
    exact room
  copy := by
    rw [show (logical.allocate.listPage table logical.nextPageId).heap = logical.heap from rfl,
      show (logical.allocate.listPage table logical.nextPageId).shadow = logical.shadow from rfl,
      missing, tidy.copied.unallocated nextPageId.ge]
  allocated := by
    rw [nextPageId]
    exact Nat.lt_succ_self _

/-- First fit, or a new page. -/
theorem Tidy.placed {pageIds : List UInt32} {length : ℕ} {logical' : Logical}
    (tidy : Tidy logical) (missing : logical.heap logical.nextPageId = none)
    (nextPageId : logical.nextPageId.toNat = logical.numPages)
    (bounded : ∀ {pageId page}, logical.heap pageId = some page → pageId.toNat < logical.numPages)
    (listed : logical.tablePages.lookup table = some pageIds)
    (placed : logical.place table length pageIds = some (pageId, logical')) :
    Placed table pageId length logical' := by
  rw [place] at placed
  cases chosen : logical.firstFit length pageIds with
  | none =>
      rw [chosen] at placed
      dsimp only at placed
      split_ifs at placed with room
      obtain ⟨rfl, rfl⟩ : logical.nextPageId = pageId ∧
          logical.allocate.listPage table logical.nextPageId = logical' := by simpa using placed
      exact tidy.placed_fresh missing nextPageId listed room
  | some chosenId =>
      rw [chosen] at placed
      obtain ⟨rfl, rfl⟩ : chosenId = pageId ∧ logical = logical' := by simpa using placed
      have inside : chosenId ∈ pageIds := List.mem_of_find?_eq_some chosen
      obtain ⟨page, found, enough⟩ : ∃ page, logical.heap chosenId = some page ∧
          length + 5 ≤ page.freeSpace := by
        simpa [Option.any_eq_true] using List.find?_some chosen
      rcases tidy.copied.shaped found with ⟨copy, copyFound, lengths⟩
      refine ⟨tidy.filed, fun other => ?_, tidy.typed, tidy.copied,
        ⟨pageIds, listed, inside⟩, ?_, ?_, bounded found⟩
      · rw [← tidy.owned]
        refine ⟨.inl, ?_⟩
        rintro (present | rfl)
        · exact present
        · simp [found]
      · rw [found]
        exact page.hasRoom_of_freeSpace enough
      · rw [found, copyFound]
        exact lengths

/-- Choosing a page does not touch the catalog. -/
theorem place_catalog {pageIds : List UInt32} {length : ℕ} {logical' : Logical}
    (placed : logical.place table length pageIds = some (pageId, logical')) :
    logical'.catalog = logical.catalog := by
  unfold place at placed
  split at placed
  · obtain ⟨-, rfl⟩ : _ ∧ logical = logical' := by simpa using placed
    rfl
  · split_ifs at placed
    obtain ⟨-, rfl⟩ : _ ∧ logical.allocate.listPage table logical.nextPageId = logical' := by
      simpa using placed
    rfl

/-- Nor the log or the heap. -/
theorem place_explains {pageIds : List UInt32} {length : ℕ} {logical' : Logical}
    (placed : logical.place table length pageIds = some (pageId, logical'))
    (explains : Explains none logical.log logical.heap) :
    Explains none logical'.log logical'.heap := by
  unfold place at placed
  split at placed
  · obtain ⟨-, rfl⟩ : _ ∧ logical = logical' := by simpa using placed
    exact explains
  · split_ifs at placed
    obtain ⟨-, rfl⟩ : _ ∧ logical.allocate.listPage table logical.nextPageId = logical' := by
      simpa using placed
    exact explains

theorem Tidy.wastePage (tidy : Tidy logical)
    (missing : logical.heap logical.nextPageId = none)
    (nextPageId : logical.nextPageId.toNat = logical.numPages) :
    Tidy (logical.wastePage logical.nextPageId) := by
  refine ⟨tidy.filed, tidy.owned, tidy.typed, ⟨fun {other page} present => ?_,
    fun {other} fresh => ?_, tidy.copied.compact⟩⟩
  · have apart : other ≠ logical.nextPageId := by
      rintro rfl
      exact absurd (missing.symm.trans present) (by simp)
    rcases tidy.copied.shaped present with ⟨copy, found, lengths⟩
    exact ⟨copy, (Function.update_of_ne apart _ _).trans found, lengths⟩
  · have above : logical.numPages + 1 ≤ other.toNat := fresh
    have apart : other ≠ logical.nextPageId := by
      rintro rfl
      omega
    exact (Function.update_of_ne apart _ _).trans (tidy.copied.unallocated (by omega))

end Insert

section CreateTable

variable {schema : Schema}

theorem Sound.createIndexOf (sound : Sound pending logical) (schema : Schema) :
    Sound pending (logical.createIndexOf schema) :=
  ⟨sound.filed, sound.owned, sound.typed, sound.copied, sound.explains⟩

theorem get_addTable (logical : Logical) (order : HashOrder) (schema : Schema) (table : String) :
    (logical.addTable order schema).catalog.get table =
      if table = schema.name then some schema else logical.catalog.get table := by
  split_ifs with same
  · subst same
    simp [addTable, Catalog.get]
  · simp [addTable, Catalog.get, AList.lookup_insert_ne same]

theorem lookup_addTable (logical : Logical) (order : HashOrder) (schema : Schema) (table : String) :
    (logical.addTable order schema).tablePages.lookup table =
      if table = schema.name then some [] else logical.tablePages.lookup table := by
  split_ifs with same
  · subst same
    simp [addTable]
  · simp [addTable, AList.lookup_insert_ne same]

theorem lookup_pageFiles_addTable (logical : Logical) (order : HashOrder) (schema : Schema)
    (table : String) :
    (logical.addTable order schema).pageFiles.lookup table =
      if table = schema.name then some [] else logical.pageFiles.lookup table := by
  split_ifs with same
  · subst same
    simp [addTable]
  · simp [addTable, AList.lookup_insert_ne same]

theorem Tidy.addTable (tidy : Tidy logical) (order : HashOrder)
    (new : logical.catalog.get schema.name = none)
    (wellFormed : schema = Schema.new schema.name schema.columns) :
    Tidy (logical.addTable order schema) := by
  -- the new table has no pages, so every listed page is one of an old table
  have old {table : String} {pageIds : List UInt32} {pageId : UInt32}
      (found : (logical.addTable order schema).tablePages.lookup table = some pageIds)
      (inside : pageId ∈ pageIds) :
      table ≠ schema.name ∧ logical.tablePages.lookup table = some pageIds := by
    rw [lookup_addTable] at found
    split_ifs at found with same
    · obtain rfl : [] = pageIds := by simpa using found
      simp at inside
    · exact ⟨same, found⟩
  have schemas {table : String} {found : Schema}
      (known : (logical.addTable order schema).catalog.get table = some found) :
      found = Schema.new table found.columns := by
    rw [get_addTable] at known
    split_ifs at known with same
    · obtain rfl : schema = found := by simpa using known
      rw [same]
      exact wellFormed
    · exact tidy.filed.schemas known
  refine ⟨⟨?_, schemas, ?_, rfl, ?_, ?_, ?_⟩, ?_, ⟨?_⟩, tidy.copied⟩
  · intro table
    rw [get_addTable, lookup_addTable]
    split_ifs
    · rfl
    · exact tidy.filed.tables table
  · exact fun table => CatalogFile.get_load_save order schemas table
  · intro table
    rw [lookup_addTable, lookup_pageFiles_addTable, tidy.filed.pageFiles]
  · intro table pageIds found
    rw [lookup_addTable] at found
    split_ifs at found
    · obtain rfl : [] = pageIds := by simpa using found
      exact List.nodup_nil
    · exact tidy.filed.nodup found
  · intro first second firstIds secondIds pageId firstFound secondFound inFirst inSecond
    exact tidy.filed.apart (old firstFound inFirst).2 (old secondFound inSecond).2 inFirst inSecond
  · intro pageId
    rw [show (logical.addTable order schema).heap = logical.heap from rfl, tidy.owned]
    constructor
    · rintro ⟨table, pageIds, found, inside⟩
      have other : table ≠ schema.name := by
        rintro rfl
        have missing := tidy.filed.tables schema.name
        rw [new, found] at missing
        simp at missing
      exact ⟨table, pageIds, by rw [lookup_addTable, if_neg other, found], inside⟩
    · rintro ⟨table, pageIds, found, inside⟩
      exact ⟨table, pageIds, (old found inside).2, inside⟩
  · intro table tableSchema pageIds rid tuple known found inside live
    rcases old found inside with ⟨other, oldFound⟩
    rw [get_addTable, if_neg other] at known
    exact tidy.typed.row known oldFound inside live

end CreateTable

section Transact

variable {table : String} {schema : Schema} {pageIds : List UInt32}

theorem rewriteRow_eq_ok {manager : IndexManager} {assignments : List Assignment} {oldRow row : Row}
    {bytes : Bytes}
    (rewritten : Executor.rewriteRow schema manager table assignments oldRow = .ok (row, bytes)) :
    Executor.checkUpdateKey schema manager table oldRow assignments = .ok () ∧
      Executor.applyAssignments schema assignments oldRow = .ok row ∧
      schema.serializeRow row = .ok bytes := by
  rw [Executor.rewriteRow] at rewritten
  rcases checked : Executor.checkUpdateKey schema manager table oldRow assignments with failure | _
  · simp [checked, bind, Except.bind] at rewritten
  rcases applied : Executor.applyAssignments schema assignments oldRow with failure | row'
  · simp [checked, applied, bind, Except.bind] at rewritten
  rcases encoded : schema.serializeRow row' with failure | bytes'
  · simp [checked, applied, encoded, bind, Except.bind] at rewritten
  obtain ⟨rfl, rfl⟩ : row' = row ∧ bytes' = bytes := by
    simpa [checked, applied, encoded, bind, Except.bind, pure, Except.pure] using rewritten
  exact ⟨rfl, rfl, encoded⟩

/-- Between two rows of a scan: the tables are those of the start. -/
structure Amid (start logical : Logical) : Prop where
  tidy : Tidy logical
  catalog : logical.catalog = start.catalog
  tablePages : logical.tablePages = start.tablePages

theorem Amid.deleteStep {start : Logical} (amid : Amid start logical) (table : String)
    (schema : Schema) (filter : Option Expr) (txnId : UInt32) (rid : Rid) (tuple : Bytes) :
    Amid start (deleteStep table schema filter txnId rid tuple () logical).2 := by
  rcases deleteStep_cases table schema filter txnId rid tuple logical with
    ⟨failure, -, run⟩ | ⟨-, run⟩ | ⟨row, -, run⟩
  · exact run ▸ amid
  · exact run ▸ amid
  · exact run ▸ ⟨amid.tidy.deleteRow table schema txnId rid row, amid.catalog, amid.tablePages⟩

theorem Amid.updateStep {start : Logical} (amid : Amid start logical)
    (known : start.catalog.get table = some schema)
    (listed : start.tablePages.lookup table = some pageIds) {rid : Rid} {tuple : Bytes}
    (inside : rid.pageId ∈ pageIds) (live : logical.heap.get rid = some tuple)
    (assignments : List Assignment) (filter : Option Expr) (txnId : UInt32) :
    Amid start (updateStep table schema assignments filter txnId rid tuple () logical).2 := by
  rw [← amid.catalog] at known
  rw [← amid.tablePages] at listed
  rcases updateStep_cases table schema assignments filter txnId rid tuple logical with
    ⟨failure, run, -⟩ | ⟨-, run⟩ |
      ⟨oldRow, row, newBytes, -, rewritten, ⟨fits, run⟩ | ⟨larger, run⟩⟩
  · exact run ▸ amid
  · exact run ▸ amid
  · rcases rewriteRow_eq_ok rewritten with ⟨-, -, encoded⟩
    exact run ▸ ⟨amid.tidy.updateRow known listed inside live encoded fits txnId oldRow,
      amid.catalog, amid.tablePages⟩
  · exact run ▸ ⟨amid.tidy.refuseRow txnId rid tuple newBytes, amid.catalog, amid.tablePages⟩

/-- What every step of a scan keeps: soundness inside the transaction, and the tables. -/
structure InTxn (txnId : UInt32) (start logical : Logical) : Prop where
  sound : Sound (some txnId) logical
  catalog : logical.catalog = start.catalog
  tablePages : logical.tablePages = start.tablePages

theorem InTxn.deleteStep {start : Logical} (inTxn : InTxn txnId start logical) (table : String)
    (schema : Schema) (filter : Option Expr) (rid : Rid) (tuple : Bytes) :
    InTxn txnId start (deleteStep table schema filter txnId rid tuple () logical).2 := by
  rcases deleteStep_cases table schema filter txnId rid tuple logical with
    ⟨failure, -, run⟩ | ⟨-, run⟩ | ⟨row, -, run⟩
  · exact run ▸ inTxn
  · exact run ▸ inTxn
  · exact run ▸ ⟨inTxn.sound.deleteRow table schema rid row, inTxn.catalog, inTxn.tablePages⟩

theorem InTxn.updateStep {start : Logical} (inTxn : InTxn txnId start logical)
    (known : start.catalog.get table = some schema)
    (listed : start.tablePages.lookup table = some pageIds) {rid : Rid} {tuple : Bytes}
    (inside : rid.pageId ∈ pageIds) (live : logical.heap.get rid = some tuple)
    (assignments : List Assignment) (filter : Option Expr) :
    InTxn txnId start
      (updateStep table schema assignments filter txnId rid tuple () logical).2 := by
  rw [← inTxn.catalog] at known
  rw [← inTxn.tablePages] at listed
  rcases updateStep_cases table schema assignments filter txnId rid tuple logical with
    ⟨failure, run, -⟩ | ⟨-, run⟩ |
      ⟨oldRow, row, newBytes, -, rewritten, ⟨fits, run⟩ | ⟨larger, run⟩⟩
  · exact run ▸ inTxn
  · exact run ▸ inTxn
  · rcases rewriteRow_eq_ok rewritten with ⟨-, -, encoded⟩
    exact run ▸ ⟨inTxn.sound.updateRow known listed inside live encoded fits oldRow, inTxn.catalog,
      inTxn.tablePages⟩
  · exact run ▸ ⟨inTxn.sound.refuseRow live larger, inTxn.catalog, inTxn.tablePages⟩

/-- The entries of a scan of the pages of a table. -/
theorem Tidy.nodup_live (tidy : Tidy logical)
    (listed : logical.tablePages.lookup table = some pageIds) :
    ((logical.heap.live pageIds).map Prod.fst).Nodup :=
  Heap.nodup_live (tidy.filed.nodup listed) tidy.copied.compact

theorem Tidy.scan_delete (tidy : Tidy logical)
    (listed : logical.tablePages.lookup table = some pageIds) (schema : Schema)
    (filter : Option Expr) :
    Amid logical (logical.beginTxn.scan (deleteStep table schema filter logical.nextTxnId)
      (logical.heap.live pageIds) ()).state :=
  scan_preserves_live isLocal_deleteStep (Amid logical) (tidy.nodup_live listed)
    (fun entry _ _ _ amid _ => amid.deleteStep table schema filter _ entry.1 entry.2) ()
    (fun _ inside => (Heap.mem_live.mp inside).2) ⟨tidy.beginTxn, rfl, rfl⟩

theorem Tidy.scan_update (tidy : Tidy logical) (known : logical.catalog.get table = some schema)
    (listed : logical.tablePages.lookup table = some pageIds) (assignments : List Assignment)
    (filter : Option Expr) :
    Amid logical (logical.beginTxn.scan
      (updateStep table schema assignments filter logical.nextTxnId)
      (logical.heap.live pageIds) ()).state :=
  scan_preserves_live isLocal_updateStep (Amid logical) (tidy.nodup_live listed)
    (fun _ inside _ _ amid live => amid.updateStep known listed (Heap.mem_live.mp inside).1 live
      assignments filter _) ()
    (fun _ inside => (Heap.mem_live.mp inside).2) ⟨tidy.beginTxn, rfl, rfl⟩

theorem Sound.nodup_live (sound : Sound pending logical)
    (listed : logical.tablePages.lookup table = some pageIds) :
    ((logical.heap.live pageIds).map Prod.fst).Nodup :=
  sound.tidy.nodup_live listed

theorem Sound.inTxn (sound : Sound none logical) :
    InTxn logical.nextTxnId logical logical.beginTxn :=
  ⟨sound.beginTxn.weaken _, rfl, rfl⟩

theorem Sound.scan_delete (sound : Sound none logical)
    (listed : logical.tablePages.lookup table = some pageIds) (schema : Schema)
    (filter : Option Expr) :
    InTxn logical.nextTxnId logical
      (logical.beginTxn.scan (deleteStep table schema filter logical.nextTxnId)
        (logical.heap.live pageIds) ()).state :=
  scan_preserves_live isLocal_deleteStep (InTxn logical.nextTxnId logical) (sound.nodup_live listed)
    (fun entry _ _ _ inTxn _ => inTxn.deleteStep table schema filter entry.1 entry.2) ()
    (fun _ inside => (Heap.mem_live.mp inside).2) sound.inTxn

theorem Sound.scan_update (sound : Sound none logical)
    (known : logical.catalog.get table = some schema)
    (listed : logical.tablePages.lookup table = some pageIds) (assignments : List Assignment)
    (filter : Option Expr) :
    InTxn logical.nextTxnId logical
      (logical.beginTxn.scan (updateStep table schema assignments filter logical.nextTxnId)
        (logical.heap.live pageIds) ()).state :=
  scan_preserves_live isLocal_updateStep (InTxn logical.nextTxnId logical) (sound.nodup_live listed)
    (fun _ inside _ _ inTxn live => inTxn.updateStep known listed (Heap.mem_live.mp inside).1 live
      assignments filter) ()
    (fun _ inside => (Heap.mem_live.mp inside).2) sound.inTxn

theorem skips_deleteStep (table : String) (schema : Schema) (filter : Option Expr)
    (txnId : UInt32) :
    Skips (deleteStep table schema filter txnId) := by
  intro rid tuple result result' logical logical' skipped
  rcases deleteStep_cases table schema filter txnId rid tuple logical with
    ⟨failure, -, run⟩ | ⟨-, run⟩ | ⟨row, -, run⟩ <;> rw [run] at skipped <;> simp_all

theorem skips_updateStep (table : String) (schema : Schema) (assignments : List Assignment)
    (filter : Option Expr) (txnId : UInt32) :
    Skips (updateStep table schema assignments filter txnId) := by
  intro rid tuple result result' logical logical' skipped
  rcases updateStep_cases table schema assignments filter txnId rid tuple logical with
    ⟨failure, run, -⟩ | ⟨-, run⟩ |
      ⟨oldRow, row, newBytes, -, -, ⟨-, run⟩ | ⟨-, run⟩⟩ <;> rw [run] at skipped <;> simp_all

/-- A scan in a transaction keeps soundness if it succeeds or fails before a change. -/
theorem Sound.transact
    {step : UInt32 → Rid → Bytes → Unit → Fallible Failure Logical (Bool × Unit)}
    (scanned : InTxn logical.nextTxnId logical
      (logical.beginTxn.scan (step logical.nextTxnId) (logical.heap.live pageIds) ()).state)
    (unchanged : ∀ {failure}, (logical.beginTxn.scan (step logical.nextTxnId)
        (logical.heap.live pageIds) ()).result = .error failure →
      (logical.beginTxn.scan (step logical.nextTxnId) (logical.heap.live pageIds) ()).changed =
        false →
      Sound none
        (logical.beginTxn.scan (step logical.nextTxnId) (logical.heap.live pageIds) ()).state)
    (kept : (∃ rows, (logical.transact step pageIds).result = .ok rows) ∨
      (logical.transact step pageIds).changed = false) :
    Sound none (logical.transact step pageIds).state := by
  rw [Logical.transact] at kept ⊢
  generalize logical.beginTxn.scan (step logical.nextTxnId) (logical.heap.live pageIds) () =
    ended at *
  rcases ended with ⟨failure | _, changed, logical'⟩
  · rcases kept with ⟨rows, impossible⟩ | same
    · simp at impossible
    · exact unchanged rfl same
  · exact scanned.sound.commit

theorem Sound.transact_delete (sound : Sound none logical)
    (listed : logical.tablePages.lookup table = some pageIds) (filter : Option Expr)
    (kept : (∃ rows, (logical.transact (deleteStep table schema filter) pageIds).result =
      .ok rows) ∨
      (logical.transact (deleteStep table schema filter) pageIds).changed = false) :
    Sound none (logical.transact (deleteStep table schema filter) pageIds).state := by
  refine Sound.transact (sound.scan_delete listed schema filter) (fun failed same => ?_) kept
  rcases scan_unchanged (skips_deleteStep table schema filter logical.nextTxnId) () same with
    ⟨result, ok, -⟩ | ⟨entry, -, failure, _, -, run⟩
  · simp [failed] at ok
  · rcases deleteStep_cases table schema filter logical.nextTxnId entry.1 entry.2
      logical.beginTxn with ⟨failure, -, run'⟩ | ⟨-, run'⟩ | ⟨row, -, run'⟩
    · rw [← (Prod.mk.inj (run'.symm.trans run)).2]
      exact sound.beginTxn
    · exact absurd (congrArg Prod.fst (run'.symm.trans run)) (by simp)
    · exact absurd (congrArg Prod.fst (run'.symm.trans run)) (by simp)

theorem Sound.transact_update (sound : Sound none logical)
    (known : logical.catalog.get table = some schema)
    (listed : logical.tablePages.lookup table = some pageIds) (assignments : List Assignment)
    (filter : Option Expr)
    (kept : (∃ rows, (logical.transact (updateStep table schema assignments filter)
        pageIds).result = .ok rows) ∨
      (logical.transact (updateStep table schema assignments filter) pageIds).changed = false) :
    Sound none (logical.transact (updateStep table schema assignments filter) pageIds).state := by
  refine Sound.transact (sound.scan_update known listed assignments filter) (fun failed same => ?_)
    kept
  rcases scan_unchanged (skips_updateStep table schema assignments filter logical.nextTxnId)
    () same with
    ⟨result, ok, -⟩ | ⟨entry, inside, failure, _, -, run⟩
  · simp [failed] at ok
  · have live : logical.beginTxn.heap.get entry.1 = some entry.2 := (Heap.mem_live.mp inside).2
    rcases updateStep_cases table schema assignments filter logical.nextTxnId entry.1 entry.2
      logical.beginTxn with ⟨failure, run', -⟩ | ⟨-, run'⟩ |
        ⟨oldRow, row, newBytes, -, -, ⟨-, run'⟩ | ⟨larger, run'⟩⟩
    · rw [← (Prod.mk.inj (run'.symm.trans run)).2]
      exact sound.beginTxn
    · exact absurd (congrArg Prod.fst (run'.symm.trans run)) (by simp)
    · exact absurd (congrArg Prod.fst (run'.symm.trans run)) (by simp)
    · rw [← (Prod.mk.inj (run'.symm.trans run)).2]
      exact sound.beginTxn.refuseFirst live larger _

end Transact

/-- Page ids have 32 bits, and those of the heap have been given out. -/
structure Bounded (logical : Logical) : Prop where
  small : logical.numPages < 2 ^ 32
  allocated : ∀ {pageId page}, logical.heap pageId = some page → pageId.toNat < logical.numPages

theorem Bounded.toNat_nextPageId (bounded : Bounded logical) :
    logical.nextPageId.toNat = logical.numPages :=
  UInt32.toNat_ofNat_of_lt' (by simpa [UInt32.size] using bounded.small)

theorem Bounded.missing (bounded : Bounded logical) : logical.heap logical.nextPageId = none := by
  by_contra present
  rcases Option.ne_none_iff_exists'.mp present with ⟨page, found⟩
  have lt := bounded.allocated found
  rw [bounded.toNat_nextPageId] at lt
  omega

theorem Tidy.execInsert (tidy : Tidy logical) (bounded : Bounded logical) (table : String)
    (values : List Value) : Tidy (logical.execInsert table values).state := by
  rw [Logical.execInsert]
  cases known : logical.catalog.get table with
  | none => exact tidy
  | some schema =>
      dsimp only
      rcases Executor.checkInsertKey schema logical.indexManager table values with failure | _
      · exact tidy
      rcases encoded : schema.serializeRow values with failure | rowBytes
      · exact tidy
      cases listed : logical.tablePages.lookup table with
      | none => exact tidy.beginTxn
      | some pageIds =>
          dsimp only
          rw [insertBytes]
          cases placed : logical.beginTxn.place table rowBytes.length pageIds with
          | none => exact tidy.beginTxn.wastePage bounded.missing bounded.toNat_nextPageId
          | some chosen =>
              rcases chosen with ⟨pageId, logical'⟩
              have ready := tidy.beginTxn.placed bounded.missing bounded.toNat_nextPageId
                bounded.allocated listed placed
              have known' : logical'.catalog.get table = some schema := by
                rw [place_catalog placed]
                exact known
              exact ((ready.pushTuple known' encoded _).withIndexes _).commit _

theorem Sound.execInsert (sound : Sound none logical) (bounded : Bounded logical) (table : String)
    (values : List Value) : Sound none (logical.execInsert table values).state := by
  rw [Logical.execInsert]
  cases known : logical.catalog.get table with
  | none => exact sound
  | some schema =>
      dsimp only
      rcases Executor.checkInsertKey schema logical.indexManager table values with failure | _
      · exact sound
      rcases encoded : schema.serializeRow values with failure | rowBytes
      · exact sound
      cases listed : logical.tablePages.lookup table with
      | none => exact sound.beginTxn
      | some pageIds =>
          dsimp only
          rw [insertBytes]
          cases placed : logical.beginTxn.place table rowBytes.length pageIds with
          | none =>
              exact (sound.beginTxn.tidy.wastePage bounded.missing bounded.toNat_nextPageId).sound
                sound.beginTxn.explains
          | some chosen =>
              rcases chosen with ⟨pageId, logical'⟩
              have ready := sound.beginTxn.tidy.placed bounded.missing bounded.toNat_nextPageId
                bounded.allocated listed placed
              have known' : logical'.catalog.get table = some schema := by
                rw [place_catalog placed]
                exact known
              exact ready.insertRow (place_explains placed sound.beginTxn.explains) known' encoded _

variable [Build]

/-- However a statement ends, the tables stay tidy. -/
theorem Tidy.execute (tidy : Tidy logical) (bounded : Bounded logical) (order : HashOrder)
    (statement : Statement) : Tidy (logical.execute order statement).state := by
  cases statement with
  | createTable table columns =>
      simp only [Logical.execute, execCreateTable]
      split_ifs with taken
      · exact tidy.withIndexes _
      · exact Tidy.addTable (tidy.withIndexes _) order (AList.lookup_eq_none.mpr taken) rfl
  | insert table values => exact tidy.execInsert bounded table values
  | select table columns filter orderBy limit => exact tidy
  | delete table filter =>
      rw [Logical.execute, execDelete]
      cases known : logical.catalog.get table with
      | none => exact tidy
      | some schema =>
          cases listed : logical.tablePages.lookup table with
          | none => exact tidy
          | some pageIds =>
              exact transact_preserves Tidy (fun txnId tidy => tidy.commit txnId)
                (tidy.scan_delete listed schema filter).tidy
  | update table assignments filter =>
      rw [Logical.execute, execUpdate]
      cases known : logical.catalog.get table with
      | none => exact tidy
      | some schema =>
          cases listed : logical.tablePages.lookup table with
          | none => exact tidy
          | some pageIds =>
              exact transact_preserves Tidy (fun txnId tidy => tidy.commit txnId)
                (tidy.scan_update known listed assignments filter).tidy

/-- Statements keep soundness if they succeed or fail before they change a tuple. -/
theorem Sound.execute (sound : Sound none logical) (bounded : Bounded logical) (order : HashOrder)
    (statement : Statement)
    (kept : (∃ rows, (logical.execute order statement).result = .ok rows) ∨
      (logical.execute order statement).changed = false) :
    Sound none (logical.execute order statement).state := by
  cases statement with
  | createTable table columns =>
      simp only [Logical.execute, execCreateTable]
      split_ifs with duplicate
      · exact sound.createIndexOf _
      · refine ((sound.createIndexOf _).tidy.addTable order ?_ rfl).sound sound.explains
        exact AList.lookup_eq_none.mpr duplicate
  | insert table values => exact sound.execInsert bounded table values
  | select table columns filter orderBy limit => exact sound
  | delete table filter =>
      rw [Logical.execute, execDelete] at kept ⊢
      cases known : logical.catalog.get table with
      | none => exact sound
      | some schema =>
          rw [known] at kept
          cases listed : logical.tablePages.lookup table with
          | none => exact sound
          | some pageIds =>
              rw [listed] at kept
              exact sound.transact_delete listed filter kept
  | update table assignments filter =>
      rw [Logical.execute, execUpdate] at kept ⊢
      cases known : logical.catalog.get table with
      | none => exact sound
      | some schema =>
          rw [known] at kept
          cases listed : logical.tablePages.lookup table with
          | none => exact sound
          | some pageIds =>
              rw [listed] at kept
              exact sound.transact_update known listed assignments filter kept

end Logical

end VenomDb
