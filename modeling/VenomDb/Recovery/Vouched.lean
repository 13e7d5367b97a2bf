import VenomDb.Recovery.LogRecord
import VenomDb.Storage.SlottedPage

/-!
# Pages that the log vouches for

`Vouched` says how a page came about: every insertion, update and tombstone was made while the last
record of the log was the record of it, with the slot that the page chose. `Attested` reads off the
page what follows: a record for every slot, for every tombstone and for every tuple.
-/

namespace VenomDb

/-- Every change of a page was made right after its record. A hole in the file reads as zeros; a
checksum is no change. -/
inductive Vouched (pageId : UInt32) : List LogRecord → PageData → Prop
  | hole (log : List LogRecord) : Vouched pageId log Memory.zeroed
  | new (log : List LogRecord) : Vouched pageId log (Page.new pageId).data
  | later {log : List LogRecord} {data : PageData} (before : Vouched pageId log data)
      (record : LogRecord) : Vouched pageId (log ++ [record]) data
  | summed {log : List LogRecord} {data data' : PageData} (before : Vouched pageId log data)
      (same : data'.cleared = data.cleared) : Vouched pageId log data'
  | inserted {log : List LogRecord} {page page' : Page} {lsn : UInt64} {txnId : UInt32}
      {slotId : UInt16} {tuple : Bytes} (before : Vouched pageId log page.data)
      (last : log.getLast? = some (.insert lsn txnId pageId slotId tuple))
      (run : page.insertTuple tuple = .ok (some slotId, page')) : Vouched pageId log page'.data
  | updated {log : List LogRecord} {page page' : Page} {lsn : UInt64} {txnId : UInt32}
      {slotId : UInt16} {oldData newData : Bytes} (before : Vouched pageId log page.data)
      (last : log.getLast? = some (.update lsn txnId pageId slotId oldData newData))
      (run : page.updateTuple slotId newData = .ok (true, page')) : Vouched pageId log page'.data
  | deleted {log : List LogRecord} {page page' : Page} {lsn : UInt64} {txnId : UInt32}
      {slotId : UInt16} {oldData : Bytes} (before : Vouched pageId log page.data)
      (last : log.getLast? = some (.delete lsn txnId pageId slotId oldData))
      (run : page.deleteTuple slotId = .ok (true, page')) : Vouched pageId log page'.data

/-- The log has a record for everything on a page. An update may be shorter than the tuple that it
overwrites: it is at the front of the tuple then. -/
structure Attested (log : List LogRecord) (pageId : UInt32) (data : PageData) : Prop where
  slots : ∀ slotId < (Page.fromBytes pageId data).numSlots,
    ∃ lsn txnId tuple, LogRecord.insert lsn txnId pageId slotId tuple ∈ log
  tombstones : ∀ slotId < (Page.fromBytes pageId data).numSlots,
    (Page.fromBytes pageId data).getTuple slotId = .ok none →
      ∃ lsn txnId oldData, LogRecord.delete lsn txnId pageId slotId oldData ∈ log
  tuples : ∀ slotId tuple, (Page.fromBytes pageId data).getTuple slotId = .ok (some tuple) →
    (∃ lsn txnId, LogRecord.insert lsn txnId pageId slotId tuple ∈ log) ∨
      ∃ lsn txnId oldData newData,
        LogRecord.update lsn txnId pageId slotId oldData newData ∈ log ∧ newData <+: tuple

/-- The log has a record for a slot and for what is in it. -/
structure AttestedCell (log : List LogRecord) (pageId : UInt32) (slotId : UInt16) (cell : Cell) :
    Prop where
  slot : ∃ lsn txnId tuple, LogRecord.insert lsn txnId pageId slotId tuple ∈ log
  tombstone : cell.active = false →
    ∃ lsn txnId oldData, LogRecord.delete lsn txnId pageId slotId oldData ∈ log
  tuple : (∃ lsn txnId, LogRecord.insert lsn txnId pageId slotId cell.bytes ∈ log) ∨
    ∃ lsn txnId oldData newData,
      LogRecord.update lsn txnId pageId slotId oldData newData ∈ log ∧ newData <+: cell.bytes

/-- The log has records for the slots of a page and for what is in them. -/
def AttestedCells (log : List LogRecord) (pageId : UInt32) (page : SlottedPage) : Prop :=
  ∀ (slotId : UInt16) (inside : slotId.toNat < page.cells.length),
    AttestedCell log pageId slotId page.cells[slotId.toNat]

section Cells

variable {log : List LogRecord} {pageId txnId : UInt32} {lsn : UInt64} {slotId : UInt16}
  {oldData newData tuple : Bytes} {page : SlottedPage} {cell : Cell}

theorem AttestedCell.later (attested : AttestedCell log pageId slotId cell) (record : LogRecord) :
    AttestedCell (log ++ [record]) pageId slotId cell := by
  have keep {other : LogRecord} (inside : other ∈ log) : other ∈ log ++ [record] :=
    List.mem_append_left _ inside
  rcases attested with ⟨⟨lsn, txnId, tuple, inserted⟩, tombstone, written⟩
  refine ⟨⟨lsn, txnId, tuple, keep inserted⟩, fun dead => ?_, ?_⟩
  · rcases tombstone dead with ⟨lsn, txnId, oldData, deleted⟩
    exact ⟨lsn, txnId, oldData, keep deleted⟩
  · rcases written with ⟨lsn, txnId, inserted⟩ | ⟨lsn, txnId, oldData, newData, updated, front⟩
    · exact .inl ⟨lsn, txnId, keep inserted⟩
    · exact .inr ⟨lsn, txnId, oldData, newData, keep updated, front⟩

theorem AttestedCells.push (attested : AttestedCells log pageId page)
    (small : page.cells.length < 2 ^ 16)
    (inserted : .insert lsn txnId pageId (UInt16.ofNat page.cells.length) tuple ∈ log) :
    AttestedCells log pageId (page.push tuple) := by
  intro slotId inside
  simp only [SlottedPage.push, List.length_append, List.length_singleton] at inside
  rcases Nat.lt_succ_iff_lt_or_eq.mp inside with old | last
  · simpa only [SlottedPage.push, List.getElem_append_left old] using attested slotId old
  · have here : slotId = UInt16.ofNat page.cells.length := by
      rw [← last, UInt16.ofNat_toNat]
    subst here
    have back : (UInt16.ofNat page.cells.length).toNat = page.cells.length :=
      UInt16.toNat_ofNat_of_lt' small
    simp only [SlottedPage.push, back, List.getElem_concat_length]
    exact ⟨⟨lsn, txnId, tuple, inserted⟩, by simp, .inl ⟨lsn, txnId, inserted⟩⟩

theorem AttestedCells.overwrite (attested : AttestedCells log pageId page)
    (updated : .update lsn txnId pageId slotId oldData newData ∈ log) :
    AttestedCells log pageId (page.overwrite slotId.toNat newData) := by
  intro other inside
  have old : other.toNat < page.cells.length := by simpa using inside
  have before := attested other old
  simp only [SlottedPage.overwrite, List.getElem_modify]
  split_ifs with same
  · obtain rfl := UInt16.toNat.inj same
    refine ⟨before.slot, before.tombstone, .inr ⟨lsn, txnId, oldData, newData, updated, ?_⟩⟩
    exact List.prefix_append _ _
  · exact before

theorem AttestedCells.bury (attested : AttestedCells log pageId page)
    (deleted : .delete lsn txnId pageId slotId oldData ∈ log) :
    AttestedCells log pageId (page.bury slotId.toNat) := by
  intro other inside
  have old : other.toNat < page.cells.length := by simpa [SlottedPage.bury] using inside
  have before := attested other old
  simp only [SlottedPage.bury, List.getElem_modify]
  split_ifs with same
  · obtain rfl := UInt16.toNat.inj same
    exact ⟨before.slot, fun _ => ⟨lsn, txnId, oldData, deleted⟩, before.tuple⟩
  · exact before

end Cells

section Blank

variable {page page' : Page} {slotId : UInt16} {tuple newData : Bytes}

/-- A hole in the file, but for the checksum. -/
def PageData.IsBlank (data : PageData) : Prop :=
  data.cleared = PageData.cleared Memory.zeroed

/-- A hole has no slots and no room for any. -/
theorem PageData.IsBlank.header {data : PageData} (blank : data.IsBlank) :
    data.readHeader.numSlots = 0 ∧ data.readHeader.freeSpaceOffset = 0 := by
  have headers : { data.readHeader with checksum := 0 } =
      { PageData.readHeader Memory.zeroed with checksum := 0 } := by
    rw [← PageData.readHeader_cleared, ← PageData.readHeader_cleared, blank]
  simp only [PageHeader.mk.injEq] at headers
  exact ⟨headers.2.1, headers.2.2.1⟩

theorem insertTuple_ne_of_isBlank (blank : page.data.IsBlank) :
    page.insertTuple tuple ≠ .ok (some slotId, page') := by
  rcases blank.header with ⟨slots, free⟩
  intro run
  rw [Page.insertTuple, slots, free] at run
  dsimp only at run
  split_ifs at run with short full
  · simp at run
  · simp at run
  · have none : UInt16.ofNat tuple.length = 0 := by
      simpa using short
    rw [none] at full
    simp [PageHeader.size, Slot.size] at full

theorem updateTuple_ne_of_isBlank (blank : page.data.IsBlank) :
    page.updateTuple slotId newData ≠ .ok (true, page') := by
  rw [Page.updateTuple, blank.header.1, if_pos (by simp)]
  simp

theorem deleteTuple_ne_of_isBlank (blank : page.data.IsBlank) :
    page.deleteTuple slotId ≠ .ok (true, page') := by
  rw [Page.deleteTuple, blank.header.1, if_pos (by simp)]
  simp

end Blank

section Refused

variable {page page' : Page} {slotId : UInt16} {newData : Bytes}

theorem eq_of_deleteTuple_false (run : page.deleteTuple slotId = .ok (false, page')) :
    page' = page := by
  rw [Page.deleteTuple] at run
  split_ifs at run
  · simpa using run.symm
  · rcases Fallible.except_bind_eq_ok run with ⟨slot, -, rest⟩
    split_ifs at rest
    · rcases Fallible.except_bind_eq_ok rest with ⟨written, -, made⟩
      simp [pure, Except.pure] at made
    · exact (Prod.mk.inj (Except.ok.inj rest)).2.symm

theorem eq_of_updateTuple_false (run : page.updateTuple slotId newData = .ok (false, page')) :
    page' = page := by
  rw [Page.updateTuple] at run
  split_ifs at run
  · simpa using run.symm
  · rcases Fallible.except_bind_eq_ok run with ⟨slot, -, rest⟩
    split_ifs at rest
    · exact (Prod.mk.inj (Except.ok.inj rest)).2.symm
    · rcases Fallible.except_bind_eq_ok rest with ⟨written, -, made⟩
      simp [pure, Except.pure] at made
    · exact (Prod.mk.inj (Except.ok.inj rest)).2.symm

end Refused

namespace Vouched

variable {log : List LogRecord} {pageId : UInt32} {data : PageData}

section Changes

variable {page page' : Page} {lsn : UInt64} {txnId : UInt32} {slotId : UInt16} {done : Bool}
  {oldData newData : Bytes}

theorem deleteTuple (before : Vouched pageId log page.data)
    (last : log.getLast? = some (.delete lsn txnId pageId slotId oldData))
    (run : page.deleteTuple slotId = .ok (done, page')) : Vouched pageId log page'.data := by
  cases done with
  | true => exact before.deleted last run
  | false => exact eq_of_deleteTuple_false run ▸ before

theorem updateTuple (before : Vouched pageId log page.data)
    (last : log.getLast? = some (.update lsn txnId pageId slotId oldData newData))
    (run : page.updateTuple slotId newData = .ok (done, page')) :
    Vouched pageId log page'.data := by
  cases done with
  | true => exact before.updated last run
  | false => exact eq_of_updateTuple_false run ▸ before

end Changes

/-- A page that the log vouches for is a hole, or its slots are attested. -/
theorem cells (vouched : Vouched pageId log data) :
    data.IsBlank ∨ ∃ page, Represents data page ∧ AttestedCells log pageId page := by
  induction vouched with
  | hole log => exact .inl rfl
  | new log =>
      exact .inr ⟨.empty, Represents.new pageId, by simp [AttestedCells, SlottedPage.empty]⟩
  | later before record ih =>
      rcases ih with blank | ⟨page, represents, attested⟩
      · exact .inl blank
      · exact .inr ⟨page, represents, fun slotId inside => (attested slotId inside).later record⟩
  | summed before same ih =>
      rcases ih with blank | ⟨page, represents, attested⟩
      · exact .inl (same.trans blank)
      · exact .inr ⟨page, represents.congr_cleared same, attested⟩
  | @inserted log concrete concrete' lsn txnId slotId tuple before last run ih =>
      rcases ih with blank | ⟨page, represents, attested⟩
      · exact absurd run (insertTuple_ne_of_isBlank blank)
      · have outcome := represents.insertTuple_eq tuple
        rw [SlottedPage.insertTuple] at outcome
        split_ifs at outcome with room short
        · rcases outcome with ⟨other, -, represents', run'⟩
          obtain ⟨rfl, rfl⟩ : slotId = UInt16.ofNat page.cells.length ∧ concrete' = other := by
            simpa using run.symm.trans run'
          have small := Nat.lt_of_succ_lt (page.length_lt_of_hasRoom room)
          exact .inr ⟨_, represents', attested.push small (List.mem_of_getLast? last)⟩
        · simp [run] at outcome
        · simp [run] at outcome
  | @updated log concrete concrete' lsn txnId slotId oldData newData before last run ih =>
      rcases ih with blank | ⟨page, represents, attested⟩
      · exact absurd run (updateTuple_ne_of_isBlank blank)
      · rcases represents.updateTuple_eq slotId newData with ⟨other, -, represents', run', -⟩
        obtain ⟨done, rfl⟩ : true = (page.updateTuple slotId.toNat newData).1 ∧
            concrete' = other := by
          simpa using run.symm.trans run'
        rw [SlottedPage.updateTuple] at done represents'
        split_ifs at done represents' with accepts
        exact .inr ⟨_, represents', attested.overwrite (List.mem_of_getLast? last)⟩
  | @deleted log concrete concrete' lsn txnId slotId oldData before last run ih =>
      rcases ih with blank | ⟨page, represents, attested⟩
      · exact absurd run (deleteTuple_ne_of_isBlank blank)
      · rcases represents.deleteTuple_eq slotId with ⟨other, -, represents', run', -⟩
        obtain ⟨done, rfl⟩ : true = (page.deleteTuple slotId.toNat).1 ∧ concrete' = other := by
          simpa using run.symm.trans run'
        rw [SlottedPage.deleteTuple] at done represents'
        split_ifs at done represents' with live
        exact .inr ⟨_, represents', attested.bury (List.mem_of_getLast? last)⟩

/-- The log has a record for everything on a page that it vouches for. -/
theorem attested (vouched : Vouched pageId log data) : Attested log pageId data := by
  let concrete := Page.fromBytes pageId data
  rcases vouched.cells with blank | ⟨page, represents, cells⟩
  · have none : concrete.numSlots = 0 := blank.header.1
    refine ⟨?_, ?_, ?_⟩
    · intro slotId inside
      change slotId < concrete.numSlots at inside
      simp [none] at inside
    · intro slotId inside
      change slotId < concrete.numSlots at inside
      simp [none] at inside
    · intro slotId tuple read
      rw [Page.getTuple, show (Page.fromBytes pageId data).data.readHeader.numSlots = 0 from none,
        if_pos (by simp)] at read
      simp at read
  · have represents : Represents concrete.data page := represents
    have inDirectory {slotId : UInt16} (inside : slotId < concrete.numSlots) :
        slotId.toNat < page.cells.length := by
      rwa [UInt16.lt_iff_toNat_lt, represents.numSlots_eq] at inside
    refine ⟨?_, ?_, ?_⟩
    · intro slotId inside
      exact (cells slotId (inDirectory inside)).slot
    · intro slotId inside read
      have here := inDirectory inside
      rw [represents.getTuple_eq, SlottedPage.get, List.getElem?_eq_getElem here] at read
      refine (cells slotId here).tombstone ?_
      by_contra alive
      simp [alive] at read
    · intro slotId tuple read
      rw [represents.getTuple_eq] at read
      rcases SlottedPage.get_eq_some (Except.ok.inj read) with ⟨here, -, bytes⟩
      exact bytes ▸ (cells slotId here).tuple

end Vouched

end VenomDb
