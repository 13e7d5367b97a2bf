import VenomDb.Storage.SlottedPage

/-!
# Histories of a page

A page is made by `Page::new` and changed by insertions, updates and deletions. Whatever the
calls were, none leaves the page, the slot directory and the tuples do not overlap, and what
a slot shows is what the accepted calls last wrote to it.
-/

namespace VenomDb

inductive PageCall where
  | insertTuple (tuple : Bytes)
  | updateTuple (slotId : UInt16) (newData : Bytes)
  | deleteTuple (slotId : UInt16)
  deriving DecidableEq

inductive PageAnswer where
  | slot (slotId : Option UInt16)
  | changed (done : Bool)
  deriving DecidableEq

namespace PageCall

def run : PageCall → Page → Except Failure (PageAnswer × Page)
  | insertTuple tuple, page =>
      (page.insertTuple tuple).map fun (slotId, page) => (.slot slotId, page)
  | updateTuple slotId newData, page =>
      (page.updateTuple slotId newData).map fun (done, page) => (.changed done, page)
  | deleteTuple slotId, page =>
      (page.deleteTuple slotId).map fun (done, page) => (.changed done, page)

/-- The answers to a list of calls and the page after them. -/
def runAll : List PageCall → Page → Except Failure (List PageAnswer × Page)
  | [], page => .ok ([], page)
  | call :: calls, page => do
      let (answer, page) ← call.run page
      let (answers, page) ← runAll calls page
      return (answer :: answers, page)

/-- Only tuples whose length fits the 16 bits of a slot are inserted. -/
def Short : PageCall → Prop
  | insertTuple tuple => tuple.length < 2 ^ 16
  | _ => True

end PageCall

section Written

/-- What an answered call makes of the contents of the slots. -/
def PageCall.write (contents : UInt16 → Option Bytes) :
    PageCall × PageAnswer → UInt16 → Option Bytes
  | (insertTuple tuple, .slot (some slotId)) => Function.update contents slotId (some tuple)
  | (updateTuple slotId newData, .changed true) =>
      Function.update contents slotId
        ((contents slotId).map fun old => newData ++ old.drop newData.length)
  | (deleteTuple slotId, .changed true) => Function.update contents slotId none
  | _ => contents

/-- What was last written to every slot. -/
def PageCall.lastWritten (history : List (PageCall × PageAnswer)) : UInt16 → Option Bytes :=
  history.foldl PageCall.write fun _ => none

end Written

namespace Page

/-- The bytes of a slot, live or not. -/
def slotBytes (page : Page) (slotId : UInt16) : Except Failure Bytes := do
  let slot ← page.readSlot slotId
  page.data.slice slot.offset.toNat slot.length.toNat

/-- End of the header and the slot directory. -/
def directoryEnd (page : Page) : ℕ := PageHeader.size + page.numSlots.toNat * Slot.size

/-- Nothing of a slot has changed: neither its entry nor the bytes it stands for. -/
structure SlotKept (before after : Page) (slotId : UInt16) : Prop where
  tuple : after.getTuple slotId = before.getTuple slotId
  entry : slotId < before.numSlots → after.readSlot slotId = before.readSlot slotId
  bytes : slotId < before.numSlots → after.slotBytes slotId = before.slotBytes slotId

/-- The slot directory and the bytes of the slots, live or not, lie apart inside the page. -/
structure LaidOut (page : Page) : Prop where
  directory : page.directoryEnd ≤ pageSize
  entry : ∀ slotId < page.numSlots, ∃ slot, page.readSlot slotId = .ok slot ∧
    page.directoryEnd ≤ slot.offset.toNat ∧ slot.offset.toNat + slot.length.toNat ≤ pageSize
  apart : ∀ left < page.numSlots, ∀ right < page.numSlots, left ≠ right →
    ∀ slot slot', page.readSlot left = .ok slot → page.readSlot right = .ok slot' →
      slot.offset.toNat + slot.length.toNat ≤ slot'.offset.toNat ∨
        slot'.offset.toNat + slot'.length.toNat ≤ slot.offset.toNat

/-- How a call is answered and what it changes. -/
def Obeys (page : Page) : PageCall → Prop
  | .insertTuple tuple =>
      if tuple.length + 5 ≤ page.freeSpace then
        ∃ page', page.insertTuple tuple = .ok (some page.numSlots, page') ∧
          page'.numSlots.toNat = page.numSlots.toNat + 1 ∧
          page'.getTuple page.numSlots = .ok (some tuple) ∧
          ∀ other ≠ page.numSlots, SlotKept page page' other
      else page.insertTuple tuple = .ok (none, page)
  | .updateTuple slotId newData =>
      match page.getTuple slotId with
      | .ok (some old) =>
          if newData.length ≤ old.length then
            ∃ page', page.updateTuple slotId newData = .ok (true, page') ∧
              page'.numSlots = page.numSlots ∧
              page'.getTuple slotId = .ok (some (newData ++ old.drop newData.length)) ∧
              ∀ other ≠ slotId, SlotKept page page' other
          else page.updateTuple slotId newData = .ok (false, page)
      | .ok none => page.updateTuple slotId newData = .ok (false, page)
      | .error _ => False
  | .deleteTuple slotId =>
      match page.getTuple slotId with
      | .ok (some _) =>
          ∃ page', page.deleteTuple slotId = .ok (true, page') ∧
            page'.numSlots = page.numSlots ∧ page'.getTuple slotId = .ok none ∧
            ∀ other ≠ slotId, SlotKept page page' other
      | .ok none => page.deleteTuple slotId = .ok (false, page)
      | .error _ => False

end Page

namespace SlottedPage

theorem extent_updateTuple (page : SlottedPage) (slot : ℕ) (newData : Bytes) (count : ℕ) :
    (page.updateTuple slot newData).2.extent count = page.extent count :=
  page.extent_of_lengths (page.lengths_updateTuple slot newData) count

theorem extent_deleteTuple (page : SlottedPage) (slot count : ℕ) :
    (page.deleteTuple slot).2.extent count = page.extent count :=
  page.extent_of_lengths (page.lengths_deleteTuple slot) count

theorem getElem?_updateTuple_of_ne (page : SlottedPage) {slot other : ℕ} (ne : other ≠ slot)
    (newData : Bytes) :
    (page.updateTuple slot newData).2.cells[other]? = page.cells[other]? := by
  unfold updateTuple
  split
  · simp [overwrite, Ne.symm ne]
  · rfl

theorem getElem?_deleteTuple_of_ne (page : SlottedPage) {slot other : ℕ} (ne : other ≠ slot) :
    (page.deleteTuple slot).2.cells[other]? = page.cells[other]? := by
  unfold deleteTuple
  split
  · simp [bury, Ne.symm ne]
  · rfl

end SlottedPage

namespace Represents

open SlottedPage

variable {page page' : Page} {slots slots' : SlottedPage}

theorem numSlots_eq_ofNat (represents : Represents page.data slots) :
    page.numSlots = UInt16.ofNat slots.cells.length := by
  rw [← represents.numSlots_eq, UInt16.ofNat_toNat]

theorem lt_numSlots_iff (represents : Represents page.data slots) {slotId : UInt16} :
    slotId < page.numSlots ↔ slotId.toNat < slots.cells.length := by
  rw [UInt16.lt_iff_toNat_lt, represents.numSlots_eq]

theorem directoryEnd_eq (represents : Represents page.data slots) :
    page.directoryEnd = PageHeader.size + slots.cells.length * Slot.size := by
  rw [Page.directoryEnd, represents.numSlots_eq]

/-- The entry of a slot in use, with its fields as numbers. -/
theorem exists_readSlot (represents : Represents page.data slots) {slotId : UInt16}
    (inside : slotId.toNat < slots.cells.length) :
    ∃ slot, page.readSlot slotId = .ok slot ∧
      slot.offset.toNat = pageSize - slots.extent (slotId.toNat + 1) ∧
      slot.length.toNat = (slots.cells[slotId.toNat]).bytes.length := by
  have bounds := represents.cell_bounds inside
  exact ⟨_, represents.readSlot_eq inside, toNat_uint16 (Nat.sub_le _ _), toNat_uint16 bounds.2.2⟩

theorem slotBytes_eq (represents : Represents page.data slots) {slotId : UInt16}
    (inside : slotId.toNat < slots.cells.length) :
    page.slotBytes slotId = .ok (slots.cells[slotId.toNat]).bytes := by
  have bounds := represents.cell_bounds inside
  rcases represents.exists_readSlot inside with ⟨slot, read, offset, length⟩
  have fits : slot.offset.toNat + slot.length.toNat ≤ pageSize := by omega
  rw [Page.slotBytes, read]
  change page.data.slice _ _ = _
  rw [PageData.slice, if_pos fits, offset, length, represents.bytes _ inside]

/-- A slot that has its cell and its place is kept. -/
theorem slotKept (represents : Represents page.data slots) (after : Represents page'.data slots')
    {slotId : UInt16} (cell : slots'.cells[slotId.toNat]? = slots.cells[slotId.toNat]?)
    (place : slotId.toNat < slots.cells.length →
      slots'.extent (slotId.toNat + 1) = slots.extent (slotId.toNat + 1)) :
    Page.SlotKept page page' slotId := by
  have still (inside : slotId.toNat < slots.cells.length) :
      ∃ inside' : slotId.toNat < slots'.cells.length,
        slots'.cells[slotId.toNat] = slots.cells[slotId.toNat] := by
    rw [List.getElem?_eq_getElem inside] at cell
    exact List.getElem?_eq_some_iff.mp cell
  refine ⟨?_, ?_, ?_⟩
  · rw [represents.getTuple_eq, after.getTuple_eq, SlottedPage.get, SlottedPage.get, cell]
  · intro known
    have inside := represents.lt_numSlots_iff.mp known
    rcases still inside with ⟨inside', same⟩
    rw [represents.readSlot_eq inside, after.readSlot_eq inside', place inside, same]
  · intro known
    have inside := represents.lt_numSlots_iff.mp known
    rcases still inside with ⟨inside', same⟩
    rw [represents.slotBytes_eq inside, after.slotBytes_eq inside', same]

theorem laidOut (represents : Represents page.data slots) : page.LaidOut := by
  have room := represents.room
  refine ⟨?_, ?_, ?_⟩
  · rw [represents.directoryEnd_eq]
    omega
  · intro slotId known
    have inside := represents.lt_numSlots_iff.mp known
    have bounds := represents.cell_bounds inside
    rcases represents.exists_readSlot inside with ⟨slot, read, offset, length⟩
    refine ⟨slot, read, ?_, by omega⟩
    rw [represents.directoryEnd_eq]
    omega
  · intro left knownLeft right knownRight ne slot slot' readLeft readRight
    have insideLeft := represents.lt_numSlots_iff.mp knownLeft
    have insideRight := represents.lt_numSlots_iff.mp knownRight
    have boundsLeft := represents.cell_bounds insideLeft
    have boundsRight := represents.cell_bounds insideRight
    rcases represents.exists_readSlot insideLeft with ⟨_, read, offset, length⟩
    rcases represents.exists_readSlot insideRight with ⟨_, read', offset', length'⟩
    cases readLeft.symm.trans read
    cases readRight.symm.trans read'
    have apart : left.toNat ≠ right.toNat := fun same => ne (UInt16.toNat.inj same)
    -- later tuples lie below earlier ones
    rcases Nat.lt_or_gt_of_ne apart with before | after
    · have below := slots.extent_mono (left.toNat + 1) right.toNat before
      exact .inr (by omega)
    · have below := slots.extent_mono (right.toNat + 1) left.toNat after
      exact .inl (by omega)

section Calls

/-- An insertion that finds room. -/
theorem insertTuple_ok (represents : Represents page.data slots) {tuple : Bytes}
    (short : tuple.length < 2 ^ 16) (room : slots.HasRoom tuple.length) :
    ∃ page', Represents page'.data (slots.push tuple) ∧
      page.insertTuple tuple = .ok (some page.numSlots, page') := by
  have whole : tuple.length % 2 ^ 16 = tuple.length := Nat.mod_eq_of_lt short
  have inserted := represents.insertTuple_eq tuple
  simp only [SlottedPage.insertTuple, whole, room, short, if_true] at inserted
  rcases inserted with ⟨page', -, after, run⟩
  refine ⟨page', after, ?_⟩
  rw [run, represents.numSlots_eq_ofNat]

theorem insertTuple_full (represents : Represents page.data slots) {tuple : Bytes}
    (short : tuple.length < 2 ^ 16) (full : ¬ slots.HasRoom tuple.length) :
    page.insertTuple tuple = .ok (none, page) := by
  have whole : tuple.length % 2 ^ 16 = tuple.length := Nat.mod_eq_of_lt short
  have refused := represents.insertTuple_eq tuple
  simpa only [SlottedPage.insertTuple, whole, full, if_false] using refused

theorem toNat_ne_of_ne {left right : UInt16} (ne : left ≠ right) : left.toNat ≠ right.toNat :=
  fun same => ne (UInt16.toNat.inj same)

theorem obeys_insertTuple (represents : Represents page.data slots) {tuple : Bytes}
    (short : tuple.length < 2 ^ 16) : page.Obeys (.insertTuple tuple) := by
  have room : tuple.length + 5 ≤ page.freeSpace ↔ slots.HasRoom tuple.length := by
    rw [represents.freeSpace_eq, slots.hasRoom_iff_freeSpace]
  rw [Page.Obeys]
  split_ifs with enough
  · rcases represents.insertTuple_ok short (room.mp enough) with ⟨page', after, run⟩
    refine ⟨page', run, ?_, ?_, ?_⟩
    · rw [after.numSlots_eq, represents.numSlots_eq]
      simp [SlottedPage.push]
    · rw [after.getTuple_eq, represents.numSlots_eq, SlottedPage.get_push, if_pos rfl]
    · intro other ne
      have apart : other.toNat ≠ slots.cells.length := by
        rw [← represents.numSlots_eq]
        exact toNat_ne_of_ne ne
      apply represents.slotKept after
      · rw [SlottedPage.push]
        by_cases inside : other.toNat < slots.cells.length
        · rw [List.getElem?_append_left inside]
        · rw [List.getElem?_eq_none (by simp; omega), List.getElem?_eq_none (by omega)]
      · intro inside
        exact slots.extent_push (other.toNat + 1) inside
  · exact represents.insertTuple_full short fun fits => enough (room.mpr fits)

theorem obeys_updateTuple (represents : Represents page.data slots) (slotId : UInt16)
    (newData : Bytes) : page.Obeys (.updateTuple slotId newData) := by
  rcases represents.updateTuple_eq slotId newData with ⟨page', -, after, run, refused⟩
  rw [Page.Obeys, represents.getTuple_eq]
  cases live : slots.get slotId.toNat with
  | none =>
      have dead : slots.updateTuple slotId.toNat newData = (false, slots) := by
        simp [SlottedPage.updateTuple, SlottedPage.Accepts, live]
      rw [dead] at run refused
      rw [refused rfl] at run
      exact run
  | some old =>
      dsimp only
      have outcome := SlottedPage.updateTuple_of_get live newData
      split_ifs with fits
      · rw [if_pos fits] at outcome
        refine ⟨page', ?_, ?_, ?_, ?_⟩
        · rw [run, outcome]
        · rw [after.numSlots_eq_ofNat, represents.numSlots_eq_ofNat, outcome,
            SlottedPage.length_overwrite]
        · rw [after.getTuple_eq, outcome, SlottedPage.get_overwrite_self, live, Option.map_some]
        · intro other ne
          apply represents.slotKept after
          · exact slots.getElem?_updateTuple_of_ne (toNat_ne_of_ne ne) newData
          · intro inside
            exact slots.extent_updateTuple _ _ _
      · rw [if_neg fits] at outcome
        rw [outcome] at run refused
        rw [refused rfl] at run
        exact run

theorem obeys_deleteTuple (represents : Represents page.data slots) (slotId : UInt16) :
    page.Obeys (.deleteTuple slotId) := by
  rcases represents.deleteTuple_eq slotId with ⟨page', -, after, run, refused⟩
  rw [Page.Obeys, represents.getTuple_eq]
  cases live : slots.get slotId.toNat with
  | none =>
      have dead : (slots.deleteTuple slotId.toNat).1 = false := by
        simp [SlottedPage.deleteTuple, live]
      rw [dead, refused dead] at run
      exact run
  | some old =>
      have done : (slots.deleteTuple slotId.toNat).1 = true := by
        simp [SlottedPage.deleteTuple, live]
      rw [done] at run
      refine ⟨page', run, ?_, ?_, ?_⟩
      · rw [after.numSlots_eq_ofNat, represents.numSlots_eq_ofNat, SlottedPage.length_deleteTuple]
      · rw [after.getTuple_eq, SlottedPage.get_deleteTuple_self]
      · intro other ne
        apply represents.slotKept after
        · exact slots.getElem?_deleteTuple_of_ne (toNat_ne_of_ne ne)
        · intro inside
          exact slots.extent_deleteTuple _ _

theorem obeys (represents : Represents page.data slots) {call : PageCall} (short : call.Short) :
    page.Obeys call := by
  cases call with
  | insertTuple tuple => exact represents.obeys_insertTuple short
  | updateTuple slotId newData => exact represents.obeys_updateTuple slotId newData
  | deleteTuple slotId => exact represents.obeys_deleteTuple slotId

/-- One call: it returns, and the slots show what it was answered to have written. -/
theorem run_call (represents : Represents page.data slots) {call : PageCall} (short : call.Short) :
    ∃ answer page' slots', call.run page = .ok (answer, page') ∧ Represents page'.data slots' ∧
      ∀ contents : UInt16 → Option Bytes, (∀ slotId, slots.get slotId.toNat = contents slotId) →
        ∀ slotId, slots'.get slotId.toNat = PageCall.write contents (call, answer) slotId := by
  cases call with
  | insertTuple tuple =>
      by_cases room : slots.HasRoom tuple.length
      · rcases represents.insertTuple_ok short room with ⟨page', after, run⟩
        refine ⟨.slot (some page.numSlots), page', slots.push tuple, ?_, after, ?_⟩
        · rw [PageCall.run, run]
          rfl
        · intro contents shown slotId
          rw [SlottedPage.get_push, ← represents.numSlots_eq, PageCall.write, Function.update_apply,
            shown]
          by_cases same : slotId = page.numSlots
          · simp [same]
          · simp [same, toNat_ne_of_ne same]
      · refine ⟨.slot none, page, slots, ?_, represents, ?_⟩
        · rw [PageCall.run, represents.insertTuple_full short room]
          rfl
        · intro contents shown slotId
          exact shown slotId
  | updateTuple slotId newData =>
      rcases represents.updateTuple_eq slotId newData with ⟨page', -, after, run, -⟩
      refine ⟨.changed (slots.updateTuple slotId.toNat newData).1, page', _, ?_, after, ?_⟩
      · rw [PageCall.run, run]
        rfl
      · intro contents shown other
        rw [SlottedPage.updateTuple]
        split_ifs with accepts
        · rw [PageCall.write, Function.update_apply, ← shown, ← shown]
          split_ifs with same
          · rw [same, SlottedPage.get_overwrite_self]
          · rw [SlottedPage.get_overwrite_of_ne _ _ (toNat_ne_of_ne same)]
        · exact shown other
  | deleteTuple slotId =>
      rcases represents.deleteTuple_eq slotId with ⟨page', -, after, run, -⟩
      refine ⟨.changed (slots.deleteTuple slotId.toNat).1, page', _, ?_, after, ?_⟩
      · rw [PageCall.run, run]
        rfl
      · intro contents shown other
        by_cases live : (slots.get slotId.toNat).isSome
        · have done : (slots.deleteTuple slotId.toNat).1 = true := by
            simp [SlottedPage.deleteTuple, live]
          rw [done, PageCall.write, Function.update_apply, ← shown]
          split_ifs with same
          · rw [same, SlottedPage.get_deleteTuple_self]
          · rw [SlottedPage.get_deleteTuple_of_ne _ _ (toNat_ne_of_ne same)]
        · have dead : slots.deleteTuple slotId.toNat = (false, slots) := by
            simp [SlottedPage.deleteTuple, live]
          rw [dead]
          exact shown other

/-- A run of calls, from any page that represents what was written before. -/
theorem run_calls (represents : Represents page.data slots) {calls : List PageCall}
    (short : ∀ call ∈ calls, call.Short) (contents : UInt16 → Option Bytes)
    (shown : ∀ slotId, slots.get slotId.toNat = contents slotId) :
    ∃ answers page' slots', PageCall.runAll calls page = .ok (answers, page') ∧
      Represents page'.data slots' ∧
      ∀ slotId, slots'.get slotId.toNat =
        (calls.zip answers).foldl PageCall.write contents slotId := by
  induction calls generalizing page slots contents with
  | nil => exact ⟨[], page, slots, rfl, represents, shown⟩
  | cons call calls ih =>
      rcases represents.run_call (short call (by simp)) with
        ⟨answer, between, slots', run, after, writes⟩
      rcases ih after (fun other later => short other (by simp [later])) _ (writes contents shown)
        with ⟨answers, page', slots'', runs, final, written⟩
      refine ⟨answer :: answers, page', slots'', ?_, final, written⟩
      simp [PageCall.runAll, run, runs, bind, Except.bind, pure, Except.pure]

end Calls

end Represents

/-- Any calls on a new page return, the page they leave has its directory and its tuples apart and
shows what was last written, and any further call is answered as its contract says. -/
theorem page_history (id : UInt32) (calls : List PageCall) (short : ∀ call ∈ calls, call.Short) :
    ∃ answers page, PageCall.runAll calls (Page.new id) = .ok (answers, page) ∧
      page.LaidOut ∧
      (∀ slotId, page.getTuple slotId = .ok (PageCall.lastWritten (calls.zip answers) slotId)) ∧
      ∀ call : PageCall, call.Short → page.Obeys call := by
  have start : ∀ slotId : UInt16, SlottedPage.empty.get slotId.toNat = none := by
    intro slotId
    simp [SlottedPage.empty, SlottedPage.get]
  rcases (Represents.new id).run_calls short (fun _ => none) start with
    ⟨answers, page, slots, run, represents, written⟩
  refine ⟨answers, page, run, represents.laidOut, ?_, ?_⟩
  · intro slotId
    rw [represents.getTuple_eq, written]
    rfl
  · intro call fits
    exact represents.obeys fits

/-- Two tuples, the second shortened by one byte and the first deleted. -/
theorem page_history_two :
    ∃ answers page, PageCall.runAll [.insertTuple [1, 2], .insertTuple [3, 4, 5],
        .updateTuple 1 [6, 7], .deleteTuple 0] (Page.new 0) = .ok (answers, page) ∧
      page.LaidOut ∧
      (∀ slotId, page.getTuple slotId = .ok (PageCall.lastWritten
        ([.insertTuple [1, 2], .insertTuple [3, 4, 5], .updateTuple 1 [6, 7],
          .deleteTuple 0].zip answers) slotId)) ∧
      ∀ call : PageCall, call.Short → page.Obeys call := by
  apply page_history
  simp [PageCall.Short]

end VenomDb
