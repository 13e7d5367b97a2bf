import VenomDb.Storage.Page

/-!
# What a slotted page is for

Abstractly a page is a list of tuples, each live or deleted, together with a bound
on their total size. `Represents` says when the bytes of a page spell such a list,
and each page operation is shown to be the list operation of the same name.
The checksum field plays no part in it.
-/

namespace VenomDb

/-- A tuple in its slot. Its bytes keep the length they were inserted with. -/
structure Cell where
  bytes : Bytes
  active : Bool
  deriving DecidableEq

/-- The tuples of a page in slot order. -/
@[ext]
structure SlottedPage where
  cells : List Cell
  deriving DecidableEq

namespace SlottedPage

def empty : SlottedPage := ⟨[]⟩

/-- The lengths of the tuples. -/
def lengths (page : SlottedPage) : List ℕ := page.cells.map fun cell => cell.bytes.length

/-- Bytes taken by the first `count` tuples. -/
def extent (page : SlottedPage) (count : ℕ) : ℕ :=
  ((page.cells.take count).map fun cell => cell.bytes.length).sum

/-- Bytes taken by all tuples. -/
def used (page : SlottedPage) : ℕ := page.extent page.cells.length

def get (page : SlottedPage) (slot : ℕ) : Option Bytes :=
  (page.cells[slot]?).bind fun cell => if cell.active then some cell.bytes else none

/-- Add a live tuple in the next slot. -/
def push (page : SlottedPage) (tuple : Bytes) : SlottedPage := ⟨page.cells ++ [⟨tuple, true⟩]⟩

/-- Header, directory with one more entry, tuples and `length` more bytes fit in a page. -/
def HasRoom (page : SlottedPage) (length : ℕ) : Prop :=
  PageHeader.size + (page.cells.length + 1) * Slot.size + (page.used + length) ≤ pageSize

instance (page : SlottedPage) (length : ℕ) : Decidable (page.HasRoom length) :=
  inferInstanceAs (Decidable (_ ≤ _))

/-- A tuple of 65536 bytes or more is measured by its length modulo 65536; when that fits,
copying the tuple runs over the end of the page. -/
def insertTuple (page : SlottedPage) (tuple : Bytes) : Except Failure (Option SlottedPage) :=
  if page.HasRoom (tuple.length % 2 ^ 16) then
    if tuple.length < 2 ^ 16 then .ok (some (page.push tuple)) else .error (.panic .outOfBounds)
  else .ok none

/-- Overwrite the front of the bytes in a slot. -/
def overwrite (page : SlottedPage) (slot : ℕ) (newData : Bytes) : SlottedPage :=
  ⟨page.cells.modify slot fun cell =>
    { cell with bytes := newData ++ cell.bytes.drop newData.length }⟩

/-- The bytes of an update fit the live tuple in the slot. -/
def Accepts (page : SlottedPage) (slot : ℕ) (newData : Bytes) : Prop :=
  ∃ old ∈ page.get slot, newData.length ≤ old.length

instance (page : SlottedPage) (slot : ℕ) (newData : Bytes) :
    Decidable (page.Accepts slot newData) :=
  inferInstanceAs (Decidable (∃ old ∈ page.get slot, _))

def updateTuple (page : SlottedPage) (slot : ℕ) (newData : Bytes) : Bool × SlottedPage :=
  if page.Accepts slot newData then (true, page.overwrite slot newData) else (false, page)

/-- Turn a slot into a tombstone. -/
def bury (page : SlottedPage) (slot : ℕ) : SlottedPage :=
  ⟨page.cells.modify slot fun cell => { cell with active := false }⟩

def deleteTuple (page : SlottedPage) (slot : ℕ) : Bool × SlottedPage :=
  if (page.get slot).isSome then (true, page.bury slot) else (false, page)

def freeSpace (page : SlottedPage) : ℕ :=
  pageSize - page.used - (PageHeader.size + page.cells.length * Slot.size)

section Extent

variable (page : SlottedPage)

theorem extent_succ {slot : ℕ} (inside : slot < page.cells.length) :
    page.extent (slot + 1) = page.extent slot + (page.cells[slot]).bytes.length := by
  rw [extent, extent, List.take_add_one]
  simp [inside]

theorem extent_mono (left right : ℕ) (le : left ≤ right) :
    page.extent left ≤ page.extent right := by
  obtain ⟨more, rfl⟩ := Nat.exists_eq_add_of_le le
  rw [extent, extent, List.take_add, List.map_append, List.sum_append]
  omega

theorem extent_le_used (count : ℕ) : page.extent count ≤ page.used := by
  rcases Nat.le_total count page.cells.length with le | ge
  · exact page.extent_mono _ _ le
  · simp [extent, used, List.take_of_length_le ge]

theorem extent_push {tuple : Bytes} (count : ℕ) (le : count ≤ page.cells.length) :
    (page.push tuple).extent count = page.extent count := by
  simp [extent, push, List.take_append_of_le_length le]

@[simp]
theorem used_push (tuple : Bytes) : (page.push tuple).used = page.used + tuple.length := by
  simp [used, extent, push]

theorem extent_of_lengths {other : SlottedPage}
    (lengths : other.lengths = page.lengths) (count : ℕ) :
    other.extent count = page.extent count := by
  rw [extent, extent, List.map_take, List.map_take]
  exact congrArg (fun all => (all.take count).sum) lengths

omit page in
theorem length_of_lengths {page other : SlottedPage} (lengths : other.lengths = page.lengths) :
    other.cells.length = page.cells.length := by
  simpa [SlottedPage.lengths] using congrArg List.length lengths

/-- Pages whose tuples have the same lengths have the same room. -/
theorem hasRoom_of_lengths {other : SlottedPage}
    (lengths : other.lengths = page.lengths) {length : ℕ} (room : page.HasRoom length) :
    other.HasRoom length := by
  have count := length_of_lengths lengths
  rw [HasRoom, used, page.extent_of_lengths lengths, count]
  exact room

/-- The free space reported is enough for a tuple and its slot entry. -/
theorem hasRoom_of_freeSpace {length : ℕ} (enough : length + 5 ≤ page.freeSpace) :
    page.HasRoom length := by
  simp only [freeSpace, HasRoom, PageHeader.size, Slot.size, pageSize] at enough ⊢
  omega

theorem hasRoom_iff_freeSpace {length : ℕ} : page.HasRoom length ↔ length + 5 ≤ page.freeSpace := by
  simp only [freeSpace, HasRoom, PageHeader.size, Slot.size, pageSize]
  omega

theorem length_lt_of_hasRoom {length : ℕ} (room : page.HasRoom length) :
    page.cells.length + 1 < 2 ^ 16 := by
  simp only [HasRoom, PageHeader.size, Slot.size, pageSize] at room
  omega

theorem lt_of_hasRoom {length : ℕ} (room : page.HasRoom length) : length < 2 ^ 16 := by
  simp only [HasRoom, PageHeader.size, Slot.size, pageSize] at room
  omega

end Extent

theorem get_eq_some {page : SlottedPage} {slot : ℕ} {bytes : Bytes}
    (live : page.get slot = some bytes) :
    ∃ inside : slot < page.cells.length,
      (page.cells[slot]).active = true ∧ (page.cells[slot]).bytes = bytes := by
  rw [get] at live
  rcases Option.bind_eq_some_iff.mp live with ⟨cell, cell_mem, shown⟩
  obtain ⟨inside, rfl⟩ := List.getElem?_eq_some_iff.mp cell_mem
  refine ⟨inside, ?_⟩
  split at shown
  · next active => exact ⟨active, by simpa using shown⟩
  · simp at shown

section Slots

variable (page : SlottedPage) (slot : ℕ)

@[simp]
theorem length_overwrite (newData : Bytes) :
    (page.overwrite slot newData).cells.length = page.cells.length := by simp [overwrite]

theorem get_overwrite_of_ne {other : ℕ} (ne : other ≠ slot) (newData : Bytes) :
    (page.overwrite slot newData).get other = page.get other := by
  simp [overwrite, SlottedPage.get, Ne.symm ne]

theorem get_overwrite_self (newData : Bytes) :
    (page.overwrite slot newData).get slot =
      (page.get slot).map fun bytes => newData ++ bytes.drop newData.length := by
  cases found : page.cells[slot]? with
  | none => simp [overwrite, SlottedPage.get, found]
  | some cell => cases active : cell.active <;> simp [overwrite, SlottedPage.get, found, active]

@[simp]
theorem length_deleteTuple : (page.deleteTuple slot).2.cells.length = page.cells.length := by
  unfold deleteTuple
  split <;> simp [bury]

theorem get_deleteTuple_of_ne {other : ℕ} (ne : other ≠ slot) :
    (page.deleteTuple slot).2.get other = page.get other := by
  unfold deleteTuple
  split
  · simp [bury, SlottedPage.get, Ne.symm ne]
  · rfl

theorem get_deleteTuple_self : (page.deleteTuple slot).2.get slot = none := by
  unfold deleteTuple
  split
  · cases found : page.cells[slot]? <;> simp [bury, SlottedPage.get, found]
  · next dead => simpa using dead

theorem get_push (tuple : Bytes) : (page.push tuple).get slot =
    if slot = page.cells.length then some tuple else page.get slot := by
  unfold push SlottedPage.get
  split_ifs with last
  · simp [last]
  · rcases lt_or_gt_of_ne last with inside | outside
    · rw [List.getElem?_append_left inside]
    · rw [List.getElem?_append_right outside.le, List.getElem?_eq_none (by simp; omega),
        List.getElem?_eq_none outside.le]

@[simp]
theorem lengths_push (tuple : Bytes) :
    (page.push tuple).lengths = page.lengths ++ [tuple.length] := by
  simp [SlottedPage.lengths, push]

@[simp]
theorem lengths_bury : (page.bury slot).lengths = page.lengths := by
  apply List.ext_getElem
  · simp [SlottedPage.lengths, bury]
  · intro index bound _
    simp only [SlottedPage.lengths, bury, List.getElem_map, List.getElem_modify]
    split <;> rfl

@[simp]
theorem lengths_deleteTuple : (page.deleteTuple slot).2.lengths = page.lengths := by
  unfold deleteTuple
  split
  · exact page.lengths_bury slot
  · rfl

theorem lengths_overwrite {newData : Bytes}
    (shorter : ∀ cell, page.cells[slot]? = some cell → newData.length ≤ cell.bytes.length) :
    (page.overwrite slot newData).lengths = page.lengths := by
  apply List.ext_getElem
  · simp [SlottedPage.lengths, overwrite]
  · intro index bound inside
    have here : index < page.cells.length := by simpa [SlottedPage.lengths] using inside
    simp only [SlottedPage.lengths, overwrite, List.getElem_map, List.getElem_modify]
    split
    · next same =>
      subst same
      have fits := shorter _ (List.getElem?_eq_getElem here)
      simp only [List.length_append, List.length_drop]
      omega
    · rfl

@[simp]
theorem lengths_updateTuple (newData : Bytes) :
    (page.updateTuple slot newData).2.lengths = page.lengths := by
  unfold updateTuple
  split
  · next accepts =>
    rcases accepts with ⟨old, live, fits⟩
    obtain ⟨inside, -, rfl⟩ := get_eq_some live
    apply page.lengths_overwrite slot
    intro cell found
    obtain ⟨-, rfl⟩ := List.getElem?_eq_some_iff.mp found
    exact fits
  · rfl

variable {page slot}

/-- The outcome of an update of a live tuple. -/
theorem updateTuple_of_get {oldBytes : Bytes} (live : page.get slot = some oldBytes)
    (newBytes : Bytes) : page.updateTuple slot newBytes =
      if newBytes.length ≤ oldBytes.length then (true, page.overwrite slot newBytes)
      else (false, page) := by
  simp [updateTuple, Accepts, live]

end Slots

end SlottedPage

/-- The bytes of a page spell the tuples of an abstract page. Tuples lie back to back from the
end of the page; `extent (slot + 1)` bytes from the end is where the tuple of `slot` starts. -/
structure Represents (data : PageData) (page : SlottedPage) : Prop where
  numSlots : data.readHeader.numSlots.toNat = page.cells.length
  freeSpaceOffset : data.readHeader.freeSpaceOffset.toNat = pageSize - page.used
  room : PageHeader.size + page.cells.length * Slot.size + page.used ≤ pageSize
  slot : ∀ slot (inside : slot < page.cells.length),
    Slot.fromBytes (data.window (PageHeader.size + slot * Slot.size) Slot.size) =
      { offset := UInt16.ofNat (pageSize - page.extent (slot + 1))
        length := UInt16.ofNat (page.cells[slot]).bytes.length
        active := (page.cells[slot]).active }
  bytes : ∀ slot (inside : slot < page.cells.length),
    data.window (pageSize - page.extent (slot + 1)) (page.cells[slot]).bytes.length =
      (page.cells[slot]).bytes

namespace Represents

variable {data : PageData} {page : SlottedPage}

theorem toNat_uint16 {value : ℕ} (small : value ≤ pageSize) : (UInt16.ofNat value).toNat = value :=
  UInt16.toNat_ofNat_of_lt' (lt_of_le_of_lt small (by decide))

theorem new (id : UInt32) : Represents (Page.new id).data SlottedPage.empty := by
  have header : (Page.new id).data.readHeader =
      { pageId := id, numSlots := 0, freeSpaceOffset := UInt16.ofNat pageSize, checksum := 0 } := by
    rw [Page.new, PageData.readHeader_writeHeader]
  refine ⟨?_, ?_, ?_, ?_, ?_⟩
  · rw [header]
    rfl
  · rw [header]
    rfl
  · decide
  · intro slot inside
    simp [SlottedPage.empty] at inside
  · intro slot inside
    simp [SlottedPage.empty] at inside

/-- Only the checksum field may differ. -/
theorem congr_cleared {other : PageData} (represents : Represents data page)
    (same : other.cleared = data.cleared) : Represents other page := by
  have headers : { other.readHeader with checksum := 0 } =
      { data.readHeader with checksum := 0 } := by
    rw [← PageData.readHeader_cleared, ← PageData.readHeader_cleared, same]
  simp only [PageHeader.mk.injEq] at headers
  have window {start length : ℕ} (behind : PageHeader.size ≤ start) :
      other.window start length = data.window start length := by
    have behindChecksum : 8 + [(0 : UInt8), 0, 0, 0].length ≤ start := behind
    rw [← other.window_put_of_disjoint (.inr behindChecksum),
      ← data.window_put_of_disjoint (.inr behindChecksum)]
    exact congrArg (fun memory : PageData => memory.window start length) same
  refine ⟨?_, ?_, represents.room, ?_, ?_⟩
  · rw [headers.2.1, represents.numSlots]
  · rw [headers.2.2.1, represents.freeSpaceOffset]
  · intro slot inside
    rw [window (by omega), represents.slot slot inside]
  · intro slot inside
    have extent := page.extent_le_used (slot + 1)
    have room := represents.room
    rw [window (by omega), represents.bytes slot inside]

theorem numSlots_le (represents : Represents data page) : page.cells.length ≤ pageSize := by
  have room := represents.room
  simp only [Slot.size] at room
  omega

section Operations

variable {concrete : Page}

theorem numSlots_eq (represents : Represents concrete.data page) :
    concrete.numSlots.toNat = page.cells.length := represents.numSlots

theorem freeSpace_eq (represents : Represents concrete.data page) :
    concrete.freeSpace = page.freeSpace := by
  rw [Page.freeSpace, SlottedPage.freeSpace]
  simp only [represents.numSlots, represents.freeSpaceOffset]

/-- The slot entry of a slot in use is read back from the directory. -/
theorem readSlot_eq (represents : Represents concrete.data page) {slotId : UInt16}
    (inside : slotId.toNat < page.cells.length) :
    concrete.readSlot slotId = .ok
      { offset := UInt16.ofNat (pageSize - page.extent (slotId.toNat + 1))
        length := UInt16.ofNat (page.cells[slotId.toNat]).bytes.length
        active := (page.cells[slotId.toNat]).active } := by
  have room := represents.room
  have fits : Page.slotOffset slotId + Slot.size ≤ pageSize := by
    simp only [Page.slotOffset, Slot.size] at room ⊢
    omega
  rw [Page.readSlot, PageData.slice, if_pos fits]
  simp only [Except.map, Page.slotOffset, represents.slot _ inside]

/-- `slotId >= num_slots` of the source. -/
theorem outside_iff (represents : Represents concrete.data page) (slotId : UInt16) :
    concrete.data.readHeader.numSlots ≤ slotId ↔ page.cells.length ≤ slotId.toNat := by
  rw [UInt16.le_iff_toNat_le, represents.numSlots]

theorem cell_bounds (represents : Represents data page) {slot : ℕ}
    (inside : slot < page.cells.length) :
    (pageSize - page.extent (slot + 1)) + (page.cells[slot]).bytes.length =
        pageSize - page.extent slot ∧
      PageHeader.size + page.cells.length * Slot.size ≤ pageSize - page.extent (slot + 1) ∧
      (page.cells[slot]).bytes.length ≤ pageSize := by
  have room := represents.room
  have extent := page.extent_le_used (slot + 1)
  have succ := page.extent_succ inside
  omega

theorem getTuple_eq (represents : Represents concrete.data page) (slotId : UInt16) :
    concrete.getTuple slotId = .ok (page.get slotId.toNat) := by
  rw [Page.getTuple]
  by_cases inside : slotId.toNat < page.cells.length
  · rw [if_neg (by rw [represents.outside_iff]; omega), represents.readSlot_eq inside]
    have bounds := represents.cell_bounds inside
    cases active : (page.cells[slotId.toNat]).active with
    | false => simp [active, SlottedPage.get, inside, bind, Except.bind, pure, Except.pure]
    | true =>
        have fits : pageSize - page.extent (slotId.toNat + 1) +
            (page.cells[slotId.toNat]).bytes.length ≤ pageSize := by omega
        simp [active, SlottedPage.get, inside, bind, Except.bind, pure, Except.pure,
          PageData.slice, toNat_uint16 bounds.2.2, toNat_uint16 (Nat.sub_le _ _), fits,
          represents.bytes _ inside]
  · rw [if_pos (by rw [represents.outside_iff]; omega)]
    simp [SlottedPage.get, inside]

/-- The bytes an insertion writes: the tuple below the others, the next slot entry, the header. -/
theorem push_writes (represents : Represents data page) {tuple : Bytes}
    (hasRoom : page.HasRoom tuple.length) {start : ℕ}
    (start_eq : start = pageSize - page.used - tuple.length) {header : PageHeader}
    (numSlots : header.numSlots.toNat = page.cells.length + 1)
    (freeSpaceOffset : header.freeSpaceOffset.toNat = start) {entry : Slot}
    (entry_eq : entry = ⟨UInt16.ofNat start, UInt16.ofNat tuple.length, true⟩) :
    Represents
      (PageData.writeHeader ((data.put start tuple).put
        (PageHeader.size + page.cells.length * Slot.size) entry.toBytes) header)
      (page.push tuple) := by
  have room := represents.room
  simp only [SlottedPage.HasRoom, Nat.add_mul, Nat.one_mul] at hasRoom
  have entryLength := entry.length_toBytes
  have extent : (page.push tuple).extent (page.cells.length + 1) = page.used + tuple.length := by
    rw [← SlottedPage.used_push]
    simp [SlottedPage.used, SlottedPage.push]
  -- neither an old slot entry nor an old tuple overlaps what is written
  have untouched {first length : ℕ} (behind : PageHeader.size ≤ first)
      (apart : first + length ≤ PageHeader.size + page.cells.length * Slot.size ∨
        pageSize - page.used ≤ first) :
      (PageData.writeHeader ((data.put start tuple).put
        (PageHeader.size + page.cells.length * Slot.size) entry.toBytes) header).window
          first length = data.window first length := by
    rw [PageData.window_writeHeader _ _ behind,
      Memory.window_put_of_disjoint _ (by rw [entryLength]; omega),
      Memory.window_put_of_disjoint _ (by omega)]
  refine ⟨?_, ?_, ?_, ?_, ?_⟩
  · simp [SlottedPage.push, numSlots]
  · rw [PageData.readHeader_writeHeader, freeSpaceOffset, SlottedPage.used_push]
    omega
  · rw [SlottedPage.used_push]
    simp only [SlottedPage.push, List.length_append, List.length_singleton, Nat.add_mul,
      Nat.one_mul]
    omega
  · intro slot inside
    simp only [SlottedPage.push, List.length_append, List.length_singleton] at inside
    rcases Nat.lt_succ_iff_lt_or_eq.mp inside with old | rfl
    · have inDirectory : PageHeader.size + slot * Slot.size + Slot.size ≤
          PageHeader.size + page.cells.length * Slot.size := by
        simp only [Slot.size]
        omega
      rw [untouched (Nat.le_add_right _ _) (.inl inDirectory), represents.slot slot old,
        page.extent_push (slot + 1) old]
      simp [SlottedPage.push, List.getElem_append_left old]
    · rw [PageData.window_writeHeader _ _ (Nat.le_add_right _ _), ← entryLength,
        Memory.window_put_self _ (by rw [entryLength]; omega), Slot.fromBytes_toBytes, extent]
      simp [SlottedPage.push, entry_eq, start_eq, Nat.sub_sub]
  · intro slot inside
    simp only [SlottedPage.push, List.length_append, List.length_singleton] at inside
    rcases Nat.lt_succ_iff_lt_or_eq.mp inside with old | rfl
    · have below := page.extent_le_used (slot + 1)
      rw [page.extent_push (slot + 1) old]
      simp only [SlottedPage.push, List.getElem_append_left old]
      rw [untouched (by omega) (.inr (by omega)), represents.bytes slot old]
    · rw [extent, ← Nat.sub_sub, ← start_eq, PageData.window_writeHeader _ _ (by omega),
        Memory.window_put_of_disjoint _ (by rw [entryLength]; omega)]
      simpa [SlottedPage.push] using data.window_put_self (by omega)

theorem insertTuple_eq (represents : Represents concrete.data page) (tuple : Bytes) :
    match page.insertTuple tuple with
    | .ok (some page') => ∃ concrete', concrete'.id = concrete.id ∧
        Represents concrete'.data page' ∧
        concrete.insertTuple tuple = .ok (some (UInt16.ofNat page.cells.length), concrete')
    | .ok none => concrete.insertTuple tuple = .ok (none, concrete)
    | .error failure => concrete.insertTuple tuple = .error failure := by
  have room := represents.room
  have free := represents.freeSpaceOffset
  have tupleLen : (UInt16.ofNat tuple.length).toNat = tuple.length % 2 ^ 16 :=
    UInt16.toNat_ofNat'
  have slots : concrete.data.readHeader.numSlots = UInt16.ofNat page.cells.length := by
    rw [← represents.numSlots, UInt16.ofNat_toNat]
  rw [SlottedPage.insertTuple]
  by_cases hasRoom : page.HasRoom (tuple.length % 2 ^ 16)
  · have fits := hasRoom
    simp only [SlottedPage.HasRoom, Nat.add_mul, Nat.one_mul] at fits
    have enough : ¬concrete.data.readHeader.freeSpaceOffset < UInt16.ofNat tuple.length := by
      rw [UInt16.lt_iff_toNat_lt, tupleLen, free]
      omega
    have newFree : (concrete.data.readHeader.freeSpaceOffset - UInt16.ofNat tuple.length).toNat =
        pageSize - page.used - tuple.length % 2 ^ 16 := by
      rw [UInt16.toNat_sub_of_le _ _ (UInt16.not_lt.mp enough), tupleLen, free]
    have area : ¬PageHeader.size + (page.cells.length + 1) * Slot.size >
        pageSize - page.used - tuple.length % 2 ^ 16 := by
      rw [Nat.add_mul, Nat.one_mul]
      omega
    by_cases short : tuple.length < 2 ^ 16
    · have fullLength : tuple.length % 2 ^ 16 = tuple.length := Nat.mod_eq_of_lt short
      rw [fullLength] at newFree area fits hasRoom
      have inPage : pageSize - page.used - tuple.length + tuple.length ≤ pageSize := by omega
      have entryInPage : PageHeader.size + page.cells.length * Slot.size + Slot.size ≤
          pageSize := by
        omega
      simp only [fullLength, hasRoom, short, if_true]
      have nextSlot : (concrete.data.readHeader.numSlots + 1).toNat = page.cells.length + 1 := by
        have small := represents.numSlots_le
        rw [UInt16.toNat_add, represents.numSlots]
        simp only [pageSize] at small
        exact Nat.mod_eq_of_lt (by simpa using by omega)
      refine ⟨{ concrete with
          data := PageData.writeHeader
            ((concrete.data.put (pageSize - page.used - tuple.length) tuple).put
              (PageHeader.size + page.cells.length * Slot.size)
              (Slot.toBytes ⟨concrete.data.readHeader.freeSpaceOffset - UInt16.ofNat tuple.length,
                UInt16.ofNat tuple.length, true⟩))
            { concrete.data.readHeader with
              numSlots := concrete.data.readHeader.numSlots + 1
              freeSpaceOffset :=
                concrete.data.readHeader.freeSpaceOffset - UInt16.ofNat tuple.length }
          dirty := true }, rfl, ?_, ?_⟩
      · refine represents.push_writes hasRoom rfl nextSlot newFree ?_
        rw [← newFree, UInt16.ofNat_toNat]
      · simp only [Page.insertTuple, enough, newFree, area, if_false, PageData.copyFromSlice,
          inPage, if_true, Page.writeSlot, Page.slotOffset, represents.numSlots,
          Slot.length_toBytes, entryInPage, bind, Except.bind, Except.map, pure, Except.pure]
        rw [slots]
    · have overrun : ¬pageSize - page.used - tuple.length % 2 ^ 16 + tuple.length ≤ pageSize := by
        have : pageSize < 2 ^ 16 := by decide
        omega
      simp only [hasRoom, short, if_true, if_false]
      simp only [Page.insertTuple, enough, newFree, represents.numSlots, area, if_false,
        PageData.copyFromSlice, overrun, bind, Except.bind]
  · simp only [hasRoom, if_false]
    simp only [SlottedPage.HasRoom, Nat.add_mul, Nat.one_mul] at hasRoom
    rw [Page.insertTuple]
    by_cases enough : concrete.data.readHeader.freeSpaceOffset < UInt16.ofNat tuple.length
    · simp [enough]
    · have newFree : (concrete.data.readHeader.freeSpaceOffset - UInt16.ofNat tuple.length).toNat =
          pageSize - page.used - tuple.length % 2 ^ 16 := by
        rw [UInt16.toNat_sub_of_le _ _ (UInt16.not_lt.mp enough), tupleLen, free]
      have area : PageHeader.size + (concrete.data.readHeader.numSlots.toNat + 1) * Slot.size >
          pageSize - page.used - tuple.length % 2 ^ 16 := by
        rw [UInt16.lt_iff_toNat_lt, tupleLen, free] at enough
        rw [represents.numSlots, Nat.add_mul, Nat.one_mul]
        omega
      simp only [enough, newFree, area, if_false, if_true]

/-- Overwriting a tuple in place: no other slot sees it. -/
theorem overwrite_writes (represents : Represents data page) {slot : ℕ}
    (inside : slot < page.cells.length) {newData : Bytes}
    (shorter : newData.length ≤ (page.cells[slot]).bytes.length) :
    Represents (data.put (pageSize - page.extent (slot + 1)) newData)
      (page.overwrite slot newData) := by
  have bounds := represents.cell_bounds inside
  have room := represents.room
  have lengths := page.lengths_overwrite slot fun cell found => by
    obtain ⟨-, rfl⟩ := List.getElem?_eq_some_iff.mp found
    exact shorter
  have extents := page.extent_of_lengths lengths
  have count : (page.overwrite slot newData).cells.length = page.cells.length := by
    simp [SlottedPage.overwrite]
  have used : (page.overwrite slot newData).used = page.used := by
    rw [SlottedPage.used, count, extents, SlottedPage.used]
  refine ⟨?_, ?_, ?_, ?_, ?_⟩
  · rw [PageData.readHeader_put _ (by omega), represents.numSlots, count]
  · rw [PageData.readHeader_put _ (by omega), represents.freeSpaceOffset, used]
  · rw [count, used]
    exact room
  · intro other otherInside
    rw [count] at otherInside
    have entryEnd : other * Slot.size + Slot.size ≤ page.cells.length * Slot.size := by
      simp only [Slot.size]
      omega
    rw [Memory.window_put_of_disjoint _ (by omega), represents.slot other otherInside, extents]
    simp only [SlottedPage.overwrite, List.getElem_modify, Slot.mk.injEq, true_and]
    split
    · next eq =>
      subst eq
      simp [Nat.add_sub_cancel' shorter]
    · simp
  · intro other otherInside
    rw [count] at otherInside
    rw [extents]
    have otherBounds := represents.cell_bounds otherInside
    rcases Nat.lt_trichotomy other slot with before | same | after
    · have apart := page.extent_mono (other + 1) slot before
      have succ := page.extent_succ inside
      have below := page.extent_le_used (slot + 1)
      simp only [SlottedPage.overwrite, List.getElem_modify, Nat.ne_of_gt before, if_false]
      rw [Memory.window_put_of_disjoint _ (by omega), represents.bytes other otherInside]
    · subst same
      simp only [SlottedPage.overwrite, List.getElem_modify, if_true, List.length_append,
        List.length_drop, Nat.add_sub_cancel' shorter]
      rw [Memory.window_put_front _ (by omega) shorter, represents.bytes _ inside]
    · have apart := page.extent_mono (slot + 1) other after
      have succ := page.extent_succ otherInside
      have below := page.extent_le_used (other + 1)
      simp only [SlottedPage.overwrite, List.getElem_modify, Nat.ne_of_lt after, if_false]
      rw [Memory.window_put_of_disjoint _ (by omega), represents.bytes other otherInside]

theorem updateTuple_eq (represents : Represents concrete.data page) (slotId : UInt16)
    (newData : Bytes) :
    ∃ concrete', concrete'.id = concrete.id ∧
      Represents concrete'.data (page.updateTuple slotId.toNat newData).2 ∧
      concrete.updateTuple slotId newData =
        .ok ((page.updateTuple slotId.toNat newData).1, concrete') ∧
      ((page.updateTuple slotId.toNat newData).1 = false → concrete' = concrete) := by
  by_cases inside : slotId.toNat < page.cells.length
  · have bounds := represents.cell_bounds inside
    have lengthBack := toNat_uint16 bounds.2.2
    have known : ¬concrete.data.readHeader.numSlots ≤ slotId := by
      rw [represents.outside_iff]
      omega
    cases active : (page.cells[slotId.toNat]).active with
    | false =>
        have refused : ¬page.Accepts slotId.toNat newData := by
          simp [SlottedPage.Accepts, SlottedPage.get, inside, active]
        refine ⟨concrete, rfl, by simpa [SlottedPage.updateTuple, refused] using represents, ?_,
          fun _ => rfl⟩
        simp [Page.updateTuple, SlottedPage.updateTuple, known, represents.readSlot_eq inside,
          refused, active, bind, Except.bind, pure, Except.pure]
    | true =>
        by_cases shorter : newData.length ≤ (page.cells[slotId.toNat]).bytes.length
        · have accepted : page.Accepts slotId.toNat newData := by
            simp [SlottedPage.Accepts, SlottedPage.get, inside, active, shorter]
          have fits : pageSize - page.extent (slotId.toNat + 1) + newData.length ≤ pageSize := by
            omega
          refine ⟨{ concrete with
              data := concrete.data.put (pageSize - page.extent (slotId.toNat + 1)) newData
              dirty := true }, rfl, ?_, ?_, ?_⟩
          · simpa [SlottedPage.updateTuple, accepted] using
              represents.overwrite_writes inside shorter
          · simp [Page.updateTuple, SlottedPage.updateTuple, known, represents.readSlot_eq inside,
              accepted, active, bind, Except.bind, pure, Except.pure, lengthBack,
              Nat.not_lt.mpr shorter, toNat_uint16 (Nat.sub_le _ _), PageData.copyFromSlice, fits]
          · simp [SlottedPage.updateTuple, accepted]
        · have refused : ¬page.Accepts slotId.toNat newData := by
            simpa [SlottedPage.Accepts, SlottedPage.get, inside, active] using shorter
          refine ⟨concrete, rfl, by simpa [SlottedPage.updateTuple, refused] using represents, ?_,
          fun _ => rfl⟩
          simp [Page.updateTuple, SlottedPage.updateTuple, known, represents.readSlot_eq inside,
            refused, active, bind, Except.bind, pure, Except.pure, lengthBack,
            Nat.lt_of_not_le shorter]
  · have refused : ¬page.Accepts slotId.toNat newData := by
      simp [SlottedPage.Accepts, SlottedPage.get, inside]
    have unknown : concrete.data.readHeader.numSlots ≤ slotId := by
      rw [represents.outside_iff]
      omega
    refine ⟨concrete, rfl, by simpa [SlottedPage.updateTuple, refused] using represents, ?_,
          fun _ => rfl⟩
    simp [Page.updateTuple, SlottedPage.updateTuple, unknown, refused]

/-- Clearing the active byte of a slot entry: no tuple moves. -/
theorem bury_writes (represents : Represents data page) {slot : ℕ}
    (inside : slot < page.cells.length) {entry : Slot}
    (entry_eq : entry = ⟨UInt16.ofNat (pageSize - page.extent (slot + 1)),
      UInt16.ofNat (page.cells[slot]).bytes.length, false⟩) :
    Represents (data.put (PageHeader.size + slot * Slot.size) entry.toBytes) (page.bury slot) := by
  have room := represents.room
  have entryLength := entry.length_toBytes
  have extents := page.extent_of_lengths (page.lengths_bury slot)
  have count : (page.bury slot).cells.length = page.cells.length := by simp [SlottedPage.bury]
  have used : (page.bury slot).used = page.used := by
    rw [SlottedPage.used, count, extents, SlottedPage.used]
  have entryEnd {other : ℕ} (otherInside : other < page.cells.length) :
      other * Slot.size + Slot.size ≤ page.cells.length * Slot.size := by
    simp only [Slot.size]
    omega
  have slotEnd := entryEnd inside
  refine ⟨?_, ?_, ?_, ?_, ?_⟩
  · rw [PageData.readHeader_put _ (Nat.le_add_right _ _), represents.numSlots, count]
  · rw [PageData.readHeader_put _ (Nat.le_add_right _ _), represents.freeSpaceOffset, used]
  · rw [count, used]
    exact room
  · intro other otherInside
    rw [count] at otherInside
    rw [extents]
    by_cases same : slot = other
    · subst same
      rw [← entryLength, Memory.window_put_self _ (by rw [entryLength]; omega),
        Slot.fromBytes_toBytes, entry_eq]
      simp [SlottedPage.bury]
    · have apart : other * Slot.size + Slot.size ≤ slot * Slot.size ∨
          slot * Slot.size + Slot.size ≤ other * Slot.size := by
        simp only [Slot.size]
        omega
      rw [Memory.window_put_of_disjoint _ (by rw [entryLength]; omega),
        represents.slot other otherInside]
      simp [SlottedPage.bury, same]
  · intro other otherInside
    rw [count] at otherInside
    have bounds := represents.cell_bounds otherInside
    have sameBytes (bound : other < (page.bury slot).cells.length) :
        ((page.bury slot).cells[other]).bytes = (page.cells[other]).bytes := by
      simp only [SlottedPage.bury, List.getElem_modify]
      split <;> rfl
    rw [extents, sameBytes, Memory.window_put_of_disjoint _ (by rw [entryLength]; omega),
      represents.bytes other otherInside]

theorem deleteTuple_eq (represents : Represents concrete.data page) (slotId : UInt16) :
    ∃ concrete', concrete'.id = concrete.id ∧
      Represents concrete'.data (page.deleteTuple slotId.toNat).2 ∧
      concrete.deleteTuple slotId = .ok ((page.deleteTuple slotId.toNat).1, concrete') ∧
      ((page.deleteTuple slotId.toNat).1 = false → concrete' = concrete) := by
  by_cases inside : slotId.toNat < page.cells.length
  · have room := represents.room
    have known : ¬concrete.data.readHeader.numSlots ≤ slotId := by
      rw [represents.outside_iff]
      omega
    cases active : (page.cells[slotId.toNat]).active with
    | false =>
        have dead : (page.get slotId.toNat).isSome = false := by
          simp [SlottedPage.get, inside, active]
        refine ⟨concrete, rfl, by simpa [SlottedPage.deleteTuple, dead] using represents, ?_,
          fun _ => rfl⟩
        simp [Page.deleteTuple, SlottedPage.deleteTuple, known, represents.readSlot_eq inside,
          dead, active, bind, Except.bind, pure, Except.pure]
    | true =>
        have live : (page.get slotId.toNat).isSome = true := by
          simp [SlottedPage.get, inside, active]
        have fits : PageHeader.size + slotId.toNat * Slot.size + Slot.size ≤ pageSize := by
          simp only [Slot.size] at room ⊢
          omega
        refine ⟨{ concrete with
            data := concrete.data.put (PageHeader.size + slotId.toNat * Slot.size)
              (Slot.toBytes ⟨UInt16.ofNat (pageSize - page.extent (slotId.toNat + 1)),
                UInt16.ofNat (page.cells[slotId.toNat]).bytes.length, false⟩)
            dirty := true }, rfl, ?_, ?_, ?_⟩
        · simpa [SlottedPage.deleteTuple, live] using represents.bury_writes inside rfl
        · simp [Page.deleteTuple, SlottedPage.deleteTuple, known, represents.readSlot_eq inside,
            live, active, bind, Except.bind, pure, Except.pure, Page.writeSlot, Page.slotOffset,
            PageData.copyFromSlice, Slot.length_toBytes, fits, Except.map]
        · simp [SlottedPage.deleteTuple, live]
  · have dead : (page.get slotId.toNat).isSome = false := by simp [SlottedPage.get, inside]
    have unknown : concrete.data.readHeader.numSlots ≤ slotId := by
      rw [represents.outside_iff]
      omega
    refine ⟨concrete, rfl, by simpa [SlottedPage.deleteTuple, dead] using represents, ?_,
          fun _ => rfl⟩
    simp [Page.deleteTuple, SlottedPage.deleteTuple, unknown, dead]

end Operations

end Represents

end VenomDb
