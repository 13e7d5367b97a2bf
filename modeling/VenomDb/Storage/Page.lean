import VenomDb.Failure
import VenomDb.Lib.Bytes

/-!
# Slotted pages

A page is 4096 bytes: a 12 byte header, a directory of 5 byte slot entries that
grows from the front, and tuples that grow from the back. Everything is read from
and written to the bytes. Slices outside the page panic, as they do in the source.
-/

namespace VenomDb

def pageSize : ℕ := 4096

/-- `[u8; PAGE_SIZE]`. -/
abbrev PageData := Memory pageSize

namespace PageData

/-- `&data[start..start + length]`. -/
def slice (data : PageData) (start length : ℕ) : Except Failure Bytes :=
  if start + length ≤ pageSize then .ok (data.window start length)
  else .error (.panic .outOfBounds)

/-- `data[start..start + bytes.len()].copy_from_slice(bytes)`. -/
def copyFromSlice (data : PageData) (start : ℕ) (bytes : Bytes) : Except Failure PageData :=
  if start + bytes.length ≤ pageSize then .ok (data.put start bytes)
  else .error (.panic .outOfBounds)

end PageData

/-- Slot entry: where in the page a tuple lives. An inactive slot is a tombstone. -/
structure Slot where
  offset : UInt16
  length : UInt16
  active : Bool
  deriving DecidableEq

namespace Slot

def size : ℕ := 5

def toBytes (slot : Slot) : Bytes :=
  Bytes.toLe 2 slot.offset.toNat ++ Bytes.toLe 2 slot.length.toNat ++
    [if slot.active then 1 else 0]

def fromBytes (buffer : Bytes) : Slot where
  offset := UInt16.ofNat (Bytes.ofLe (buffer.take 2))
  length := UInt16.ofNat (Bytes.ofLe ((buffer.drop 2).take 2))
  active := buffer.getD 4 0 != 0

end Slot

/-- Fixed metadata at the very start of the page. -/
structure PageHeader where
  pageId : UInt32
  numSlots : UInt16
  /-- Start of the tuple area: tuples grow backwards from the end. -/
  freeSpaceOffset : UInt16
  checksum : UInt32
  deriving DecidableEq

namespace PageHeader

def size : ℕ := 12

def toBytes (header : PageHeader) : Bytes :=
  Bytes.toLe 4 header.pageId.toNat ++ Bytes.toLe 2 header.numSlots.toNat ++
    Bytes.toLe 2 header.freeSpaceOffset.toNat ++ Bytes.toLe 4 header.checksum.toNat

def fromBytes (buffer : Bytes) : PageHeader where
  pageId := UInt32.ofNat (Bytes.ofLe (buffer.take 4))
  numSlots := UInt16.ofNat (Bytes.ofLe ((buffer.drop 4).take 2))
  freeSpaceOffset := UInt16.ofNat (Bytes.ofLe ((buffer.drop 6).take 2))
  checksum := UInt32.ofNat (Bytes.ofLe ((buffer.drop 8).take 4))

end PageHeader

/-- The hash of `crc32fast`: some function of the bytes of a page. -/
class Crc32 where
  hash : PageData → UInt32

/-- One byte of a CRC-32, bit by bit. -/
def Crc32.step (crc : UInt32) (byte : UInt8) : UInt32 :=
  (List.range 8).foldl (fun crc _ =>
    if crc &&& 1 = 1 then (crc >>> 1) ^^^ 0xEDB88320 else crc >>> 1) (crc ^^^ byte.toUInt32)

def Crc32.ofBytes (bytes : Bytes) : UInt32 := bytes.foldl Crc32.step 0xFFFFFFFF ^^^ 0xFFFFFFFF

/-- The CRC-32 that `crc32fast` computes. Nothing but concrete runs depends on it. -/
@[reducible]
def Crc32.ieee : Crc32 where
  hash data := Crc32.ofBytes (data.window 0 pageSize)

-- the check value of the polynomial, for the bytes of "123456789"
example : Crc32.ofBytes [49, 50, 51, 52, 53, 54, 55, 56, 57] = 0xCBF43926 := by
  decide +kernel

structure Page where
  id : UInt32
  data : PageData
  dirty : Bool

namespace PageData

def readHeader (data : PageData) : PageHeader :=
  PageHeader.fromBytes (data.window 0 PageHeader.size)

def writeHeader (data : PageData) (header : PageHeader) : PageData :=
  data.put 0 header.toBytes

/-- Compute and embed the checksum. -/
def finalizeChecksum [Crc32] (data : PageData) : PageData :=
  let header := data.readHeader
  let cleared := data.writeHeader { header with checksum := 0 }
  cleared.writeHeader { header with checksum := Crc32.hash cleared }

/-- Verify the checksum after reading from disk. -/
def verifyChecksum [Crc32] (data : PageData) : Bool :=
  Crc32.hash (data.put 8 [0, 0, 0, 0]) == data.readHeader.checksum

end PageData

namespace Page

def new (id : UInt32) : Page where
  id := id
  data := PageData.writeHeader Memory.zeroed
    { pageId := id, numSlots := 0, freeSpaceOffset := UInt16.ofNat pageSize, checksum := 0 }
  dirty := true

def fromBytes (id : UInt32) (data : PageData) : Page where
  id := id
  data := data
  dirty := false

def slotOffset (slotId : UInt16) : ℕ := PageHeader.size + slotId.toNat * Slot.size

def readSlot (page : Page) (slotId : UInt16) : Except Failure Slot :=
  (page.data.slice (slotOffset slotId) Slot.size).map Slot.fromBytes

def writeSlot (page : Page) (slotId : UInt16) (slot : Slot) : Except Failure Page :=
  (page.data.copyFromSlice (slotOffset slotId) slot.toBytes).map fun data =>
    { page with data := data }

/-- Insert a tuple. Gives the slot id, or `none` if the page is full. -/
def insertTuple (page : Page) (tuple : Bytes) : Except Failure (Option UInt16 × Page) :=
  let header := page.data.readHeader
  -- `tuple.len() as u16` keeps the low 16 bits only
  let tupleLen := UInt16.ofNat tuple.length
  if header.freeSpaceOffset < tupleLen then .ok (none, page)
  else
    let newFreeOffset := header.freeSpaceOffset - tupleLen
    let slotAreaEnd := PageHeader.size + (header.numSlots.toNat + 1) * Slot.size
    if slotAreaEnd > newFreeOffset.toNat then .ok (none, page)
    else do
      let data ← page.data.copyFromSlice newFreeOffset.toNat tuple
      let page ← writeSlot { page with data := data } header.numSlots
        { offset := newFreeOffset, length := tupleLen, active := true }
      return (some header.numSlots,
        { page with
          data := page.data.writeHeader
            { header with numSlots := header.numSlots + 1, freeSpaceOffset := newFreeOffset }
          dirty := true })

/-- Read a tuple by slot id. `none` if deleted or invalid. -/
def getTuple (page : Page) (slotId : UInt16) : Except Failure (Option Bytes) :=
  if page.data.readHeader.numSlots ≤ slotId then .ok none
  else do
    let slot ← page.readSlot slotId
    if slot.active then
      return some (← page.data.slice slot.offset.toNat slot.length.toNat)
    else return none

/-- Overwrite the front of a tuple in place; the slot keeps its length. -/
def updateTuple (page : Page) (slotId : UInt16) (newData : Bytes) : Except Failure (Bool × Page) :=
  if page.data.readHeader.numSlots ≤ slotId then .ok (false, page)
  else do
    let slot ← page.readSlot slotId
    if slot.active then
      if newData.length > slot.length.toNat then return (false, page)
      else
        let data ← page.data.copyFromSlice slot.offset.toNat newData
        return (true, { page with data := data, dirty := true })
    else return (false, page)

/-- Mark a tuple as deleted. Its space is not reclaimed. -/
def deleteTuple (page : Page) (slotId : UInt16) : Except Failure (Bool × Page) :=
  if page.data.readHeader.numSlots ≤ slotId then .ok (false, page)
  else do
    let slot ← page.readSlot slotId
    if slot.active then
      let page ← page.writeSlot slotId { slot with active := false }
      return (true, { page with dirty := true })
    else return (false, page)

/-- How many bytes of usable free space remain. -/
def freeSpace (page : Page) : ℕ :=
  let header := page.data.readHeader
  -- `saturating_sub`
  header.freeSpaceOffset.toNat - (PageHeader.size + header.numSlots.toNat * Slot.size)

def numSlots (page : Page) : UInt16 := page.data.readHeader.numSlots

end Page

section Encoding

theorem Slot.length_toBytes (slot : Slot) : slot.toBytes.length = Slot.size := by
  simp [toBytes, size]

theorem PageHeader.length_toBytes (header : PageHeader) :
    header.toBytes.length = PageHeader.size := by
  simp [toBytes, size]

theorem ofLe_toLe_uint16 (value : UInt16) :
    UInt16.ofNat (Bytes.ofLe (Bytes.toLe 2 value.toNat)) = value := by
  rw [Bytes.ofLe_toLe_of_lt (lt_of_lt_of_le value.toNat_lt (by norm_num)), UInt16.ofNat_toNat]

theorem ofLe_toLe_uint32 (value : UInt32) :
    UInt32.ofNat (Bytes.ofLe (Bytes.toLe 4 value.toNat)) = value := by
  rw [Bytes.ofLe_toLe_of_lt (lt_of_lt_of_le value.toNat_lt (by norm_num)), UInt32.ofNat_toNat]

@[simp]
theorem Slot.fromBytes_toBytes (slot : Slot) : fromBytes slot.toBytes = slot := by
  rcases slot with ⟨offset, length, active⟩
  simp only [fromBytes, toBytes, mk.injEq]
  refine ⟨?_, ?_, ?_⟩
  · rw [List.append_assoc, List.take_left' (by simp)]
    exact ofLe_toLe_uint16 offset
  · rw [List.append_assoc, List.drop_left' (by simp), List.take_left' (by simp)]
    exact ofLe_toLe_uint16 length
  · cases active <;> simp [Bytes.toLe]

@[simp]
theorem PageHeader.fromBytes_toBytes (header : PageHeader) : fromBytes header.toBytes = header := by
  rcases header with ⟨pageId, numSlots, freeSpaceOffset, checksum⟩
  simp only [fromBytes, toBytes, List.append_assoc, mk.injEq]
  refine ⟨?_, ?_, ?_, ?_⟩
  · rw [List.take_left' (by simp)]
    exact ofLe_toLe_uint32 pageId
  · rw [List.drop_left' (by simp), List.take_left' (by simp)]
    exact ofLe_toLe_uint16 numSlots
  · rw [← List.append_assoc, List.drop_left' (by simp), List.take_left' (by simp)]
    exact ofLe_toLe_uint16 freeSpaceOffset
  · rw [← List.append_assoc, ← List.append_assoc, List.drop_left' (by simp)]
    rw [List.take_of_length_le (by simp)]
    exact ofLe_toLe_uint32 checksum

end Encoding

namespace PageData

@[simp]
theorem readHeader_writeHeader (data : PageData) (header : PageHeader) :
    (data.writeHeader header).readHeader = header := by
  have window : (data.writeHeader header).window 0 PageHeader.size = header.toBytes := by
    rw [← header.length_toBytes]
    exact data.window_put_self (by rw [header.length_toBytes]; decide)
  rw [readHeader, window, PageHeader.fromBytes_toBytes]

/-- Behind the header, a header write changes nothing. -/
theorem window_writeHeader (data : PageData) (header : PageHeader) {start length : ℕ}
    (behind : PageHeader.size ≤ start) :
    (data.writeHeader header).window start length = data.window start length :=
  data.window_put_of_disjoint (by rw [header.length_toBytes]; omega)

/-- A write behind the header leaves the header alone. -/
theorem readHeader_put (data : PageData) {start : ℕ} {bytes : Bytes}
    (behind : PageHeader.size ≤ start) : readHeader (data.put start bytes) = readHeader data := by
  rw [readHeader, data.window_put_of_disjoint (by omega), readHeader]

/-- The page with its checksum field zeroed: what of a page a flush does not change. -/
def cleared (data : PageData) : PageData := data.put 8 [0, 0, 0, 0]

theorem toLe_ofLe_window (data : PageData) (start length : ℕ) :
    Bytes.toLe length (Bytes.ofLe (data.window start length)) = data.window start length := by
  simpa using Bytes.toLe_ofLe (data.window start length)

theorem toLe_toNat_uint16 (data : PageData) (start : ℕ) :
    Bytes.toLe 2 (UInt16.ofNat (Bytes.ofLe (data.window start 2))).toNat = data.window start 2 := by
  have bound := Bytes.ofLe_lt (data.window start 2)
  rw [Memory.length_window] at bound
  rw [UInt16.toNat_ofNat_of_lt' (lt_of_lt_of_le bound (by decide)), toLe_ofLe_window]

theorem toLe_toNat_uint32 (data : PageData) (start : ℕ) :
    Bytes.toLe 4 (UInt32.ofNat (Bytes.ofLe (data.window start 4))).toNat = data.window start 4 := by
  have bound := Bytes.ofLe_lt (data.window start 4)
  rw [Memory.length_window] at bound
  rw [UInt32.toNat_ofNat_of_lt' (lt_of_lt_of_le bound (by decide)), toLe_ofLe_window]

/-- Rewriting the header with another checksum only touches the checksum field. -/
theorem writeHeader_checksum (data : PageData) (checksum : UInt32) :
    data.writeHeader { data.readHeader with checksum := checksum } =
      data.put 8 (Bytes.toLe 4 checksum.toNat) := by
  have idField : (data.window 0 PageHeader.size).take 4 = data.window 0 4 := by
    simpa using
      data.drop_take_window 0 0 4 (by decide : _ ≤ PageHeader.size)
  have slotsField : ((data.window 0 PageHeader.size).drop 4).take 2 = data.window 4 2 := by
    simpa using
      data.drop_take_window 0 4 2 (by decide : _ ≤ PageHeader.size)
  have freeField : ((data.window 0 PageHeader.size).drop 6).take 2 = data.window 6 2 := by
    simpa using
      data.drop_take_window 0 6 2 (by decide : _ ≤ PageHeader.size)
  have front : data.window 0 4 ++ data.window 4 2 ++ data.window 6 2 = data.window 0 8 := by
    rw [data.window_add 0 4 4, data.window_add 4 2 2, List.append_assoc]
  simp only [writeHeader, PageHeader.toBytes, readHeader, PageHeader.fromBytes, idField, slotsField,
    freeField, toLe_toNat_uint16, toLe_toNat_uint32, front]
  rw [Memory.put_append, Memory.put_window, Memory.length_window]

theorem readHeader_cleared (data : PageData) :
    data.cleared.readHeader = { data.readHeader with checksum := 0 } := by
  have cleared_eq : data.writeHeader { data.readHeader with checksum := 0 } = data.cleared :=
    data.writeHeader_checksum 0
  rw [← cleared_eq, readHeader_writeHeader]

theorem finalizeChecksum_eq [Crc32] (data : PageData) :
    data.finalizeChecksum = data.put 8 (Bytes.toLe 4 (Crc32.hash data.cleared).toNat) := by
  have cleared_eq : data.writeHeader { data.readHeader with checksum := 0 } = data.cleared :=
    data.writeHeader_checksum 0
  have rewrite := data.cleared.writeHeader_checksum (Crc32.hash data.cleared)
  rw [readHeader_cleared] at rewrite
  rw [finalizeChecksum, cleared_eq]
  simp only at rewrite ⊢
  rw [rewrite, cleared, Memory.put_put _ (by simp)]

/-- A flush changes nothing but the checksum field. -/
@[simp]
theorem cleared_finalizeChecksum [Crc32] (data : PageData) :
    data.finalizeChecksum.cleared = data.cleared := by
  rw [finalizeChecksum_eq, cleared, Memory.put_put _ (by simp), cleared]

@[simp]
theorem cleared_cleared (data : PageData) : data.cleared.cleared = data.cleared :=
  Memory.put_put _ rfl

/-- What a flush writes passes the check of a later read. -/
@[simp]
theorem verifyChecksum_finalizeChecksum [Crc32] (data : PageData) :
    data.finalizeChecksum.verifyChecksum = true := by
  have cleared_eq : data.writeHeader { data.readHeader with checksum := 0 } = data.cleared :=
    data.writeHeader_checksum 0
  have stored : data.finalizeChecksum.readHeader.checksum = Crc32.hash data.cleared := by
    rw [finalizeChecksum, cleared_eq]
    simp
  have hashed : data.finalizeChecksum.put 8 [0, 0, 0, 0] = data.cleared :=
    data.cleared_finalizeChecksum
  simp [verifyChecksum, stored, hashed]

end PageData

end VenomDb
