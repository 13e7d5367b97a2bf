import VenomDb.Storage.Page

/-!
# The data file

`data.db` is a sequence of whole pages: every write is one page at a page boundary.
Writing past the end leaves a hole, which reads as zeros. `faults` are the answers
of the operating system to the coming reads and writes, `true` for a refusal;
after the last answer every call succeeds.
-/

namespace VenomDb

structure DiskManager where
  file : List PageData
  numPages : UInt32
  faults : List Bool

namespace DiskManager

/-- Open the data file: the length of the file gives the number of pages. -/
def new (file : List PageData) (faults : List Bool) : DiskManager where
  file := file
  numPages := UInt32.ofNat file.length
  faults := faults

/-- Allocate a new page id; writes nothing yet. Overflow of the counter panics. -/
def allocatePage : Fallible Failure DiskManager UInt32 := fun disk =>
  if disk.numPages.toNat + 1 < 2 ^ 32 then
    (.ok disk.numPages, { disk with numPages := disk.numPages + 1 })
  else (.error (.panic .overflow), disk)

/-- Ask the operating system: fails if the next answer is a refusal. -/
def systemCall : Fallible Failure DiskManager Unit := fun disk =>
  match disk.faults with
  | [] => (.ok (), disk)
  | false :: faults => (.ok (), { disk with faults := faults })
  | true :: faults => (.error (.io .device), { disk with faults := faults })

/-- The file after a page has been written at an index, with zeros in any gap before it. -/
def store (file : List PageData) (index : ℕ) (data : PageData) : List PageData :=
  (file ++ List.replicate (index + 1 - file.length) Memory.zeroed).set index data

/-- Write a page, with its checksum embedded, at its offset. -/
def writePage [Crc32] (page : Page) : Fallible Failure DiskManager Unit := do
  systemCall
  Fallible.modify fun disk =>
    { disk with file := store disk.file page.id.toNat page.data.finalizeChecksum }

/-- Read a page by its id and check its checksum. -/
def readPage [Crc32] (pageId : UInt32) : Fallible Failure DiskManager Page := do
  systemCall
  let disk ← Fallible.get
  match disk.file[pageId.toNat]? with
  | none => Fallible.throw (.io .unexpectedEof)
  | some data =>
      let page := Page.fromBytes pageId data
      if page.data.verifyChecksum then return page
      else Fallible.throw (.io (.checksumMismatch pageId))

/-- A page of the file that passes its checksum. -/
def stored [Crc32] (file : List PageData) (pageId : UInt32) : Option PageData :=
  (file[pageId.toNat]?).filter PageData.verifyChecksum

section Store

variable {file : List PageData}

@[simp]
theorem length_store (index : ℕ) (data : PageData) :
    (store file index data).length = max file.length (index + 1) := by
  simp [store]
  omega

theorem getElem?_store_self (index : ℕ) (data : PageData) :
    (store file index data)[index]? = some data := by
  rw [store, List.getElem?_set_self (by simp; omega)]

/-- A page of the file survives the write of another page. -/
theorem getElem?_store_of_ne {index other : ℕ} {data found : PageData} (ne : index ≠ other)
    (present : file[other]? = some found) : (store file index data)[other]? = some found := by
  have inside : other < file.length := (List.getElem?_eq_some_iff.mp present).1
  rw [store, List.getElem?_set_ne ne, List.getElem?_append_left inside, present]

variable [Crc32]

theorem stored_store_self (pageId : UInt32) (data : PageData) :
    stored (store file pageId.toNat data.finalizeChecksum) pageId = some data.finalizeChecksum := by
  rw [stored, getElem?_store_self, Option.filter_some, if_pos (by simp)]

theorem stored_store_of_ne {pageId other : UInt32} {data found : PageData} (ne : pageId ≠ other)
    (present : stored file other = some found) :
    stored (store file pageId.toNat data) other = some found := by
  rw [stored, Option.filter_eq_some_iff] at present ⊢
  exact ⟨getElem?_store_of_ne (fun same => ne (UInt32.toNat.inj same)) present.1, present.2⟩

theorem stored_lt {pageId : UInt32} {data : PageData} (present : stored file pageId = some data) :
    pageId.toNat < file.length := by
  rw [stored, Option.filter_eq_some_iff] at present
  exact (List.getElem?_eq_some_iff.mp present.1).1

end Store

end DiskManager

end VenomDb
