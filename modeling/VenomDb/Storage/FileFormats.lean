import Mathlib.Data.UInt
import VenomDb.Lib.Folders
import VenomDb.Storage.DiskManager

/-!
# The bytes of the page lists and of the data file

`{table}.pages` is the number of pages and then their ids; `data.db` is one page after another.
Neither has a header or a mark of its end.
-/

namespace VenomDb

namespace PageList

/-- What `save_table_meta` writes. -/
def toBytes (pageIds : List UInt32) : Bytes :=
  Bytes.toLe 4 pageIds.length ++ pageIds.flatMap fun pageId => Bytes.toLe 4 pageId.toNat

/-- The loop over the page ids, which breaks off where the file ends. -/
def readIds : ℕ → Bytes → List UInt32
  | 0, _ => []
  | count + 1, bytes =>
      if 4 ≤ bytes.length then
        UInt32.ofNat (Bytes.ofLe (bytes.take 4)) :: readIds count (bytes.drop 4)
      else []

/-- What `load_table_meta` makes of the file. -/
def ofBytes (bytes : Bytes) : List UInt32 :=
  if bytes.length < 4 then []
  else readIds (Bytes.ofLe (bytes.take 4)) (bytes.drop 4)

theorem readIds_flatMap (pageIds : List UInt32) :
    readIds pageIds.length (pageIds.flatMap fun pageId => Bytes.toLe 4 pageId.toNat) =
      pageIds := by
  induction pageIds with
  | nil => rfl
  | cons pageId pageIds ih =>
      have small : pageId.toNat < 256 ^ 4 := pageId.toNat_lt
      rw [List.length_cons, List.flatMap_cons, readIds, if_pos (by simp),
        List.take_left' (by simp), List.drop_left' (by simp), Bytes.ofLe_toLe_of_lt small, ih,
        UInt32.ofNat_toNat]

/-- A page list is read as it was written. -/
theorem ofBytes_toBytes {pageIds : List UInt32} (fits : pageIds.length < 2 ^ 32) :
    ofBytes (toBytes pageIds) = pageIds := by
  rw [ofBytes, toBytes, if_neg (by simp), List.take_left' (by simp), List.drop_left' (by simp),
    Bytes.ofLe_toLe_of_lt fits, readIds_flatMap]

end PageList

namespace PageData

/-- `data` after `read_exact`. -/
def ofBytes (bytes : Bytes) : PageData := Memory.zeroed.put 0 bytes

theorem ofBytes_window (data : PageData) : ofBytes (data.window 0 pageSize) = data := by
  ext index inside
  have bound : index < (data.window 0 pageSize).length := by simpa using inside
  rw [ofBytes, Memory.get_put _ inside, if_pos (by simpa using inside), Nat.sub_zero,
    List.getD_eq_getElem _ _ bound, Memory.getElem_window, Nat.zero_add]

end PageData

namespace DiskManager

/-- The data file with these pages. -/
def toBytes (pages : List PageData) : Bytes := pages.flatMap fun data => data.window 0 pageSize

/-- The pages of the data file: as many as there are whole ones, each read at its offset. -/
def ofBytes (bytes : Bytes) : List PageData :=
  (List.range (bytes.length / pageSize)).map fun index =>
    PageData.ofBytes ((bytes.drop (index * pageSize)).take pageSize)

variable {pages : List PageData}

theorem toBytes_cons (data : PageData) (pages : List PageData) :
    toBytes (data :: pages) = data.window 0 pageSize ++ toBytes pages := rfl

theorem toBytes_append (front back : List PageData) :
    toBytes (front ++ back) = toBytes front ++ toBytes back := List.flatMap_append

@[simp]
theorem length_toBytes (pages : List PageData) :
    (toBytes pages).length = pages.length * pageSize := by
  induction pages with
  | nil => simp [toBytes]
  | cons data pages ih =>
      rw [toBytes_cons, List.length_append, ih, Memory.length_window, List.length_cons,
        Nat.succ_mul, Nat.add_comm]

theorem toBytes_take (pages : List PageData) (count : ℕ) :
    (toBytes pages).take (count * pageSize) = toBytes (pages.take count) := by
  by_cases inside : count ≤ pages.length
  · have split : toBytes pages = toBytes (pages.take count) ++ toBytes (pages.drop count) := by
      rw [← toBytes_append, List.take_append_drop]
    rw [split]
    apply List.take_left'
    rw [length_toBytes, List.length_take, Nat.min_eq_left inside]
  · have all : pages.length * pageSize ≤ count * pageSize := by
      apply Nat.mul_le_mul_right
      omega
    rw [List.take_of_length_le (by rw [length_toBytes]; exact all),
      List.take_of_length_le (by omega)]

theorem toBytes_drop (pages : List PageData) (count : ℕ) :
    (toBytes pages).drop (count * pageSize) = toBytes (pages.drop count) := by
  have split : toBytes pages = toBytes (pages.take count) ++ toBytes (pages.drop count) := by
    rw [← toBytes_append, List.take_append_drop]
  have front := List.take_append_drop (count * pageSize) (toBytes pages)
  rw [toBytes_take] at front
  exact List.append_cancel_left (front.trans split)

/-- The data file is read as it was written. -/
theorem ofBytes_toBytes (pages : List PageData) : ofBytes (toBytes pages) = pages := by
  apply List.ext_getElem
  · rw [ofBytes, List.length_map, List.length_range, length_toBytes,
      Nat.mul_div_cancel _ (by decide)]
  · intro index _ inside
    have behind : pages.drop index = pages[index] :: pages.drop (index + 1) :=
      List.drop_eq_getElem_cons inside
    simp only [ofBytes, List.getElem_map, List.getElem_range]
    rw [toBytes_drop, behind, toBytes_cons, List.take_left' (by simp), PageData.ofBytes_window]

theorem toBytes_replicate (count : ℕ) :
    toBytes (List.replicate count Memory.zeroed) = List.replicate (count * pageSize) 0 := by
  have zeros : (Memory.zeroed : PageData).window 0 pageSize = List.replicate pageSize 0 := by
    apply List.eq_replicate_iff.mpr
    refine ⟨Memory.length_window _ _ _, fun byte inside => ?_⟩
    rcases List.mem_map.mp inside with ⟨index, -, rfl⟩
    rw [Memory.get]
    split_ifs
    · rfl
    · rfl
  induction count with
  | zero => simp [toBytes]
  | succ count ih =>
      rw [List.replicate_succ, toBytes_cons, ih, zeros, ← List.replicate_add, Nat.succ_mul,
        Nat.add_comm]

/-- What a page write leaves: the pages before it, zeros in a gap, the page and the pages after. -/
theorem store_eq (pages : List PageData) (index : ℕ) (data : PageData) :
    store pages index data =
      pages.take index ++ List.replicate (index - pages.length) Memory.zeroed ++ [data] ++
        pages.drop (index + 1) := by
  by_cases inside : index < pages.length
  · have noGap : index + 1 - pages.length = 0 := by omega
    have noGap' : index - pages.length = 0 := by omega
    rw [store, noGap, noGap', List.replicate_zero, List.append_nil, List.append_nil,
      List.set_eq_take_append_cons_drop, if_pos inside, List.append_assoc, List.singleton_append]
  · have gap : index + 1 - pages.length = index - pages.length + 1 := by omega
    have last : (pages ++ List.replicate (index - pages.length) Memory.zeroed).length = index := by
      rw [List.length_append, List.length_replicate]
      omega
    rw [store, gap, List.replicate_succ', ← List.append_assoc,
      List.set_append_right _ _ (by rw [last]), last, Nat.sub_self, List.set_cons_zero,
      List.take_of_length_le (by omega), List.drop_of_length_le (by omega), List.append_nil]

/-- A page write is one write at the offset of the page. -/
theorem overwrite_toBytes (pages : List PageData) (index : ℕ) (data : PageData) :
    Folder.overwrite (index * pageSize) (data.window 0 pageSize) (toBytes pages) =
      toBytes (store pages index data) := by
  have behind : index * pageSize + (data.window 0 pageSize).length = (index + 1) * pageSize := by
    rw [Memory.length_window, Nat.succ_mul]
  have single : toBytes [data] = data.window 0 pageSize := List.flatMap_singleton _ _
  rw [Folder.overwrite, behind, toBytes_take, toBytes_drop, length_toBytes, ← Nat.sub_mul,
    ← toBytes_replicate, store_eq, toBytes_append, toBytes_append, toBytes_append, single]

end DiskManager

end VenomDb
