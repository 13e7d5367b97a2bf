import Mathlib.Tactic
import Mathlib.Data.List.GetD

/-!
# Bytes, little-endian numbers and fixed-size memories

`toLe` and `ofLe` are the little-endian encodings of a natural number in a given
number of bytes. `Memory size` is an array of `size` bytes with windows and
block writes; the lemmas say what a window sees after a write.
-/

/-- A byte string. -/
abbrev Bytes := List UInt8

namespace Bytes

/-- The `width` low bytes of a number, least significant first. -/
def toLe : ℕ → ℕ → Bytes
  | 0, _ => []
  | width + 1, value => UInt8.ofNat value :: toLe width (value / 256)

/-- The number a little-endian byte string stands for. -/
def ofLe : Bytes → ℕ
  | [] => 0
  | byte :: bytes => byte.toNat + 256 * ofLe bytes

@[simp]
theorem length_toLe (width value : ℕ) : (toLe width value).length = width := by
  induction width generalizing value with
  | zero => rfl
  | succ width ih => simp [toLe, ih]

theorem ofLe_toLe (width value : ℕ) : ofLe (toLe width value) = value % 256 ^ width := by
  induction width generalizing value with
  | zero => simp [toLe, ofLe, Nat.mod_one]
  | succ width ih =>
      have byte : (UInt8.ofNat value).toNat = value % 256 := UInt8.toNat_ofNat'
      calc ofLe (toLe (width + 1) value)
          = value % 256 + 256 * (value / 256 % 256 ^ width) := by rw [toLe, ofLe, byte, ih]
        _ = value % 256 ^ (width + 1) := by rw [Nat.pow_succ', Nat.mod_mul]

theorem ofLe_toLe_of_lt {width value : ℕ} (fits : value < 256 ^ width) :
    ofLe (toLe width value) = value := by
  rw [ofLe_toLe, Nat.mod_eq_of_lt fits]

theorem toLe_ofLe (bytes : Bytes) : toLe bytes.length (ofLe bytes) = bytes := by
  induction bytes with
  | nil => rfl
  | cons byte bytes ih =>
      have bound := byte.toNat_lt
      have quotient : (byte.toNat + 256 * ofLe bytes) / 256 = ofLe bytes := by omega
      have head : UInt8.ofNat (byte.toNat + 256 * ofLe bytes) = byte := by
        apply UInt8.toNat.inj
        rw [UInt8.toNat_ofNat']
        omega
      simp only [List.length_cons, ofLe, toLe, quotient, ih, head]

theorem ofLe_lt (bytes : Bytes) : ofLe bytes < 256 ^ bytes.length := by
  induction bytes with
  | nil => simp [ofLe]
  | cons byte bytes ih =>
      have bound := byte.toNat_lt
      simp only [ofLe, List.length_cons, Nat.pow_succ]
      omega

end Bytes

/-- An array of `size` bytes. -/
structure Memory (size : ℕ) where
  read : Fin size → UInt8

namespace Memory

variable {size : ℕ}

/-- All bytes zero. -/
def zeroed : Memory size := ⟨fun _ => 0⟩

/-- The byte at an offset; offsets outside the memory read zero. -/
def get (memory : Memory size) (offset : ℕ) : UInt8 :=
  if inside : offset < size then memory.read ⟨offset, inside⟩ else 0

/-- The `length` bytes from `offset` on. -/
def window (memory : Memory size) (offset length : ℕ) : Bytes :=
  (List.range length).map fun index => memory.get (offset + index)

/-- Overwrite the bytes from `offset` on. -/
def put (memory : Memory size) (offset : ℕ) (bytes : Bytes) : Memory size where
  read index :=
    if offset ≤ index.val ∧ index.val < offset + bytes.length then
      bytes.getD (index.val - offset) 0
    else memory.read index

@[simp]
theorem length_window (memory : Memory size) (offset length : ℕ) :
    (memory.window offset length).length = length := by
  simp [window]

theorem getElem_window (memory : Memory size) {offset length index : ℕ}
    (bound : index < (memory.window offset length).length) :
    (memory.window offset length)[index] = memory.get (offset + index) := by
  simp [window]

theorem get_put (memory : Memory size) {offset : ℕ} {bytes : Bytes} {index : ℕ}
    (inside : index < size) :
    (memory.put offset bytes).get index =
      if offset ≤ index ∧ index < offset + bytes.length then bytes.getD (index - offset) 0
      else memory.get index := by
  simp [get, put, inside]

@[ext]
theorem ext {left right : Memory size}
    (agree : ∀ index, index < size → left.get index = right.get index) : left = right := by
  have same : left.read = right.read := by
    funext index
    have agreed := agree index.val index.isLt
    simpa [get, index.isLt] using agreed
  cases left
  cases right
  simpa using same

/-- A window that a write does not touch is unchanged. -/
theorem window_put_of_disjoint (memory : Memory size) {offset start length : ℕ} {bytes : Bytes}
    (disjoint : start + length ≤ offset ∨ offset + bytes.length ≤ start) :
    (memory.put offset bytes).window start length = memory.window start length := by
  apply List.ext_getElem
  · simp
  · intro index bound _
    simp only [length_window] at bound
    rw [getElem_window, getElem_window]
    by_cases inside : start + index < size
    · rw [get_put _ inside, if_neg (by omega)]
    · simp [get, inside]

/-- The window just written holds the bytes written. -/
theorem window_put_self (memory : Memory size) {offset : ℕ} {bytes : Bytes}
    (inside : offset + bytes.length ≤ size) :
    (memory.put offset bytes).window offset bytes.length = bytes := by
  apply List.ext_getElem
  · simp
  · intro index bound bound'
    rw [getElem_window, get_put _ (by omega), if_pos (by omega)]
    simp [bound']

/-- Overwriting the front of a window leaves its tail. -/
theorem window_put_front (memory : Memory size) {offset length : ℕ} {bytes : Bytes}
    (inside : offset + length ≤ size) (shorter : bytes.length ≤ length) :
    (memory.put offset bytes).window offset length =
      bytes ++ (memory.window offset length).drop bytes.length := by
  apply List.ext_getElem
  · simp
    omega
  · intro index bound bound'
    simp only [length_window] at bound
    rw [getElem_window, get_put _ (by omega)]
    by_cases front : index < bytes.length
    · rw [if_pos (by omega), List.getElem_append_left front]
      simp [front]
    · rw [if_neg (by omega), List.getElem_append_right (by omega), List.getElem_drop,
        getElem_window]
      congr 1
      omega

/-- Consecutive windows join. -/
theorem window_add (memory : Memory size) (offset left right : ℕ) :
    memory.window offset (left + right) =
      memory.window offset left ++ memory.window (offset + left) right := by
  simp [window, List.range_add, Nat.add_assoc, Function.comp_def]

theorem drop_take_window (memory : Memory size) (offset : ℕ) {length : ℕ} (skip count : ℕ)
    (inside : skip + count ≤ length) :
    ((memory.window offset length).drop skip).take count =
      memory.window (offset + skip) count := by
  obtain ⟨rest, rfl⟩ : ∃ rest, length = skip + (count + rest) := ⟨length - skip - count, by omega⟩
  rw [window_add, window_add, List.drop_left' (by simp), List.take_left' (by simp)]

/-- Writing two adjacent blocks is writing their concatenation. -/
theorem put_append (memory : Memory size) (offset : ℕ) (front back : Bytes) :
    memory.put offset (front ++ back) =
      (memory.put offset front).put (offset + front.length) back := by
  ext index inside
  rw [get_put _ inside, get_put _ inside, get_put _ inside, List.length_append]
  by_cases inBack : offset + front.length ≤ index
  · by_cases bound : index < offset + front.length + back.length
    · rw [if_pos (by omega), if_pos (by omega), List.getD_append_right _ _ _ _ (by omega),
        Nat.sub_add_eq]
    · rw [if_neg (by omega), if_neg (by omega), if_neg (by omega)]
  · by_cases inFront : offset ≤ index
    · rw [if_pos (by omega), if_neg (by omega), if_pos (by omega),
        List.getD_append _ _ _ _ (by omega)]
    · rw [if_neg (by omega), if_neg (by omega), if_neg (by omega)]

/-- Writing back what a window shows changes nothing. -/
theorem put_window (memory : Memory size) (offset length : ℕ) :
    memory.put offset (memory.window offset length) = memory := by
  ext index inside
  rw [get_put _ inside, length_window]
  by_cases touched : offset ≤ index ∧ index < offset + length
  · have bound : index - offset < (memory.window offset length).length := by
      rw [length_window]
      omega
    rw [if_pos touched, List.getD_eq_getElem _ _ bound, getElem_window,
      Nat.add_sub_cancel' touched.1]
  · rw [if_neg touched]

/-- A later write of the same length hides an earlier one. -/
theorem put_put (memory : Memory size) {offset : ℕ} {first second : Bytes}
    (sameLength : first.length = second.length) :
    (memory.put offset first).put offset second = memory.put offset second := by
  ext index inside
  rw [get_put _ inside, get_put _ inside, get_put _ inside, sameLength]
  split <;> rfl

end Memory
