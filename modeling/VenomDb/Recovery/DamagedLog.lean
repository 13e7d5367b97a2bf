import VenomDb.Recovery.LogFile
import VenomDb.Lib.Readers

/-!
# Reading a damaged log

The length in front of a frame says where the next one starts, and the type byte and the
lengths inside say how much of the frame is read. `from_bytes` slices before it looks at
either, so a complete frame that is too short for its record stops the reader for good.
-/

namespace VenomDb

namespace LogRecord

section Lengths

/-- The `u32` at an offset. -/
def lengthAt (offset : ℕ) (bytes : Bytes) : ℕ := Bytes.ofLe ((bytes.drop offset).take 4)

/-- The bytes after the type byte that a record of a type is read from. -/
def fieldsLength (recordType : UInt8) (fields : Bytes) : ℕ :=
  if recordType = typeBegin ∨ recordType = typeCommit ∨ recordType = typeAbort then 12
  else if recordType = typeInsert ∨ recordType = typeDelete then 22 + lengthAt 18 fields
  else if recordType = typeUpdate then
    26 + lengthAt 18 fields + lengthAt (22 + lengthAt 18 fields) fields
  else if recordType = typeCheckpoint then 8
  else 0

/-- A frame's content is as long as its type and the lengths in it ask for. -/
def LongEnough : Bytes → Prop
  | [] => True
  | recordType :: fields => fieldsLength recordType fields ≤ fields.length

instance : DecidablePred LongEnough
  | [] => inferInstanceAs (Decidable True)
  | recordType :: fields =>
      inferInstanceAs (Decidable (fieldsLength recordType fields ≤ fields.length))

end Lengths

section Fields

open Fallible

theorem takes_readLe (width : ℕ) : Takes (.panic .outOfBounds) (readLe width) fun _ => width := by
  intro bytes
  dsimp only
  by_cases enough : width ≤ bytes.length
  · exact .inl ⟨enough, _, by rw [readLe, if_pos enough]⟩
  · exact .inr ⟨by omega, bytes, by rw [readLe, if_neg enough]⟩

theorem takes_readSized :
    Takes (.panic .outOfBounds) readSized fun bytes => 4 + lengthAt 0 bytes := by
  intro bytes
  dsimp only
  have length : lengthAt 0 bytes = Bytes.ofLe (bytes.take 4) := by simp [lengthAt]
  by_cases enough : 4 ≤ bytes.length
  · have first : readLe 4 bytes = (.ok (lengthAt 0 bytes), bytes.drop 4) := by
      rw [readLe, if_pos enough, length]
    by_cases inside : lengthAt 0 bytes ≤ (bytes.drop 4).length
    · refine .inl ⟨?_, (bytes.drop 4).take (lengthAt 0 bytes), ?_⟩
      · simp only [List.length_drop] at inside
        omega
      · rw [readSized, bind_ok first, get_bind, if_pos inside]
        simp
    · refine .inr ⟨?_, bytes.drop 4, ?_⟩
      · simp only [List.length_drop] at inside
        omega
      · rw [readSized, bind_ok first, get_bind, if_neg inside]
        rfl
  · refine .inr ⟨by omega, bytes, ?_⟩
    have first : readLe 4 bytes = (.error (.panic .outOfBounds), bytes) := by
      rw [readLe, if_neg enough]
    rw [readSized, bind_error first]

theorem takes_readTxn : Takes (.panic .outOfBounds) readTxn fun _ => 12 := by
  have both := (takes_readLe 8).bind fun lsn =>
    (takes_readLe 4).map fun txnId => (UInt64.ofNat lsn, UInt32.ofNat txnId)
  apply both.congr
  intro bytes
  rfl

theorem takes_readTarget : Takes (.panic .outOfBounds) readTarget fun _ => 18 := by
  have all := takes_readTxn.bind fun txn => (takes_readLe 4).bind fun pageId =>
    (takes_readLe 2).map fun slotId =>
      (txn.1, txn.2, UInt32.ofNat pageId, UInt16.ofNat slotId)
  apply all.congr
  intro bytes
  rfl

theorem lengthAt_drop (offset skipped : ℕ) (bytes : Bytes) :
    lengthAt offset (bytes.drop skipped) = lengthAt (skipped + offset) bytes := by
  simp [lengthAt]

/-- A record with one data field. -/
theorem takes_oneField (make : UInt64 × UInt32 × UInt32 × UInt16 → Bytes → Option LogRecord) :
    Takes (.panic .outOfBounds) (do
      let target ← readTarget
      let data ← readSized
      return make target data) fun fields => 22 + lengthAt 18 fields := by
  have both := takes_readTarget.bind fun target => takes_readSized.map (make target)
  apply both.congr
  intro fields
  rw [lengthAt_drop, Nat.add_zero]
  omega

/-- A record with two data fields. -/
theorem takes_twoFields (make : UInt64 × UInt32 × UInt32 × UInt16 → Bytes → Bytes →
    Option LogRecord) :
    Takes (.panic .outOfBounds) (do
      let target ← readTarget
      let oldData ← readSized
      let newData ← readSized
      return make target oldData newData) fun fields =>
        26 + lengthAt 18 fields + lengthAt (22 + lengthAt 18 fields) fields := by
  have all := takes_readTarget.bind fun target =>
    takes_readSized.bind fun oldData => takes_readSized.map (make target oldData)
  apply all.congr
  intro fields
  have second : 18 + (4 + lengthAt 18 fields + 0) = 22 + lengthAt 18 fields := by omega
  rw [lengthAt_drop, lengthAt_drop, lengthAt_drop, Nat.add_zero, second]
  omega

theorem takes_readFields (recordType : UInt8) :
    Takes (.panic .outOfBounds) (readFields recordType) (fieldsLength recordType) := by
  have txn (make : UInt64 × UInt32 → Option LogRecord) :
      Takes (.panic .outOfBounds) (do let txn ← readTxn; return make txn) fun _ => 12 :=
    takes_readTxn.map make
  unfold readFields
  split
  next isBegin =>
    apply (txn fun txn => some (begin txn.1 txn.2)).congr
    simp [fieldsLength, isBegin]
  split
  next isInsert =>
    apply (takes_oneField fun target data =>
      some (insert target.1 target.2.1 target.2.2.1 target.2.2.2 data)).congr
    simp [fieldsLength, isInsert, typeInsert, typeBegin, typeCommit, typeAbort]
  split
  next isDelete =>
    apply (takes_oneField fun target data =>
      some (delete target.1 target.2.1 target.2.2.1 target.2.2.2 data)).congr
    simp [fieldsLength, isDelete, typeDelete, typeBegin, typeCommit, typeAbort]
  split
  next isUpdate =>
    apply (takes_twoFields fun target oldData newData =>
      some (update target.1 target.2.1 target.2.2.1 target.2.2.2 oldData newData)).congr
    simp [fieldsLength, isUpdate, typeUpdate, typeInsert, typeDelete, typeBegin, typeCommit,
      typeAbort]
  split
  next isCommit =>
    apply (txn fun txn => some (commit txn.1 txn.2)).congr
    simp [fieldsLength, isCommit]
  split
  next isAbort =>
    apply (txn fun txn => some (abort txn.1 txn.2)).congr
    simp [fieldsLength, isAbort]
  split
  next isCheckpoint =>
    apply ((takes_readLe 8).map fun lsn => some (checkpoint (UInt64.ofNat lsn))).congr
    simp [fieldsLength, isCheckpoint, typeCheckpoint, typeUpdate, typeInsert, typeDelete, typeBegin,
      typeCommit, typeAbort]
  next isBegin isInsert isDelete isUpdate isCommit isAbort isCheckpoint =>
    apply (takes_pure none).congr
    simp [fieldsLength, isBegin, isInsert, isDelete, isUpdate, isCommit, isAbort, isCheckpoint]

/-- A record is found, or no record, exactly in a content that is long enough. -/
theorem fromBytes_ok_iff (content : Bytes) :
    (∃ found, fromBytes content = .ok found) ↔ LongEnough content := by
  cases content with
  | nil => simp [fromBytes, LongEnough]
  | cons recordType fields => exact (takes_readFields recordType).ok_iff fields

theorem fromBytes_panics_iff (content : Bytes) :
    fromBytes content = .error (.panic .outOfBounds) ↔ ¬ LongEnough content := by
  cases content with
  | nil => simp [fromBytes, LongEnough]
  | cons recordType fields =>
      rw [LongEnough, not_le]
      exact (takes_readFields recordType).fails_iff fields

end Fields

end LogRecord

namespace WalManager

open LogRecord

/-- The contents of the complete frames, as the lengths in front of them cut the file. -/
def frames (bytes : Bytes) : List Bytes :=
  if 4 + lengthAt 0 bytes ≤ bytes.length then
    (bytes.drop 4).take (lengthAt 0 bytes) :: frames (bytes.drop (4 + lengthAt 0 bytes))
  else []
  termination_by bytes.length
  decreasing_by simp; omega

/-- One round of the reader, whatever the frame holds. -/
theorem readAllRecords_round (bytes : Bytes) :
    readAllRecords bytes =
      if 4 + lengthAt 0 bytes ≤ bytes.length then do
        let record ← fromBytes ((bytes.drop 4).take (lengthAt 0 bytes))
        let records ← readAllRecords (bytes.drop (4 + lengthAt 0 bytes))
        return record.toList ++ records
      else .ok [] := by
  have length : lengthAt 0 bytes = Bytes.ofLe (bytes.take 4) := by simp [lengthAt]
  rw [readAllRecords]
  by_cases enough : 4 ≤ bytes.length
  · rw [if_pos enough]
    dsimp only
    rw [← length, List.length_drop, List.drop_drop]
    by_cases inside : 4 + lengthAt 0 bytes ≤ bytes.length
    · rw [if_neg (by omega), if_pos inside]
    · rw [if_pos (by omega), if_neg inside]
  · rw [if_neg enough, if_neg (by omega)]

theorem readAllRecords_ok_iff (bytes : Bytes) :
    (∃ records, readAllRecords bytes = .ok records) ↔
      ∀ content ∈ frames bytes, LongEnough content := by
  induction bytes using frames.induct with
  | case1 bytes inside ih =>
      rw [readAllRecords_round, if_pos inside, frames, if_pos inside, List.forall_mem_cons, ← ih,
        ← fromBytes_ok_iff]
      constructor
      · rintro ⟨records, read⟩
        rcases Fallible.except_bind_eq_ok read with ⟨found, parsed, read'⟩
        rcases Fallible.except_bind_eq_ok read' with ⟨others, more, -⟩
        exact ⟨⟨found, parsed⟩, others, more⟩
      · rintro ⟨⟨found, parsed⟩, others, more⟩
        rw [parsed, more]
        exact ⟨_, rfl⟩
  | case2 bytes outside =>
      rw [readAllRecords_round, if_neg outside, frames, if_neg outside]
      simp

/-- Reading any bytes as a log gives a list of records exactly when every complete frame is long
enough for its record. -/
theorem readAllRecords_returns_iff (bytes : Bytes) :
    ((∃ records, readAllRecords bytes = .ok records) ↔
        ∀ content ∈ frames bytes, LongEnough content) ∧
      ((∃ found, fromBytes bytes = .ok found) ↔ LongEnough bytes) :=
  ⟨readAllRecords_ok_iff bytes, fromBytes_ok_iff bytes⟩

/-- A complete frame of one byte that says it is a `Begin` record. -/
theorem readAllRecords_short_begin :
    (¬ ∃ records, readAllRecords [1, 0, 0, 0, 0] = .ok records) ∧
      fromBytes [0] = .error (.panic .outOfBounds) := by
  have panics : fromBytes [0] = .error (.panic .outOfBounds) := by
    apply (fromBytes_panics_iff [0]).mpr
    decide
  refine ⟨?_, panics⟩
  rintro ⟨records, read⟩
  rw [readAllRecords_round, if_pos (by decide)] at read
  rcases Fallible.except_bind_eq_ok read with ⟨found, parsed, -⟩
  exact absurd (panics.symm.trans parsed) (by simp)

end WalManager

end VenomDb
