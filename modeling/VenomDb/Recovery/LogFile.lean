import VenomDb.Recovery.Sessions
import VenomDb.Lib.Bytes

/-!
# The log file as bytes

How log records are framed in the file, and how `read_all_records` gets them back. A
frame is the length of the record and then the record; the reader finds the next frame
only by the length of the one before.
-/

namespace VenomDb

namespace LogRecord

section Encoding

def typeBegin : UInt8 := 0

def typeInsert : UInt8 := 1

def typeDelete : UInt8 := 2

def typeUpdate : UInt8 := 3

def typeCommit : UInt8 := 4

def typeAbort : UInt8 := 5

def typeCheckpoint : UInt8 := 6

/-- A length as a `u32` and then the bytes. -/
def sized (data : Bytes) : Bytes := Bytes.toLe 4 data.length ++ data

/-- The record without its frame. -/
def body : LogRecord → Bytes
  | begin lsn txnId => typeBegin :: (Bytes.toLe 8 lsn.toNat ++ Bytes.toLe 4 txnId.toNat)
  | insert lsn txnId pageId slotId data =>
      typeInsert :: (Bytes.toLe 8 lsn.toNat ++ (Bytes.toLe 4 txnId.toNat ++
        (Bytes.toLe 4 pageId.toNat ++ (Bytes.toLe 2 slotId.toNat ++ sized data))))
  | delete lsn txnId pageId slotId oldData =>
      typeDelete :: (Bytes.toLe 8 lsn.toNat ++ (Bytes.toLe 4 txnId.toNat ++
        (Bytes.toLe 4 pageId.toNat ++ (Bytes.toLe 2 slotId.toNat ++ sized oldData))))
  | update lsn txnId pageId slotId oldData newData =>
      typeUpdate :: (Bytes.toLe 8 lsn.toNat ++ (Bytes.toLe 4 txnId.toNat ++
        (Bytes.toLe 4 pageId.toNat ++ (Bytes.toLe 2 slotId.toNat ++
          (sized oldData ++ sized newData)))))
  | commit lsn txnId => typeCommit :: (Bytes.toLe 8 lsn.toNat ++ Bytes.toLe 4 txnId.toNat)
  | abort lsn txnId => typeAbort :: (Bytes.toLe 8 lsn.toNat ++ Bytes.toLe 4 txnId.toNat)
  | checkpoint lsn => typeCheckpoint :: Bytes.toLe 8 lsn.toNat

/-- The record in its frame. -/
def toBytes (record : LogRecord) : Bytes := sized record.body

/-- The lengths of the record and of its data fit the `u32` that holds them. -/
def Fits (record : LogRecord) : Prop := record.body.length < 2 ^ 32

instance : DecidablePred Fits := fun _ => inferInstanceAs (Decidable (_ < _))

end Encoding

section Decoding

/-- A little-endian number of some bytes; slicing past the end panics. -/
def readLe (width : ℕ) : Fallible Failure Bytes ℕ := fun bytes =>
  if width ≤ bytes.length then (.ok (Bytes.ofLe (bytes.take width)), bytes.drop width)
  else (.error (.panic .outOfBounds), bytes)

/-- `read_bytes!`: a length and then the bytes. -/
def readSized : Fallible Failure Bytes Bytes := do
  let length ← readLe 4
  let bytes ← Fallible.get
  if length ≤ bytes.length then do
    Fallible.modify fun bytes => bytes.drop length
    return bytes.take length
  else Fallible.throw (.panic .outOfBounds)

def readTxn : Fallible Failure Bytes (UInt64 × UInt32) := do
  let lsn ← readLe 8
  let txnId ← readLe 4
  return (UInt64.ofNat lsn, UInt32.ofNat txnId)

/-- The fields that all data records start with. -/
def readTarget : Fallible Failure Bytes (UInt64 × UInt32 × UInt32 × UInt16) := do
  let (lsn, txnId) ← readTxn
  let pageId ← readLe 4
  let slotId ← readLe 2
  return (lsn, txnId, UInt32.ofNat pageId, UInt16.ofNat slotId)

/-- The record after its type byte. -/
def readFields (recordType : UInt8) : Fallible Failure Bytes (Option LogRecord) :=
  if recordType = typeBegin then do
    let (lsn, txnId) ← readTxn
    return some (begin lsn txnId)
  else if recordType = typeInsert then do
    let (lsn, txnId, pageId, slotId) ← readTarget
    let data ← readSized
    return some (insert lsn txnId pageId slotId data)
  else if recordType = typeDelete then do
    let (lsn, txnId, pageId, slotId) ← readTarget
    let oldData ← readSized
    return some (delete lsn txnId pageId slotId oldData)
  else if recordType = typeUpdate then do
    let (lsn, txnId, pageId, slotId) ← readTarget
    let oldData ← readSized
    let newData ← readSized
    return some (update lsn txnId pageId slotId oldData newData)
  else if recordType = typeCommit then do
    let (lsn, txnId) ← readTxn
    return some (commit lsn txnId)
  else if recordType = typeAbort then do
    let (lsn, txnId) ← readTxn
    return some (abort lsn txnId)
  else if recordType = typeCheckpoint then do
    let lsn ← readLe 8
    return some (checkpoint (UInt64.ofNat lsn))
  else return none

/-- Bytes after the last field are ignored. -/
def fromBytes : Bytes → Except Failure (Option LogRecord)
  | [] => .ok none
  | recordType :: bytes => (readFields recordType bytes).1

end Decoding

section RoundTrip

variable {bytes : Bytes}

theorem readLe_toLe (width value : ℕ) (fits : value < 256 ^ width) :
    readLe width (Bytes.toLe width value ++ bytes) = (.ok value, bytes) := by
  rw [readLe, if_pos (by simp), List.take_left' (by simp), List.drop_left' (by simp),
    Bytes.ofLe_toLe_of_lt fits]

theorem readSized_sized {data : Bytes} (fits : data.length < 2 ^ 32) :
    readSized (sized data ++ bytes) = (.ok data, bytes) := by
  have length : readLe 4 (sized data ++ bytes) = (.ok data.length, data ++ bytes) := by
    rw [sized, List.append_assoc]
    exact readLe_toLe 4 data.length fits
  rw [readSized, Fallible.bind_ok length, Fallible.get_bind, if_pos (by simp)]
  simp

theorem readTxn_toLe (lsn : UInt64) (txnId : UInt32) :
    readTxn (Bytes.toLe 8 lsn.toNat ++ (Bytes.toLe 4 txnId.toNat ++ bytes)) =
      (.ok (lsn, txnId), bytes) := by
  rw [readTxn, Fallible.bind_ok (readLe_toLe 8 _ lsn.toNat_lt),
    Fallible.bind_ok (readLe_toLe 4 _ txnId.toNat_lt)]
  simp

theorem readTarget_toLe (lsn : UInt64) (txnId pageId : UInt32) (slotId : UInt16) :
    readTarget (Bytes.toLe 8 lsn.toNat ++ (Bytes.toLe 4 txnId.toNat ++
        (Bytes.toLe 4 pageId.toNat ++ (Bytes.toLe 2 slotId.toNat ++ bytes)))) =
      (.ok (lsn, txnId, pageId, slotId), bytes) := by
  rw [readTarget, Fallible.bind_ok (readTxn_toLe lsn txnId)]
  dsimp only
  rw [Fallible.bind_ok (readLe_toLe 4 _ pageId.toNat_lt),
    Fallible.bind_ok (readLe_toLe 2 _ slotId.toNat_lt)]
  simp

theorem readTxn_toLe_nil (lsn : UInt64) (txnId : UInt32) :
    readTxn (Bytes.toLe 8 lsn.toNat ++ Bytes.toLe 4 txnId.toNat) = (.ok (lsn, txnId), []) := by
  have read : readTxn (Bytes.toLe 8 lsn.toNat ++ (Bytes.toLe 4 txnId.toNat ++ [])) =
      (.ok (lsn, txnId), []) := readTxn_toLe lsn txnId
  simpa using read

theorem readSized_sized_nil {data : Bytes} (fits : data.length < 2 ^ 32) :
    readSized (sized data) = (.ok data, []) := by
  have read : readSized (sized data ++ []) = (.ok data, []) := readSized_sized fits
  simpa using read

@[simp]
theorem length_sized (data : Bytes) : (sized data).length = 4 + data.length := by
  simp [sized]

theorem fromBytes_body {record : LogRecord} (fits : record.Fits) :
    fromBytes record.body = .ok (some record) := by
  unfold Fits at fits
  cases record with
  | begin lsn txnId =>
      change (readFields typeBegin _).1 = _
      rw [readFields, if_pos rfl, Fallible.bind_ok (readTxn_toLe_nil lsn txnId)]
      rfl
  | insert lsn txnId pageId slotId data =>
      have short : data.length < 2 ^ 32 := by
        simp only [body, List.length_cons, List.length_append, length_sized] at fits
        omega
      change (readFields typeInsert _).1 = _
      rw [readFields, if_neg (by decide), if_pos rfl,
        Fallible.bind_ok (readTarget_toLe lsn txnId pageId slotId)]
      dsimp only
      rw [Fallible.bind_ok (readSized_sized_nil short)]
      rfl
  | delete lsn txnId pageId slotId oldData =>
      have short : oldData.length < 2 ^ 32 := by
        simp only [body, List.length_cons, List.length_append, length_sized] at fits
        omega
      change (readFields typeDelete _).1 = _
      rw [readFields, if_neg (by decide), if_neg (by decide), if_pos rfl,
        Fallible.bind_ok (readTarget_toLe lsn txnId pageId slotId)]
      dsimp only
      rw [Fallible.bind_ok (readSized_sized_nil short)]
      rfl
  | update lsn txnId pageId slotId oldData newData =>
      have short : oldData.length < 2 ^ 32 ∧ newData.length < 2 ^ 32 := by
        simp only [body, List.length_cons, List.length_append, length_sized] at fits
        omega
      change (readFields typeUpdate _).1 = _
      rw [readFields, if_neg (by decide), if_neg (by decide), if_neg (by decide), if_pos rfl,
        Fallible.bind_ok (readTarget_toLe lsn txnId pageId slotId)]
      dsimp only
      rw [Fallible.bind_ok (readSized_sized short.1),
        Fallible.bind_ok (readSized_sized_nil short.2)]
      rfl
  | commit lsn txnId =>
      change (readFields typeCommit _).1 = _
      rw [readFields, if_neg (by decide), if_neg (by decide), if_neg (by decide),
        if_neg (by decide), if_pos rfl, Fallible.bind_ok (readTxn_toLe_nil lsn txnId)]
      rfl
  | abort lsn txnId =>
      change (readFields typeAbort _).1 = _
      rw [readFields, if_neg (by decide), if_neg (by decide), if_neg (by decide),
        if_neg (by decide), if_neg (by decide), if_pos rfl,
        Fallible.bind_ok (readTxn_toLe_nil lsn txnId)]
      rfl
  | checkpoint lsn =>
      change (readFields typeCheckpoint _).1 = _
      have appended : readLe 8 (Bytes.toLe 8 lsn.toNat ++ []) = (.ok lsn.toNat, []) :=
        readLe_toLe 8 _ lsn.toNat_lt
      have read : readLe 8 (Bytes.toLe 8 lsn.toNat) = (.ok lsn.toNat, []) := by
        simpa using appended
      rw [readFields, if_neg (by decide), if_neg (by decide), if_neg (by decide),
        if_neg (by decide), if_neg (by decide), if_neg (by decide), if_pos rfl,
        Fallible.bind_ok read]
      simp

end RoundTrip

section Inversion

variable {bytes rest : Bytes}

theorem readLe_eq_ok {width value : ℕ} (read : readLe width bytes = (.ok value, rest)) :
    bytes = Bytes.toLe width value ++ rest ∧ value < 256 ^ width := by
  unfold readLe at read
  split at read
  next enough =>
    obtain ⟨rfl, rfl⟩ : Bytes.ofLe (bytes.take width) = value ∧ bytes.drop width = rest := by
      simpa using read
    have length : (bytes.take width).length = width := by simp; omega
    have canonical := Bytes.toLe_ofLe (bytes.take width)
    have bound := Bytes.ofLe_lt (bytes.take width)
    rw [length] at canonical bound
    exact ⟨by rw [canonical, List.take_append_drop], bound⟩
  next => simp at read

theorem readSized_eq_ok {data : Bytes} (read : readSized bytes = (.ok data, rest)) :
    bytes = sized data ++ rest := by
  rcases Fallible.bind_eq_ok read with ⟨length, between, first, second⟩
  rcases readLe_eq_ok first with ⟨rfl, -⟩
  rw [Fallible.get_bind] at second
  split at second
  next enough =>
    obtain ⟨rfl, rfl⟩ : between.take length = data ∧ between.drop length = rest := by
      simpa using second
    rw [sized, List.length_take, Nat.min_eq_left enough, List.append_assoc, List.take_append_drop]
  next => simp at second

theorem readTxn_eq_ok {lsn : UInt64} {txnId : UInt32}
    (read : readTxn bytes = (.ok (lsn, txnId), rest)) :
    bytes = Bytes.toLe 8 lsn.toNat ++ (Bytes.toLe 4 txnId.toNat ++ rest) := by
  rcases Fallible.bind_eq_ok read with ⟨first, _, readFirst, read⟩
  rcases Fallible.bind_eq_ok read with ⟨second, _, readSecond, last⟩
  obtain ⟨⟨rfl, rfl⟩, rfl⟩ : (UInt64.ofNat first = lsn ∧ UInt32.ofNat second = txnId) ∧
      _ = rest := by
    simpa using last
  rcases readLe_eq_ok readFirst with ⟨rfl, small⟩
  rcases readLe_eq_ok readSecond with ⟨rfl, small'⟩
  rw [UInt64.toNat_ofNat_of_lt' small, UInt32.toNat_ofNat_of_lt' small']

theorem readTarget_eq_ok {lsn : UInt64} {txnId pageId : UInt32} {slotId : UInt16}
    (read : readTarget bytes = (.ok (lsn, txnId, pageId, slotId), rest)) :
    bytes = Bytes.toLe 8 lsn.toNat ++ (Bytes.toLe 4 txnId.toNat ++
      (Bytes.toLe 4 pageId.toNat ++ (Bytes.toLe 2 slotId.toNat ++ rest))) := by
  rcases Fallible.bind_eq_ok read with ⟨⟨lsn', txnId'⟩, _, first, read⟩
  rcases Fallible.bind_eq_ok read with ⟨page, _, second, read⟩
  rcases Fallible.bind_eq_ok read with ⟨slot, _, third, last⟩
  obtain ⟨⟨rfl, rfl, rfl, rfl⟩, rfl⟩ : (lsn' = lsn ∧ txnId' = txnId ∧ UInt32.ofNat page = pageId ∧
      UInt16.ofNat slot = slotId) ∧ _ = rest := by
    simpa using last
  rcases readLe_eq_ok second with ⟨rfl, small⟩
  rcases readLe_eq_ok third with ⟨rfl, small'⟩
  rw [readTxn_eq_ok first, UInt32.toNat_ofNat_of_lt' small, UInt16.toNat_ofNat_of_lt' small']

/-- What is read as a record is the record's own encoding, and bytes after it. -/
theorem readFields_eq_ok {recordType : UInt8} {record : LogRecord}
    (read : readFields recordType bytes = (.ok (some record), rest)) :
    recordType :: bytes = record.body ++ rest := by
  unfold readFields at read
  split at read
  next isBegin =>
    rcases Fallible.bind_eq_ok read with ⟨⟨lsn, txnId⟩, _, first, last⟩
    obtain ⟨rfl, rfl⟩ : begin lsn txnId = record ∧ _ = rest := by simpa using last
    simp [body, isBegin, readTxn_eq_ok first]
  split at read
  next isInsert =>
    rcases Fallible.bind_eq_ok read with ⟨⟨lsn, txnId, pageId, slotId⟩, _, first, read⟩
    rcases Fallible.bind_eq_ok read with ⟨data, _, second, last⟩
    obtain ⟨rfl, rfl⟩ : insert lsn txnId pageId slotId data = record ∧ _ = rest := by
      simpa using last
    simp [body, isInsert, readTarget_eq_ok first, readSized_eq_ok second]
  split at read
  next isDelete =>
    rcases Fallible.bind_eq_ok read with ⟨⟨lsn, txnId, pageId, slotId⟩, _, first, read⟩
    rcases Fallible.bind_eq_ok read with ⟨oldData, _, second, last⟩
    obtain ⟨rfl, rfl⟩ : delete lsn txnId pageId slotId oldData = record ∧ _ = rest := by
      simpa using last
    simp [body, isDelete, readTarget_eq_ok first, readSized_eq_ok second]
  split at read
  next isUpdate =>
    rcases Fallible.bind_eq_ok read with ⟨⟨lsn, txnId, pageId, slotId⟩, _, first, read⟩
    rcases Fallible.bind_eq_ok read with ⟨oldData, _, second, read⟩
    rcases Fallible.bind_eq_ok read with ⟨newData, _, third, last⟩
    obtain ⟨rfl, rfl⟩ : update lsn txnId pageId slotId oldData newData = record ∧ _ = rest := by
      simpa using last
    simp [body, isUpdate, readTarget_eq_ok first, readSized_eq_ok second, readSized_eq_ok third]
  split at read
  next isCommit =>
    rcases Fallible.bind_eq_ok read with ⟨⟨lsn, txnId⟩, _, first, last⟩
    obtain ⟨rfl, rfl⟩ : commit lsn txnId = record ∧ _ = rest := by simpa using last
    simp [body, isCommit, readTxn_eq_ok first]
  split at read
  next isAbort =>
    rcases Fallible.bind_eq_ok read with ⟨⟨lsn, txnId⟩, _, first, last⟩
    obtain ⟨rfl, rfl⟩ : abort lsn txnId = record ∧ _ = rest := by simpa using last
    simp [body, isAbort, readTxn_eq_ok first]
  split at read
  next isCheckpoint =>
    rcases Fallible.bind_eq_ok read with ⟨lsn, _, first, last⟩
    obtain ⟨rfl, rfl⟩ : checkpoint (UInt64.ofNat lsn) = record ∧ _ = rest := by simpa using last
    rcases readLe_eq_ok first with ⟨rfl, small⟩
    simp [body, isCheckpoint, UInt64.toNat_ofNat_of_lt' small]
  next => simp at read

theorem prefix_of_fromBytes {record : LogRecord} (read : fromBytes bytes = .ok (some record)) :
    record.body <+: bytes := by
  cases bytes with
  | nil => simp [fromBytes] at read
  | cons recordType bytes =>
      rcases ran : readFields recordType bytes with ⟨result, rest⟩
      obtain rfl : result = .ok (some record) := by simpa [fromBytes, ran] using read
      exact ⟨rest, (readFields_eq_ok ran).symm⟩

end Inversion

end LogRecord

namespace WalManager

open LogRecord

/-- The log file with these records in it. -/
def encode (records : List LogRecord) : Bytes := records.flatMap toBytes

/-- `read_all_records`: stops where the rest is too short for a frame, and skips a frame of a
type it does not know. -/
def readAllRecords (bytes : Bytes) : Except Failure (List LogRecord) :=
  if 4 ≤ bytes.length then
    let length := Bytes.ofLe (bytes.take 4)
    let rest := bytes.drop 4
    if rest.length < length then .ok []
    else do
      let record ← fromBytes (rest.take length)
      let records ← readAllRecords (rest.drop length)
      return record.toList ++ records
  else .ok []
  termination_by bytes.length
  decreasing_by simp; omega

section Reading

variable {bytes rest : Bytes} {records : List LogRecord}

theorem readAllRecords_short (short : bytes.length < 4) : readAllRecords bytes = .ok [] := by
  rw [readAllRecords, if_neg (by omega)]

theorem readAllRecords_frame {data : Bytes} (short : data.length < 2 ^ 32) :
    readAllRecords (sized data ++ rest) = do
      let record ← fromBytes data
      let records ← readAllRecords rest
      return record.toList ++ records := by
  have length : Bytes.ofLe ((sized data ++ rest).take 4) = data.length := by
    rw [sized, List.append_assoc, List.take_left' (by simp), Bytes.ofLe_toLe_of_lt short]
  have after : (sized data ++ rest).drop 4 = data ++ rest := by
    rw [sized, List.append_assoc, List.drop_left' (by simp)]
  rw [readAllRecords, if_pos (by simp; omega)]
  dsimp only
  rw [length, after, if_neg (by simp), List.take_left' rfl, List.drop_left' rfl]

/-- Whole frames are read back. -/
theorem readAllRecords_encode (fits : ∀ record ∈ records, record.Fits) :
    readAllRecords (encode records ++ rest) =
      (readAllRecords rest).map fun others => records ++ others := by
  induction records with
  | nil =>
      cases read : readAllRecords rest with
      | error failure => simp [encode, read, Except.map]
      | ok others => simp [encode, read, Except.map]
  | cons record records ih =>
      have framed : encode (record :: records) ++ rest =
          sized record.body ++ (encode records ++ rest) := by
        simp [encode, toBytes]
      rw [framed, readAllRecords_frame (fits record (by simp)),
        fromBytes_body (fits record (by simp)), ih fun other inside =>
          fits other (by simp [inside])]
      cases readAllRecords rest <;> rfl

/-- A frame cut short is not read. -/
theorem readAllRecords_cut {record : LogRecord} {cut : ℕ} (fits : record.Fits)
    (torn : cut < record.toBytes.length) :
    readAllRecords (record.toBytes.take cut) = .ok [] := by
  by_cases short : cut < 4
  · exact readAllRecords_short (by simp; omega)
  · have whole : record.toBytes.length = 4 + record.body.length := length_sized _
    have prefixed : (record.toBytes.take cut).take 4 = Bytes.toLe 4 record.body.length := by
      rw [List.take_take, Nat.min_eq_left (by omega), toBytes, sized, List.take_left' (by simp)]
    rw [readAllRecords, if_pos (by simp; omega)]
    dsimp only
    rw [prefixed, Bytes.ofLe_toLe_of_lt fits, if_pos (by simp; omega)]

/-- One round of the reader. -/
theorem readAllRecords_eq_ok (read : readAllRecords bytes = .ok records) :
    records = [] ∨ ∃ found others,
      let length := Bytes.ofLe (bytes.take 4)
      4 + length ≤ bytes.length ∧ fromBytes ((bytes.drop 4).take length) = .ok found ∧
        readAllRecords ((bytes.drop 4).drop length) = .ok others ∧
        records = found.toList ++ others := by
  rw [readAllRecords] at read
  split at read
  next enough =>
    dsimp only at read ⊢
    split at read
    next => exact .inl (Except.ok.inj read).symm
    next inside =>
      simp only [List.length_drop] at inside
      cases parsed : fromBytes ((bytes.drop 4).take (Bytes.ofLe (bytes.take 4))) with
      | error failure => simp [parsed, bind, Except.bind] at read
      | ok found =>
          cases more : readAllRecords ((bytes.drop 4).drop (Bytes.ofLe (bytes.take 4))) with
          | error failure =>
              rw [parsed, more] at read
              simp [bind, Except.bind] at read
          | ok others =>
              rw [parsed, more] at read
              exact .inr ⟨found, others, by omega, rfl, rfl, (Except.ok.inj read).symm⟩
  next => exact .inl (Except.ok.inj read).symm

/-- What is read takes at least as many bytes as it would be written with. -/
theorem length_of_readAllRecords (read : readAllRecords bytes = .ok records) :
    (encode records).length ≤ bytes.length := by
  induction size : bytes.length using Nat.strong_induction_on generalizing bytes records with
  | _ size ih =>
      rcases readAllRecords_eq_ok read with rfl | ⟨found, others, inside, parsed, more, rfl⟩
      · simp [encode]
      · have rest := ih _ (by simp; omega) more rfl
        cases found with
        | none =>
            simp only [Option.toList_none, List.nil_append]
            simp only [List.length_drop] at rest
            omega
        | some record =>
            have shorter := (prefix_of_fromBytes parsed).length_le
            simp only [encode, Option.toList_some, List.singleton_append, List.flatMap_cons,
              List.length_append, toBytes, length_sized]
            simp only [List.length_drop, List.length_take, encode] at rest shorter
            omega

end Reading

section Prefixes

variable {records : List LogRecord} {bytes : Bytes}

theorem encode_cons (record : LogRecord) (records : List LogRecord) :
    encode (record :: records) = record.toBytes ++ encode records :=
  rfl

/-- Whole frames in front and less than a frame behind them. -/
theorem exists_frames (torn : bytes <+: encode records) :
    ∃ count ≤ records.length, ∃ rest, bytes = encode (records.take count) ++ rest ∧
      (rest = [] ∨ ∃ record cut, records[count]? = some record ∧
        cut < record.toBytes.length ∧ rest = record.toBytes.take cut) := by
  induction records generalizing bytes with
  | nil => exact ⟨0, Nat.le_refl _, [], by simpa [encode] using torn, .inl rfl⟩
  | cons record records ih =>
      rw [encode_cons] at torn
      by_cases short : bytes.length < record.toBytes.length
      · have part : bytes <+: record.toBytes :=
          List.prefix_of_prefix_length_le torn (List.prefix_append _ _) (by omega)
        refine ⟨0, Nat.zero_le _, bytes, rfl, .inr ⟨record, bytes.length, rfl, short, ?_⟩⟩
        exact List.prefix_iff_eq_take.mp part
      · have whole : record.toBytes <+: bytes :=
          List.prefix_of_prefix_length_le (List.prefix_append _ _) torn (by omega)
        rcases whole with ⟨others, rfl⟩
        rcases ih ((List.prefix_append_right_inj _).mp torn) with
          ⟨count, inside, rest, rfl, behind⟩
        refine ⟨count + 1, Nat.succ_le_succ inside, rest, ?_, behind⟩
        rw [List.take_succ_cons, encode_cons, List.append_assoc]

theorem encode_take_mono {count other : ℕ} (order : other ≤ count) :
    encode (records.take other) <+: encode (records.take count) := by
  rcases List.take_prefix_take_left (l := records) order with ⟨between, same⟩
  rw [← same, encode, encode, List.flatMap_append]
  exact List.prefix_append _ _

theorem length_encode_take {count : ℕ} {record : LogRecord}
    (found : records[count]? = some record) :
    (encode (records.take (count + 1))).length =
      (encode (records.take count)).length + record.toBytes.length := by
  rw [List.take_add_one, found, encode, List.flatMap_append, List.length_append]
  simp [encode]

/-- A log file that ends anywhere gives back the longest run of records that lies in it. -/
theorem readAllRecords_truncated (fits : ∀ record ∈ records, record.Fits)
    (torn : bytes <+: encode records) :
    ∃ count ≤ records.length, readAllRecords bytes = .ok (records.take count) ∧
      ∀ other ≤ records.length, encode (records.take other) <+: bytes ↔ other ≤ count := by
  rcases exists_frames torn with ⟨count, inside, rest, rfl, behind⟩
  have fitsTaken : ∀ record ∈ records.take count, record.Fits := fun record taken =>
    fits record (List.mem_of_mem_take taken)
  refine ⟨count, inside, ?_, ?_⟩
  · have nothing : readAllRecords rest = .ok [] := by
      rcases behind with rfl | ⟨record, cut, found, cutShort, rfl⟩
      · exact readAllRecords_short (by simp)
      · exact readAllRecords_cut (fits record (List.mem_of_getElem? found)) cutShort
    rw [readAllRecords_encode fitsTaken, nothing]
    simp [Except.map]
  · intro other bounded
    constructor
    · intro whole
      by_contra beyond
      -- the frame after the last one found is not in the file
      have last : count < records.length := by omega
      have next : records[count]? = some records[count] := List.getElem?_eq_getElem last
      have short : rest.length < records[count].toBytes.length := by
        rcases behind with rfl | ⟨record, cut, found, cutShort, rfl⟩
        · simp only [toBytes, length_sized, List.length_nil]
          omega
        · rw [Option.some.inj (next.symm.trans found), List.length_take]
          omega
      have further : count + 1 ≤ other := by omega
      have more := ((encode_take_mono further).trans whole).length_le
      rw [length_encode_take next, List.length_append] at more
      omega
    · intro order
      exact (encode_take_mono order).trans (List.prefix_append _ _)

/-- A begin record and the first bytes of a commit record. -/
theorem readAllRecords_truncated_begin :
    ∃ count ≤ 2, readAllRecords ((encode [.begin 0 1, .commit 1 1]).take 20) =
        .ok ([.begin 0 1, .commit 1 1].take count) ∧
      ∀ other ≤ 2, encode ([.begin 0 1, .commit 1 1].take other) <+:
        (encode [.begin 0 1, .commit 1 1]).take 20 ↔ other ≤ count :=
  @readAllRecords_truncated [.begin 0 1, .commit 1 1] _ (by simp [Fits, body])
    (List.take_prefix _ _)

end Prefixes

section Torn

/-- The frame that every session starts with. -/
theorem toBytes_begin :
    toBytes (.begin 0 1) = [13, 0, 0, 0, 0, 0, 0, 0, 0, 0, 0, 0, 0, 1, 0, 0, 0] := by
  decide

theorem body_begin : body (.begin 0 1) = [0, 0, 0, 0, 0, 0, 0, 0, 0, 1, 0, 0, 0] := by decide

variable {torn : LogRecord} {cut : ℕ} {later : List LogRecord}

/-- Only a `Begin` record has its type, and its frame has 17 bytes. -/
theorem length_of_typeBegin (isBegin : torn.toBytes[4]? = some 0) : torn.toBytes.length = 17 := by
  have first : torn.body.head? = some 0 := by
    rw [toBytes, sized, List.getElem?_append_right (by simp)] at isBegin
    simpa [List.head?_eq_getElem?] using isBegin
  cases torn with
  | begin lsn txnId => simp [toBytes, body]
  | _ =>
      simp [body, typeInsert, typeDelete, typeUpdate, typeCommit, typeAbort,
        typeCheckpoint] at first

/-- After a torn frame the first frame of the next session is not read as such. -/
theorem not_begin_prefix (inside : 0 < cut) (cutShort : cut < torn.toBytes.length) {rest : Bytes} :
    ¬body (.begin 0 1) <+: (torn.toBytes.take cut ++ (toBytes (.begin 0 1) ++ rest)).drop 4 := by
  rintro ⟨extra, starts⟩
  have tail : (torn.toBytes.take cut).length = cut := by simp; omega
  have agree : ∀ index byte, (body (.begin 0 1))[index]? = some byte →
      (torn.toBytes.take cut ++ (toBytes (.begin 0 1) ++ rest))[4 + index]? = some byte := by
    intro index byte found
    have within := (List.getElem?_eq_some_iff.mp found).1
    rw [← List.getElem?_drop, ← starts, List.getElem?_append_left within, found]
  -- where the bytes of the new frame lie
  have later : ∀ index, index < 17 →
      (torn.toBytes.take cut ++ (toBytes (.begin 0 1) ++ rest))[cut + index]? =
        (toBytes (.begin 0 1))[index]? := by
    intro index small
    rw [List.getElem?_append_right (by omega), tail, Nat.add_sub_cancel_left,
      List.getElem?_append_left (by rw [toBytes_begin]; exact small)]
  by_cases inLength : cut < 4
  · -- the transaction id is shifted
    have one := agree 9 1 (by rw [body_begin]; rfl)
    have zero := later (13 - cut) (by omega)
    rw [show cut + (13 - cut) = 4 + 9 by omega, one, toBytes_begin] at zero
    interval_cases cut <;> simp at zero
  by_cases inBegin : cut < 17
  · -- the length of the new frame stands among the fields
    have thirteen := later 0 (by omega)
    have field : ∃ byte, (body (.begin 0 1))[cut - 4]? = some byte ∧ byte ≠ 13 := by
      rw [body_begin]
      interval_cases cut <;> exact ⟨_, rfl, by decide⟩
    rcases field with ⟨byte, found, other⟩
    have seen := agree (cut - 4) byte found
    rw [show 4 + (cut - 4) = cut + 0 by omega, thirteen, toBytes_begin] at seen
    simp only [List.getElem?_cons_zero, Option.some.injEq] at seen
    exact other seen.symm
  · -- the torn record would have to be a longer `Begin`
    have typed := agree 0 0 (by rw [body_begin]; rfl)
    rw [List.getElem?_append_left (by omega), List.getElem?_take_of_lt (by omega)] at typed
    have length := length_of_typeBegin typed
    omega

/-- Records appended behind a torn frame are not read back. -/
theorem readAllRecords_torn_ne (fits : torn.Fits) (inside : 0 < cut)
    (cutShort : cut < torn.toBytes.length) (starts : later.head? = some (.begin 0 1)) :
    readAllRecords (torn.toBytes.take cut ++ encode later) ≠ .ok later := by
  intro read
  rcases readAllRecords_eq_ok read with rfl | ⟨found, others, enough, parsed, more, same⟩
  · simp at starts
  have framed : ∃ rest, encode later = toBytes (.begin 0 1) ++ rest := by
    rcases later with _ | ⟨first, later⟩
    · simp at starts
    · obtain rfl : first = .begin 0 1 := by simpa using starts
      exact ⟨encode later, rfl⟩
  cases found with
  | some record =>
      obtain rfl : record = .begin 0 1 := by
        rw [same] at starts
        simpa using starts
      rcases framed with ⟨rest, framed⟩
      rw [framed] at parsed
      exact not_begin_prefix inside cutShort
        ((prefix_of_fromBytes parsed).trans (List.take_prefix _ _))
  | none =>
      -- the frame that was skipped reaches into the new records
      obtain rfl : later = others := by simpa using same
      have fewer := length_of_readAllRecords more
      have whole : torn.toBytes.length = 4 + torn.body.length := length_sized _
      have tail : (torn.toBytes.take cut).length = cut := by simp; omega
      simp only [List.length_drop, List.length_append, tail] at fewer enough
      by_cases inLength : cut < 4
      · omega
      · have length : Bytes.ofLe ((torn.toBytes.take cut ++ encode later).take 4) =
            torn.body.length := by
          rw [List.take_append_of_le_length (by omega), List.take_take,
            Nat.min_eq_left (by omega), toBytes, sized, List.take_left' (by simp),
            Bytes.ofLe_toLe_of_lt fits]
        omega

end Torn

section Crash

/-- The file after a crash during the append of the last record: so many bytes of it were
written. -/
def crashed (written : List LogRecord) (last : LogRecord) (cut : ℕ) : Bytes :=
  encode written ++ last.toBytes.take cut

/-- The records whose frames are complete in the file after the crash. -/
def complete (written : List LogRecord) (last : LogRecord) (cut : ℕ) : List LogRecord :=
  if cut < last.toBytes.length then written else written ++ [last]

/-- The records that a session adds to a log. -/
def appended (log : List LogRecord) (calls : List Call) : List LogRecord :=
  (session log calls).log.drop log.length

/-- The file after a session on it; every append goes to the end of the file. -/
def fileAfter (file : Bytes) (calls : List Call) : Bytes :=
  match readAllRecords file with
  | .ok log => file ++ encode (appended log calls)
  | .error _ => file

variable {written : List LogRecord} {last : LogRecord} {cut : ℕ} {calls : List Call}

theorem readAllRecords_crashed (fits : ∀ record ∈ written ++ [last], record.Fits) :
    readAllRecords (crashed written last cut) = .ok (complete written last cut) := by
  have fitsWritten : ∀ record ∈ written, record.Fits := fun record inside =>
    fits record (by simp [inside])
  rw [crashed, readAllRecords_encode fitsWritten, complete]
  split
  next torn =>
    rw [readAllRecords_cut (fits last (by simp)) torn]
    simp [Except.map]
  next whole =>
    have framed : last.toBytes.take cut = encode [last] ++ [] := by
      simp [encode, List.take_of_length_le (Nat.le_of_not_lt whole)]
    rw [framed, readAllRecords_encode (by simpa using fits last (by simp)),
      readAllRecords_short (by simp)]
    rfl

/-- A session that begins with a transaction logs it first. -/
theorem head?_appended {log : List LogRecord} {report : RecoveryReport} (more : List Call)
    (recovers : (recover (new log)).1 = .ok report) :
    (appended log (.beginTxn :: more)).head? = some (.begin 0 1) := by
  rcases (recover_state : ∃ pages, (recover (new log)).2 = { new log with pages := pages }) with
    ⟨pages, recovered⟩
  have run : recover (new log) = (.ok report, { new log with pages := pages }) :=
    Prod.ext recovers recovered
  have begun : (Call.run .beginTxn { new log with pages := pages }).2.log = log ++ [.begin 0 1] :=
    rfl
  have grows := runCalls_log more (Call.run .beginTxn { new log with pages := pages }).2
  have after : (session log (.beginTxn :: more)).log =
      (runCalls more (Call.run .beginTxn { new log with pages := pages }).2).log := by
    rw [session, run]
    rfl
  rw [begun, ← after] at grows
  rcases grows with ⟨others, same⟩
  rw [appended, ← same, List.append_assoc, List.drop_left' rfl]
  rfl

/-- After the crash, a recovery and further calls, the reader finds the complete records and
everything appended since. -/
def ReadsBack (written : List LogRecord) (last : LogRecord) (cut : ℕ) (calls : List Call) : Prop :=
  readAllRecords (fileAfter (crashed written last cut) calls) =
    .ok (complete written last cut ++ appended (complete written last cut) calls)

/-- Without a torn frame in between, the file is the frames of all records. -/
theorem ReadsBack.of_boundary (fits : ∀ record ∈ written ++ [last], record.Fits)
    (fitsLater : ∀ record ∈ appended (complete written last cut) calls, record.Fits)
    (boundary : cut = 0 ∨ last.toBytes.length ≤ cut) : ReadsBack written last cut calls := by
  have whole : crashed written last cut = encode (complete written last cut) := by
    rw [crashed, complete]
    rcases boundary with rfl | whole
    · rw [if_pos (by simp [toBytes])]
      simp
    · rw [if_neg (by omega), List.take_of_length_le whole]
      simp [encode]
  have fitsComplete : ∀ record ∈ complete written last cut, record.Fits := by
    intro record inside
    refine fits record ?_
    rw [complete] at inside
    split at inside
    · exact List.mem_append_left _ inside
    · exact inside
  have joined : encode (complete written last cut) ++
      encode (appended (complete written last cut) calls) =
        encode (complete written last cut ++ appended (complete written last cut) calls) ++ [] := by
    simp [encode]
  rw [ReadsBack, fileAfter, readAllRecords_crashed fits]
  dsimp only
  rw [whole, joined, readAllRecords_encode, readAllRecords_short (by simp)]
  · simp [Except.map]
  · intro record inside
    exact (List.mem_append.mp inside).elim (fitsComplete record) (fitsLater record)

theorem not_readsBack_of_torn {more : List Call} {report : RecoveryReport}
    (fits : ∀ record ∈ written ++ [last], record.Fits) (inside : 0 < cut)
    (torn : cut < last.toBytes.length) (recovers : (recover (new written)).1 = .ok report) :
    ¬ReadsBack written last cut (.beginTxn :: more) := by
  intro reads
  have fitsWritten : ∀ record ∈ written, record.Fits := fun record among =>
    fits record (by simp [among])
  have kept : complete written last cut = written := if_pos torn
  rw [ReadsBack, fileAfter, readAllRecords_crashed fits, kept] at reads
  dsimp only at reads
  rw [crashed, List.append_assoc, readAllRecords_encode fitsWritten] at reads
  refine readAllRecords_torn_ne (fits last (by simp)) inside torn (head?_appended more recovers) ?_
  cases found : readAllRecords
      (last.toBytes.take cut ++ encode (appended written (.beginTxn :: more))) with
  | error failure => simp [found, Except.map] at reads
  | ok others =>
      rw [found] at reads
      exact congrArg Except.ok (List.append_cancel_left (Except.ok.inj reads))

/-- Later commits are read back exactly if the crash cut the log between two frames. -/
theorem readsBack_iff {more : List Call} {report : RecoveryReport}
    (fits : ∀ record ∈ written ++ [last], record.Fits)
    (fitsLater : ∀ record ∈ appended (complete written last cut) (.beginTxn :: more), record.Fits)
    (recovers : (recover (new (complete written last cut))).1 = .ok report) :
    ReadsBack written last cut (.beginTxn :: more) ↔ cut = 0 ∨ last.toBytes.length ≤ cut := by
  constructor
  · intro reads
    by_contra torn
    have kept : complete written last cut = written := if_pos (by omega)
    rw [kept] at recovers
    exact not_readsBack_of_torn fits (by omega) (by omega) recovers reads
  · exact ReadsBack.of_boundary fits fitsLater

/-- The whole of the first record was written, and no other. -/
theorem readsBack_iff_begun :
    ReadsBack [] (.begin 0 1) 17 [.beginTxn, .commit 1] ↔
      17 = 0 ∨ (toBytes (.begin 0 1)).length ≤ 17 :=
  have recovers : (recover (new (complete [] (.begin 0 1) 17))).1 =
      .ok { redone := 0, undone := 0, incompleteTxns := {1} } := rfl
  readsBack_iff (by decide) (by decide) recovers

/-- A single byte of the first record is left in the file; the next session commits. -/
theorem torn_begin_swallows_commit : ¬ReadsBack [] (.begin 0 1) 1 [.beginTxn, .commit 1] :=
  have recovers : (recover (new [])).1 =
      .ok { redone := 0, undone := 0, incompleteTxns := ∅ } := rfl
  not_readsBack_of_torn (by decide) (by decide) (by decide) recovers

end Crash

end WalManager

end VenomDb
