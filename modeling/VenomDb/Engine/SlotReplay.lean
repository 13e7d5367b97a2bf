import VenomDb.Engine.Replay
import VenomDb.Recovery.Sessions

/-!
# Slots after recovery

A record names the slot that a tuple had in its session. REDO does not look at it: it
appends the tuples of committed transactions to fresh pages. On a page the two
numberings agree up to the first insert that no commit covers.
-/

namespace VenomDb

namespace LogRecord

/-- The length of the tuple that a record puts on a page. -/
def insertedLength (pageId : UInt32) : LogRecord → Option ℕ
  | insert _ _ other _ data => if other = pageId then some data.length else none
  | _ => none

/-- An `Update` record of the slot. -/
def updates (pageId : UInt32) (slotId : UInt16) : LogRecord → Bool
  | update _ _ otherPage otherSlot _ _ => otherPage = pageId && otherSlot = slotId
  | _ => false

/-- An `Update` or `Delete` record of the slot. -/
def rewrites (pageId : UInt32) (slotId : UInt16) : LogRecord → Bool
  | delete _ _ otherPage otherSlot _ => otherPage = pageId && otherSlot = slotId
  | record => record.updates pageId slotId

@[simp]
theorem insertedLength_withLsn (pageId : UInt32) (lsn : UInt64) (record : LogRecord) :
    (record.withLsn lsn).insertedLength pageId = record.insertedLength pageId := by
  cases record <;> rfl

theorem undoable_withLsn {record : LogRecord} {lsn : UInt64} :
    (record.withLsn lsn).Undoable ↔ record.Undoable := by
  cases record <;> rfl

end LogRecord

/-- The lengths of the tuples that a log puts on a page, in slot order. -/
def insertedLengths (pageId : UInt32) (log : List LogRecord) : List ℕ :=
  log.filterMap (LogRecord.insertedLength pageId)

theorem insertedLengths_append (pageId : UInt32) (front back : List LogRecord) :
    insertedLengths pageId (front ++ back) =
      insertedLengths pageId front ++ insertedLengths pageId back := by
  simp [insertedLengths]

/-- A tuple went to the next slot of its page, and there was room for it. -/
structure Placed (front : List LogRecord) (pageId : UInt32) (slotId : UInt16) (data : Bytes) :
    Prop where
  slot : slotId.toNat = (insertedLengths pageId front).length
  room : ∀ page : SlottedPage, page.lengths = insertedLengths pageId front →
    page.HasRoom data.length

namespace WalManager

/-- What a session leaves in its log. -/
structure WellPlaced (log : List LogRecord) : Prop where
  placed : ∀ {front lsn txnId pageId slotId data back},
    log = front ++ .insert lsn txnId pageId slotId data :: back →
      Placed front pageId slotId data
  undoable : ∀ record ∈ log, record.Undoable

/-- The pages of a session hold the tuples of its log. -/
structure Tracks (wal : WalManager) : Prop where
  copies : ∃ copy : Heap, (∀ pageId, Shadows (wal.pages.lookup pageId) (copy pageId)) ∧
    ∀ pageId, ((copy pageId).getD .empty).lengths = insertedLengths pageId wal.log
  wellPlaced : WellPlaced wal.log

namespace WellPlaced

variable {log : List LogRecord}

theorem concat {last : LogRecord} (wellPlaced : WellPlaced log) (undoable : last.Undoable)
    (placed : ∀ lsn txnId pageId slotId data, last = .insert lsn txnId pageId slotId data →
      Placed log pageId slotId data) : WellPlaced (log ++ [last]) := by
  refine ⟨fun split => ?_, fun record inside => ?_⟩
  · rcases Explains.split_concat split with ⟨back', old⟩ | ⟨rfl, same⟩
    · exact wellPlaced.placed old
    · exact placed _ _ _ _ _ same.symm
  · rcases List.mem_append.mp inside with old | new
    · exact wellPlaced.undoable record old
    · obtain rfl : record = last := by simpa using new
      exact undoable

theorem short (wellPlaced : WellPlaced log) : ∀ record ∈ log, record.Short := by
  intro record inside
  rcases List.append_of_mem inside with ⟨front, back, split⟩
  cases record with
  | insert lsn txnId pageId slotId data =>
      have placed := wellPlaced.placed split
      -- any page with tuples of these lengths will do to read off the bound
      exact SlottedPage.lt_of_hasRoom _
        (placed.room ⟨(insertedLengths pageId front).map fun length =>
          ⟨List.replicate length 0, true⟩⟩
          (by simp [SlottedPage.lengths, Function.comp_def]))
  | _ => trivial

end WellPlaced

namespace Tracks

variable {wal : WalManager}

/-- A record other than an insert. -/
theorem append {record : LogRecord} (tracks : Tracks wal) (undoable : record.Undoable)
    (other : ∀ pageId, record.insertedLength pageId = none) : Tracks (wal.append record) := by
  rcases tracks.copies with ⟨copy, shadows, lengths⟩
  refine ⟨⟨copy, shadows, fun pageId => ?_⟩,
    tracks.wellPlaced.concat (LogRecord.undoable_withLsn.mpr undoable) ?_⟩
  · rw [lengths, WalManager.append, insertedLengths_append]
    simp [insertedLengths, other]
  · intro lsn txnId pageId slotId data isInsert
    have missing := other pageId
    rw [← LogRecord.insertedLength_withLsn pageId wal.currentLsn, isInsert] at missing
    simp [LogRecord.insertedLength] at missing

/-- An insert goes to the next slot of the copy. -/
theorem logInsert (tracks : Tracks wal) (txnId pageId : UInt32) (data : Bytes) :
    Tracks (WalManager.logInsert txnId pageId data wal).2 := by
  rcases tracks.copies with ⟨copy, shadows, lengths⟩
  have kept (concrete : Page) (same : Represents concrete.data ((copy pageId).getD .empty)) :
      Tracks { wal with pages := wal.pages.insert pageId concrete } := by
    refine ⟨⟨_, Executor.shadows_insert shadows same, fun other => ?_⟩, tracks.wellPlaced⟩
    by_cases here : other = pageId
    · subst here
      simpa using lengths other
    · simpa [here] using lengths other
  rcases logInsert_ends shadows txnId pageId data with
    ⟨room, small, concrete, represents, ends⟩ | ends | ends
  · have slot : (UInt16.ofNat ((copy pageId).getD .empty).cells.length).toNat =
        (insertedLengths pageId wal.log).length := by
      rw [← lengths, UInt16.toNat_ofNat_of_lt' ?_]
      · simp [SlottedPage.lengths]
      · exact Nat.lt_of_succ_lt (SlottedPage.length_lt_of_hasRoom _ room)
    rw [ends]
    refine ⟨⟨_, Executor.shadows_insert shadows represents, fun other => ?_⟩,
      tracks.wellPlaced.concat trivial ?_⟩
    · rw [WalManager.append, insertedLengths_append]
      by_cases here : other = pageId
      · subst here
        simp [insertedLengths, LogRecord.insertedLength, LogRecord.withLsn, lengths]
      · simp [insertedLengths, LogRecord.insertedLength, LogRecord.withLsn, here, Ne.symm here,
          lengths]
    · rintro lsn otherTxn otherPage otherSlot bytes isInsert
      obtain ⟨-, -, rfl, rfl, rfl⟩ := LogRecord.insert.inj isInsert
      refine ⟨slot, fun page same => ?_⟩
      exact SlottedPage.hasRoom_of_lengths _ (same.trans (lengths pageId).symm) room
  · rwa [ends]
  · rw [ends]
    exact kept _ (Executor.represents_entry shadows pageId)

theorem logDelete (tracks : Tracks wal) (txnId pageId : UInt32) (slotId : UInt16) :
    Tracks (WalManager.logDelete txnId pageId slotId wal).2 := by
  rcases tracks.copies with ⟨copy, shadows, lengths⟩
  rcases logDelete_ends shadows txnId pageId slotId with
    ends | ⟨page', abstract, present, represents', short, ends⟩
  · rw [ends]
    exact tracks.append (by simp [LogRecord.Undoable]) fun _ => rfl
  · have buried : Tracks { wal with pages := wal.pages.insert pageId page' } := by
      refine ⟨⟨_, Executor.shadows_insert shadows represents', fun other => ?_⟩, tracks.wellPlaced⟩
      by_cases here : other = pageId
      · subst here
        simpa [present] using lengths other
      · simpa [here] using lengths other
    rw [ends]
    exact buried.append short fun _ => rfl

theorem run (tracks : Tracks wal) (call : Call) : Tracks (call.run wal).2 := by
  cases call with
  | beginTxn =>
      simp only [Call.run, WalManager.beginTxn, Fallible.bind_apply]
      by_cases room : wal.nextTxnId.toNat + 1 < 2 ^ 32
      · simp only [if_pos room]
        have begun : Tracks { wal with
            nextTxnId := wal.nextTxnId + 1
            activeTxns := insert wal.nextTxnId wal.activeTxns } :=
          ⟨tracks.copies, tracks.wellPlaced⟩
        exact begun.append trivial fun _ => rfl
      · simp only [if_neg room]
        exact tracks
  | logInsert txnId pageId data =>
      have inserted := tracks.logInsert txnId pageId data
      rw [Call.run, Fallible.bind_apply]
      split <;> simp_all
  | logUpdate txnId pageId slotId oldData newData => exact tracks.append trivial fun _ => rfl
  | logDelete txnId pageId slotId =>
      have deleted := tracks.logDelete txnId pageId slotId
      rw [Call.run, Fallible.bind_apply]
      split <;> simp_all
  | commit txnId =>
      have appended : Tracks (wal.append (.commit 0 txnId)) := tracks.append trivial fun _ => rfl
      exact ⟨appended.copies, appended.wellPlaced⟩
  | abort txnId =>
      have appended : Tracks (wal.append (.abort 0 txnId)) := tracks.append trivial fun _ => rfl
      exact ⟨appended.copies, appended.wellPlaced⟩

theorem runCalls (tracks : Tracks wal) (calls : List Call) : Tracks (runCalls calls wal) := by
  induction calls generalizing wal with
  | nil => exact tracks
  | cons call calls ih =>
      have step := tracks.run call
      rw [WalManager.runCalls]
      split
      · next panic wal' equation => simpa [equation] using step
      · next result wal' _ equation =>
          rw [equation] at step
          exact ih step

theorem session (calls : List Call) : Tracks (session [] calls) := by
  have fresh : Tracks (new []) :=
    ⟨⟨Heap.empty, fun pageId => trivial, fun pageId => rfl⟩,
      ⟨fun split => by simp [new] at split, by simp [new]⟩⟩
  exact fresh.runCalls calls

end Tracks

end WalManager

namespace Heap

/-- REDO of the front of a log, with the transactions that the whole log commits. -/
def redoneUpTo (transactions : Finset UInt32) (front : List LogRecord) : Heap :=
  front.foldl (fun heap record =>
    if WalManager.isRedone transactions record then heap.redo record else heap) Heap.empty

theorem redoneUpTo_append (transactions : Finset UInt32) (front back : List LogRecord) :
    redoneUpTo transactions (front ++ back) =
      back.foldl (fun heap record =>
        if WalManager.isRedone transactions record then heap.redo record else heap)
        (redoneUpTo transactions front) := by
  simp [redoneUpTo]

/-- A change of one page, seen from any page. -/
theorem get_update (heap : Heap) (pageId : UInt32) (change : SlottedPage → SlottedPage)
    (rid : Rid) :
    (heap.update pageId change).get rid =
      if rid.pageId = pageId then
        (heap pageId).bind fun page => (change page).get rid.slotId.toNat
      else heap.get rid := by
  unfold get update
  split_ifs with here
  · simp [here, Option.bind_map]
  · simp [here]

section Lengths

variable {heap : Heap} {record : LogRecord} {pageId : UInt32}

/-- A record that inserts nothing on a page keeps the lengths of its tuples. -/
theorem lengths_redo (other : record.insertedLength pageId = none) :
    ((heap.redo record pageId).getD .empty).lengths = ((heap pageId).getD .empty).lengths := by
  cases record with
  | insert lsn txnId otherPage slotId data =>
      have apart : pageId ≠ otherPage := by
        rintro rfl
        simp [LogRecord.insertedLength] at other
      simp [redo, apart]
  | delete lsn txnId otherPage slotId oldData =>
      by_cases here : pageId = otherPage
      · subst here
        cases found : heap pageId <;> simp [redo, update, found]
      · simp [redo, update, here]
  | update lsn txnId otherPage slotId oldData newData =>
      by_cases here : pageId = otherPage
      · subst here
        simp [redo]
      · simp [redo, here]
  | _ => rfl

/-- As long as all inserts on a page are redone, its tuples have the lengths of the session. -/
theorem lengths_foldl_redo {log : List LogRecord} (wellPlaced : WalManager.WellPlaced log)
    {guard : LogRecord → Bool} (front : List LogRecord) {back : List LogRecord}
    (split : log = front ++ back)
    (covered : ∀ record ∈ front, (record.insertedLength pageId).isSome = true →
      guard record = true) :
    ((front.foldl (fun heap record => if guard record then heap.redo record else heap) Heap.empty
      pageId).getD .empty).lengths = insertedLengths pageId front := by
  induction front using List.reverseRecOn generalizing back with
  | nil => rfl
  | append_singleton front record ih =>
      rw [List.append_assoc] at split
      have before := ih split fun other inside => covered other (by simp [inside])
      rw [List.foldl_append, insertedLengths_append, ← before]
      simp only [List.foldl_cons, List.foldl_nil]
      generalize front.foldl _ Heap.empty = heap at before ⊢
      by_cases other : record.insertedLength pageId = none
      · have same : insertedLengths pageId [record] = [] := by simp [insertedLengths, other]
        rw [same, List.append_nil]
        split_ifs with redone
        · exact lengths_redo other
        · rfl
      · cases record with
        | insert lsn txnId otherPage slotId data =>
            obtain rfl : otherPage = pageId := by
              by_contra apart
              simp [LogRecord.insertedLength, apart] at other
            have room := (wellPlaced.placed split).room _ before
            rw [if_pos (covered _ (by simp) (by simp [LogRecord.insertedLength]))]
            simp [redo, room, insertedLengths, LogRecord.insertedLength]
        | _ => simp [LogRecord.insertedLength] at other

theorem lengths_ofLog {log : List LogRecord} (wellPlaced : WalManager.WellPlaced log)
    (pageId : UInt32) : ((ofLog log pageId).getD .empty).lengths = insertedLengths pageId log := by
  have covered : ∀ record ∈ log, (record.insertedLength pageId).isSome = true →
      (fun _ : LogRecord => true) record = true := fun _ _ _ => rfl
  simpa [ofLog] using lengths_foldl_redo wellPlaced log (List.append_nil log).symm covered

end Lengths

section Slots

variable {heap : Heap} {record : LogRecord} {rid : Rid} {bytes : Bytes}

/-- A live slot of a page keeps its tuple when another is appended. -/
theorem get_pushed {page : SlottedPage} {slot : ℕ} (live : page.get slot = some bytes)
    (tuple : Bytes) : (page.push tuple).get slot = some bytes := by
  obtain ⟨inside, -⟩ := SlottedPage.get_eq_some live
  rw [SlottedPage.get_push, if_neg (Nat.ne_of_lt inside), live]

/-- Appending a tuple to a page, if it fits. -/
theorem get_appended (live : heap.get rid = some bytes) (pageId : UInt32) (tuple : Bytes) :
    get (Function.update heap pageId (some (if ((heap pageId).getD .empty).HasRoom tuple.length then
      ((heap pageId).getD .empty).push tuple else (heap pageId).getD .empty))) rid =
        some bytes := by
  by_cases here : rid.pageId = pageId
  · subst here
    rcases Option.bind_eq_some_iff.mp live with ⟨page, found, shown⟩
    simp only [get, Function.update_self, found, Option.getD_some, Option.bind_some]
    split_ifs
    · exact get_pushed shown tuple
    · exact shown
  · simpa [get, here] using live

/-- Overwriting a slot shows its old bytes behind the new ones. -/
theorem get_updateTuple {page : SlottedPage} {slot : ℕ} (live : page.get slot = some bytes)
    (newData : Bytes) : ((page.updateTuple slot newData).2).get slot =
      some (if newData.length ≤ bytes.length then newData ++
        bytes.drop newData.length else bytes) := by
  rw [SlottedPage.updateTuple_of_get live]
  split_ifs
  · rw [SlottedPage.get_overwrite_self, live, Option.map_some]
  · exact live

theorem get_updateTuple_of_ne {page : SlottedPage} {slot other : ℕ} (ne : other ≠ slot)
    (newData : Bytes) : ((page.updateTuple slot newData).2).get other = page.get other := by
  unfold SlottedPage.updateTuple
  split_ifs
  · exact SlottedPage.get_overwrite_of_ne _ _ ne newData
  · rfl

/-- REDO of a record of another slot. -/
theorem get_redo (live : heap.get rid = some bytes)
    (other : record.rewrites rid.pageId rid.slotId = false) :
    (heap.redo record).get rid = some bytes := by
  rcases Option.bind_eq_some_iff.mp live with ⟨page, found, shown⟩
  cases record with
  | insert lsn txnId pageId slotId data => exact get_appended live pageId data
  | delete lsn txnId pageId slotId oldData =>
      rw [redo, get_update]
      split_ifs with here
      · subst here
        have apart : rid.slotId.toNat ≠ slotId.toNat := by
          intro same
          obtain rfl := UInt16.toNat_inj.mp same
          simp [LogRecord.rewrites] at other
        rw [found, Option.bind_some, SlottedPage.get_deleteTuple_of_ne _ _ apart]
        exact shown
      · exact live
  | update lsn txnId pageId slotId oldData newData =>
      by_cases here : rid.pageId = pageId
      · subst here
        have apart : rid.slotId.toNat ≠ slotId.toNat := by
          intro same
          obtain rfl := UInt16.toNat_inj.mp same
          simp [LogRecord.rewrites, LogRecord.updates] at other
        simp only [redo, get, Function.update_self, found, Option.getD_some, Option.bind_some]
        rw [get_updateTuple_of_ne apart, shown]
      · simpa [redo, get, here] using live
  | _ => exact live

/-- UNDO of a record neither inserting nor updating the slot. -/
theorem get_undo (live : heap.get rid = some bytes)
    (inserts : ∀ lsn txnId data, record ≠ .insert lsn txnId rid.pageId rid.slotId data)
    (other : record.updates rid.pageId rid.slotId = false) :
    (heap.undo record).get rid = some bytes := by
  rcases Option.bind_eq_some_iff.mp live with ⟨page, found, shown⟩
  cases record with
  | insert lsn txnId pageId slotId data =>
      rw [undo, get_update]
      split_ifs with here
      · subst here
        have apart : rid.slotId.toNat ≠ slotId.toNat := by
          intro same
          obtain rfl := UInt16.toNat_inj.mp same
          exact inserts _ _ _ rfl
        rw [found, Option.bind_some, SlottedPage.get_deleteTuple_of_ne _ _ apart]
        exact shown
      · exact live
  | delete lsn txnId pageId slotId oldData => exact get_appended live pageId oldData
  | update lsn txnId pageId slotId oldData newData =>
      rw [undo, get_update]
      split_ifs with here
      · subst here
        have apart : rid.slotId.toNat ≠ slotId.toNat := by
          intro same
          obtain rfl := UInt16.toNat_inj.mp same
          simp [LogRecord.updates] at other
        rw [found, Option.bind_some, get_updateTuple_of_ne apart]
        exact shown
      · exact live
  | _ => exact live

/-- UNDO of an update of the slot. -/
theorem get_undo_update (live : heap.get rid = some bytes) (lsn : UInt64) (txnId : UInt32)
    (oldData newData : Bytes) :
    (heap.undo (.update lsn txnId rid.pageId rid.slotId oldData newData)).get rid =
      some (if oldData.length ≤ bytes.length then oldData ++ bytes.drop oldData.length
        else bytes) := by
  rcases Option.bind_eq_some_iff.mp live with ⟨page, found, shown⟩
  rw [undo, get_update, if_pos rfl, found, Option.bind_some, get_updateTuple shown]

end Slots

end Heap

namespace WalManager

/-- A committed insert whose slot no committed transaction changes later in the log. -/
structure Stands (log front : List LogRecord) (rid : Rid) (data : Bytes) (back : List LogRecord) :
    Prop where
  insertion : ∃ lsn, ∃ txnId ∈ committed log,
    log = front ++ .insert lsn txnId rid.pageId rid.slotId data :: back
  last : ∀ record ∈ back, isRedone (committed log) record = true →
    record.rewrites rid.pageId rid.slotId = false

/-- Recovery puts every committed insert that stands where its record says. -/
def SlotFaithful (log : List LogRecord) : Prop :=
  ∃ report wal, recover (new log) = (.ok report, wal) ∧
    ∀ front rid data back, Stands log front rid data back →
      ∃ page, wal.pages.lookup rid.pageId = some page ∧ page.getTuple rid.slotId = .ok (some data)

/-- Before a committed insert that stands, its page sees committed inserts only, and the first
update of its slot that is rolled back has the inserted bytes as its old ones. -/
structure KeepsSlots (log : List LogRecord) : Prop where
  covered : ∀ front rid data back, Stands log front rid data back →
    ∀ record ∈ front, (record.insertedLength rid.pageId).isSome = true →
      isRedone (committed log) record = true
  image : ∀ front rid data back, Stands log front rid data back →
    ∀ before lsn oldData newData after, ∀ txnId ∈ incomplete log,
      log = before ++ .update lsn txnId rid.pageId rid.slotId oldData newData :: after →
      (∀ record ∈ before, Heap.isUndone log record = true →
        record.updates rid.pageId rid.slotId = false) → oldData = data

namespace WellPlaced

variable {log front back : List LogRecord} {rid : Rid} {data : Bytes}

/-- REDO puts an insert that stands into its slot. -/
theorem get_redone (wellPlaced : WellPlaced log) (keeps : KeepsSlots log)
    (stands : Stands log front rid data back) : (Heap.redone log).get rid = some data := by
  rcases stands.insertion with ⟨lsn, txnId, committed, split⟩
  have placed := wellPlaced.placed split
  have lengths : ((Heap.redoneUpTo (WalManager.committed log) front rid.pageId).getD
    .empty).lengths =
      insertedLengths rid.pageId front :=
    Heap.lengths_foldl_redo wellPlaced front split (keeps.covered front rid data back stands)
  have room := placed.room _ lengths
  have redone : isRedone (WalManager.committed log)
      (.insert lsn txnId rid.pageId rid.slotId data) = true := by
    simp [isRedone, LogRecord.isData, LogRecord.txnId, committed]
  have inserted : (Heap.redo (Heap.redoneUpTo (WalManager.committed log) front)
      (.insert lsn txnId rid.pageId rid.slotId data)).get rid = some data := by
    have slot : rid.slotId.toNat =
        ((Heap.redoneUpTo (WalManager.committed log) front rid.pageId).getD
          .empty).cells.length := by
      rw [placed.slot, ← lengths]
      simp [SlottedPage.lengths]
    simp only [Heap.redo, Heap.get, Function.update_self, Option.bind_some, if_pos room]
    rw [SlottedPage.get_push, if_pos slot]
  have later (records : List LogRecord) (inside : ∀ record ∈ records, record ∈ back) (heap : Heap)
      (live : heap.get rid = some data) :
      (records.foldl (fun heap record =>
        if isRedone (WalManager.committed log) record then heap.redo record else heap)
        heap).get rid = some data := by
    induction records generalizing heap with
    | nil => exact live
    | cons record records ih =>
        rw [List.foldl_cons]
        refine ih (fun other here => inside other (by simp [here])) _ ?_
        split_ifs with here
        · exact Heap.get_redo live (stands.last record (inside record (by simp)) here)
        · exact live
  have whole : Heap.redone log = Heap.redoneUpTo (WalManager.committed log) log := rfl
  rw [whole]
  nth_rewrite 2 [split]
  rw [Heap.redoneUpTo_append, List.foldl_cons, if_pos redone]
  exact later back (fun _ => id) _ inserted

/-- Two inserts of one page have different slots. -/
theorem eq_of_slot (wellPlaced : WellPlaced log) {lsn lsn' : UInt64} {txnId txnId' pageId : UInt32}
    {slotId : UInt16} {data' : Bytes} {front' back' : List LogRecord}
    (split : log = front ++ .insert lsn txnId pageId slotId data :: back)
    (split' : log = front' ++ .insert lsn' txnId' pageId slotId data' :: back') :
    txnId = txnId' := by
  have slots : (insertedLengths pageId front).length = (insertedLengths pageId front').length := by
    rw [← (wellPlaced.placed split).slot, (wellPlaced.placed split').slot]
  have both := split.symm.trans split'
  rcases List.append_eq_append_iff.mp both with ⟨more, longer, rest⟩ | ⟨more, longer, rest⟩
  · cases more with
    | nil =>
        simp only [List.nil_append, List.cons.injEq] at rest
        exact (LogRecord.insert.inj rest.1).2.1
    | cons record more =>
        obtain ⟨rfl, -⟩ := List.cons.inj rest
        rw [longer, insertedLengths_append] at slots
        simp [insertedLengths, LogRecord.insertedLength] at slots
  · cases more with
    | nil =>
        simp only [List.nil_append, List.cons.injEq] at rest
        exact (LogRecord.insert.inj rest.1).2.1.symm
    | cons record more =>
        obtain ⟨rfl, -⟩ := List.cons.inj rest
        rw [longer, insertedLengths_append] at slots
        simp [insertedLengths, LogRecord.insertedLength] at slots

/-- An insert that stands is not rolled back, nor is any other of its slot. -/
theorem not_undone (wellPlaced : WellPlaced log) (stands : Stands log front rid data back)
    {record : LogRecord} (inside : record ∈ log) (undone : Heap.isUndone log record = true)
    (lsn : UInt64) (txnId : UInt32) (other : Bytes) :
    record ≠ .insert lsn txnId rid.pageId rid.slotId other := by
  rintro rfl
  rcases stands.insertion with ⟨lsn', txnId', committed, split⟩
  rcases List.append_of_mem inside with ⟨front', back', split'⟩
  obtain rfl := wellPlaced.eq_of_slot split split'
  have unfinished : txnId' ∈ incomplete log := by
    simpa [Heap.isUndone, LogRecord.txnId] using undone
  exact (Finset.mem_filter.mp unfinished).2.1 committed

/-- UNDO of some records of the log, last one first. -/
def undoing (log records : List LogRecord) (heap : Heap) : Heap :=
  records.reverse.foldl
    (fun heap record => if Heap.isUndone log record then heap.undo record else heap) heap

theorem undoing_cons (record : LogRecord) (records : List LogRecord) (heap : Heap) :
    undoing log (record :: records) heap =
      if Heap.isUndone log record then (undoing log records heap).undo record
      else undoing log records heap := by
  simp [undoing]

theorem undoing_append (records others : List LogRecord) (heap : Heap) :
    undoing log (records ++ others) heap = undoing log records (undoing log others heap) := by
  simp [undoing]

/-- UNDO of records that do not update the slot. -/
theorem get_undoing (wellPlaced : WellPlaced log) (stands : Stands log front rid data back)
    {records : List LogRecord} (inside : ∀ record ∈ records, record ∈ log)
    (apart : ∀ record ∈ records, Heap.isUndone log record = true →
      record.updates rid.pageId rid.slotId = false)
    {heap : Heap} {bytes : Bytes} (live : heap.get rid = some bytes) :
    (undoing log records heap).get rid = some bytes := by
  induction records with
  | nil => exact live
  | cons record records ih =>
      have rest := ih (fun other here => inside other (by simp [here]))
        (fun other here => apart other (by simp [here]))
      rw [undoing_cons]
      split_ifs with undone
      · exact Heap.get_undo rest (wellPlaced.not_undone stands (inside record (by simp)) undone)
          (apart record (by simp) undone)
      · exact rest

/-- UNDO of any records leaves a tuple of the same length in the slot. -/
theorem length_undoing (wellPlaced : WellPlaced log) (stands : Stands log front rid data back)
    {records : List LogRecord} (inside : ∀ record ∈ records, record ∈ log)
    {heap : Heap} {bytes : Bytes} (live : heap.get rid = some bytes) :
    ∃ bytes', (undoing log records heap).get rid = some bytes' ∧ bytes'.length = bytes.length := by
  induction records with
  | nil => exact ⟨bytes, live, rfl⟩
  | cons record records ih =>
      rcases ih (fun other here => inside other (by simp [here])) with ⟨bytes', rest, length⟩
      rw [undoing_cons]
      split_ifs with undone
      · by_cases updates : record.updates rid.pageId rid.slotId = true
        · cases record with
          | update lsn txnId pageId slotId oldData newData =>
              obtain ⟨rfl, rfl⟩ : pageId = rid.pageId ∧ slotId = rid.slotId := by
                simpa [LogRecord.updates] using updates
              refine ⟨_, Heap.get_undo_update rest lsn txnId oldData newData, ?_⟩
              split_ifs with fits
              · simp only [List.length_append, List.length_drop]
                omega
              · exact length
          | _ => simp [LogRecord.updates] at updates
        · refine ⟨bytes', Heap.get_undo rest ?_ (by simpa using updates), length⟩
          exact wellPlaced.not_undone stands (inside record (by simp)) undone
      · exact ⟨bytes', rest, length⟩

/-- UNDO leaves an insert that stands in its slot. -/
theorem get_recovered (wellPlaced : WellPlaced log) (keeps : KeepsSlots log)
    (stands : Stands log front rid data back) : (Heap.recovered log).get rid = some data := by
  have redone := wellPlaced.get_redone keeps stands
  have whole : Heap.recovered log = undoing log log (Heap.redone log) := rfl
  rw [whole]
  -- the update undone last is the first one in the log, and it has the last word on the slot
  cases first : log.find? fun record =>
      Heap.isUndone log record && record.updates rid.pageId rid.slotId with
  | none =>
      refine wellPlaced.get_undoing stands (fun _ => id) (fun record inside undone => ?_) redone
      simpa [undone] using List.find?_eq_none.mp first record inside
  | some record =>
      rcases List.find?_eq_some_iff_append.mp first with ⟨found, before, after, split, earlier⟩
      rw [Bool.and_eq_true] at found
      have earlier (other : LogRecord) (inside : other ∈ before)
          (undone : Heap.isUndone log other = true) :
          other.updates rid.pageId rid.slotId = false := by
        simpa [undone] using earlier other inside
      have pieces : undoing log log (Heap.redone log) =
          undoing log before (undoing log [record] (undoing log after (Heap.redone log))) := by
        rw [← undoing_append, ← undoing_append, List.append_assoc, List.singleton_append, ← split]
      rw [pieces]
      refine wellPlaced.get_undoing stands (fun other here => ?_) earlier ?_
      · rw [split]
        simp [here]
      have inside (other : LogRecord) (here : other ∈ after) : other ∈ log := by
        rw [split]
        simp [here]
      rcases wellPlaced.length_undoing stands inside redone with ⟨bytes, live, length⟩
      rw [undoing_cons, if_pos found.1]
      cases record with
      | update lsn txnId pageId slotId oldData newData =>
          obtain ⟨rfl, rfl⟩ : pageId = rid.pageId ∧ slotId = rid.slotId := by
            simpa [LogRecord.updates] using found.2
          have unfinished : txnId ∈ incomplete log := by
            simpa [Heap.isUndone, LogRecord.txnId] using found.1
          obtain rfl : oldData = data := keeps.image front rid data back stands before lsn oldData
            newData after txnId unfinished split earlier
          have restored := Heap.get_undo_update live lsn txnId oldData newData
          rw [if_pos length.ge, List.drop_of_length_le length.le, List.append_nil] at restored
          exact restored
      | _ => simp [LogRecord.updates] at found

end WellPlaced

/-- Recovery of the log of one session puts the committed inserts back into their slots, if these
were numbered by committed inserts only. -/
theorem slotFaithful_session (calls : List Call) (keeps : KeepsSlots (session [] calls).log) :
    SlotFaithful (session [] calls).log := by
  have wellPlaced := (Tracks.session calls).wellPlaced
  rcases replays_recovered wellPlaced.short
    (fun record inside _ => wellPlaced.undoable record inside) with ⟨report, pages, run, -, shadows⟩
  refine ⟨report, _, run, fun front rid data back stands => ?_⟩
  have live := wellPlaced.get_recovered keeps stands
  rcases Option.bind_eq_some_iff.mp live with ⟨abstract, present, shown⟩
  rcases (shadows rid.pageId).cases with ⟨-, missing⟩ | ⟨page, content, found, same, represents⟩
  · simp [missing] at present
  · obtain rfl : content = abstract := by simpa [same] using present
    exact ⟨page, found, by rw [represents.getTuple_eq, shown]⟩

/-- Two inserts on one page, committed in order, the first one updated by a transaction that
never ends. -/
def updatedThenLost : List Call :=
  [.beginTxn, .logInsert 1 0 [7], .commit 1, .beginTxn, .logInsert 2 0 [8], .commit 2, .beginTxn,
    .logUpdate 3 0 0 [7] [9]]

theorem log_updatedThenLost : (session [] updatedThenLost).log =
    [.begin 0 1, .insert 1 1 0 0 [7], .commit 2 1, .begin 3 2, .insert 4 2 0 1 [8], .commit 5 2,
      .begin 6 3, .update 7 3 0 0 [7] [9]] := by decide +kernel

theorem slotFaithful_updatedThenLost :
    KeepsSlots (session [] updatedThenLost).log ∧
      SlotFaithful (session [] updatedThenLost).log := by
  have keeps : KeepsSlots (session [] updatedThenLost).log := by
    rw [log_updatedThenLost]
    refine ⟨?_, ?_⟩
    · intro front rid data back stands record inside inserts
      rcases stands.insertion with ⟨lsn, txnId, -, split⟩
      have here : record ∈ front ++ .insert lsn txnId rid.pageId rid.slotId data :: back := by
        simp [inside]
      rw [← split] at here
      fin_cases here <;> first | decide +kernel | simp [LogRecord.insertedLength] at inserts
    · intro front rid data back stands before lsn oldData newData after txnId unfinished split
        earlier
      rcases stands.insertion with ⟨lsn', txnId', -, split'⟩
      have inserted : LogRecord.insert lsn' txnId' rid.pageId rid.slotId data ∈
          front ++ .insert lsn' txnId' rid.pageId rid.slotId data :: back := by simp
      have updated : LogRecord.update lsn txnId rid.pageId rid.slotId oldData newData ∈
          before ++ .update lsn txnId rid.pageId rid.slotId oldData newData :: after := by simp
      rw [← split'] at inserted
      rw [← split] at updated
      simp only [List.mem_cons, LogRecord.insert.injEq, LogRecord.update.injEq, reduceCtorEq,
        List.not_mem_nil, false_or, or_false] at inserted updated
      rcases inserted with ⟨-, -, -, slot, rfl⟩ | ⟨-, -, -, slot, rfl⟩
      · exact updated.2.2.2.2.1
      · simp [slot] at updated
  exact ⟨keeps, slotFaithful_session _ keeps⟩

/-- An insert that is never committed takes the first slot of the page. -/
def lostThenCommitted : List Call :=
  [.beginTxn, .logInsert 1 0 [7], .beginTxn, .logInsert 2 0 [8], .commit 2]

/-- REDO puts the committed tuple into the slot of the lost one, and UNDO deletes it there. -/
theorem lostThenCommitted_not_slotFaithful : ¬SlotFaithful (session [] lostThenCommitted).log := by
  have log : (session [] lostThenCommitted).log =
      [.begin 0 1, .insert 1 1 0 0 [7], .begin 2 2, .insert 3 2 0 1 [8], .commit 4 2] := by
    decide +kernel
  have missing : ((recover (new [.begin 0 1, .insert 1 1 0 0 [7], .begin 2 2, .insert 3 2 0 1 [8],
      .commit 4 2])).2.pages.lookup 0).map (fun page => page.getTuple 1) = some (.ok none) := by
    decide +kernel
  rw [log]
  rintro ⟨report, wal, run, found⟩
  rcases found [.begin 0 1, .insert 1 1 0 0 [7], .begin 2 2] ⟨0, 1⟩ [8] [.commit 4 2]
    ⟨⟨3, 2, by decide +kernel, rfl⟩, by simp [LogRecord.rewrites, LogRecord.updates]⟩ with
    ⟨page, inside, shown⟩
  rw [run, inside] at missing
  simp [shown] at missing

end WalManager

end VenomDb
