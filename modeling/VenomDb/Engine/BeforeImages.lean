import VenomDb.Engine.Moments
import VenomDb.Engine.PrimaryKeys
import VenomDb.Engine.StaleCopies
import VenomDb.Engine.Survival

/-!
# Before-images

A `Delete` record takes its old bytes from the log manager's copy of the page. The copy takes
part in inserts and deletes but not in updates, so after an `UPDATE` it has the bytes from before
it, until the directory is opened again. What is recorded is then the old bytes of the first
`Update` record that the session has for the slot.
-/

namespace VenomDb

/-- A tuple is on its page in memory, and a moment later there is its tombstone. -/
def Buries (pageId : UInt32) (slotId : UInt16) (tuple : Bytes) (before after : Moment) : Prop :=
  ∃ frameId page page', before.frames frameId = some page ∧ page.id = pageId ∧
    page.getTuple slotId = .ok (some tuple) ∧ page.deleteTuple slotId = .ok (true, page') ∧
    after.frames frameId = some page'

namespace Executor

open Fallible

/-- The log as it was when the directory was opened. -/
def openedLog (executor : Executor) : List LogRecord :=
  executor.history.getLast?.elim executor.wal.log fun moment => moment.log

/-- The records of the session. -/
def sessionLog (executor : Executor) : List LogRecord :=
  executor.wal.log.drop executor.openedLog.length

/-- Every `Delete` record of the session has the bytes that its page had in memory when the record
was appended, right before the tombstone. -/
def TellsDeletes (executor : Executor) : Prop :=
  ∀ front back lsn txnId pageId slotId oldData,
    executor.wal.log = front ++ .delete lsn txnId pageId slotId oldData :: back →
    executor.openedLog.length ≤ front.length →
    ∃ later after before earlier moments,
      executor.history = later ++ after :: before :: earlier :: moments ∧
      earlier.log = front ∧ before.log = front ++ [.delete lsn txnId pageId slotId oldData] ∧
      Buries pageId slotId oldData before after

/-- A session that began with a log: the log has only grown, and the latest moment has all of it. -/
structure Grown (opened : List LogRecord) (executor : Executor) : Prop where
  current : ∃ moment moments, executor.history = moment :: moments ∧
    moment.log = executor.wal.log
  opened : executor.openedLog = opened
  prefixes : ∀ moment ∈ executor.history, moment.log <+: executor.wal.log

/-- Such a session with `TellsDeletes`. -/
structure Told (opened : List LogRecord) (executor : Executor) : Prop
    extends Grown opened executor where
  tells : executor.TellsDeletes

/-- A `Delete` record was appended that does not have the bytes of its page in memory. -/
def Misses (executor : Executor) : Prop :=
  ∃ front back lsn txnId pageId slotId oldData later after before past,
    executor.wal.log = front ++ .delete lsn txnId pageId slotId oldData :: back ∧
    executor.openedLog.length ≤ front.length ∧
    executor.history = (later ++ [after, before]) ++ past ∧
    (∀ moment ∈ later ++ [after, before], front.length < moment.log.length) ∧
    (∀ moment ∈ past, moment.log.length ≤ front.length) ∧
    ¬Buries pageId slotId oldData before after

section Growth

variable {executor executor' : Executor} {moments : List Moment} {opened records : List LogRecord}
  {α : Type}

theorem openedLog_grow (nonempty : executor.history ≠ [])
    (history : executor'.history = moments ++ executor.history) :
    executor'.openedLog = executor.openedLog := by
  rcases List.eq_nil_or_concat executor.history with empty | ⟨front, last, same⟩
  · exact absurd empty nonempty
  · rw [openedLog, openedLog, history, same]
    simp

theorem openedLog_congr (history : executor'.history = executor.history)
    (log : executor'.wal.log = executor.wal.log) : executor'.openedLog = executor.openedLog := by
  rw [openedLog, openedLog, history, log]

theorem Grown.nonempty (grown : Grown opened executor) : executor.history ≠ [] := by
  rcases grown.current with ⟨moment, moments, history, -⟩
  simp [history]

/-- The log has not grown past the log of the session's start. -/
theorem Grown.openedLog_le (grown : Grown opened executor) :
    executor.openedLog.length ≤ executor.wal.log.length := by
  rcases List.eq_nil_or_concat executor.history with empty | ⟨front, last, same⟩
  · exact absurd empty grown.nonempty
  · have inside : last ∈ executor.history := by simp [same]
    have first : executor.openedLog = last.log := by simp [openedLog, same]
    rw [first]
    exact (grown.prefixes last inside).length_le

/-- Calls have completed, and some records were appended meanwhile. -/
structure Grows (executor executor' : Executor) (moments : List Moment) (records : List LogRecord) :
    Prop where
  history : executor'.history = moments ++ executor.history
  log : executor'.wal.log = executor.wal.log ++ records
  latest : moments.head? = some executor'.moment
  between : ∀ moment ∈ moments,
    executor.wal.log <+: moment.log ∧ moment.log <+: executor'.wal.log

theorem grows_record (history : executor'.history = executor.history)
    (log : executor'.wal.log = executor.wal.log ++ records) :
    Grows executor executor'.record [executor'.moment] records := by
  refine ⟨?_, log, rfl, fun moment inside => ?_⟩
  · rw [Executor.record, history]
    rfl
  · rw [List.mem_singleton.mp inside]
    refine ⟨?_, List.prefix_refl _⟩
    rw [show executor'.moment.log = executor.wal.log ++ records from log]
    exact List.prefix_append _ _

theorem Grown.grow (grown : Grown opened executor)
    (grows : Grows executor executor' moments records) :
    Grown opened executor' := by
  refine ⟨?_, (openedLog_grow grown.nonempty grows.history).trans grown.opened,
    fun moment inside => ?_⟩
  · rcases List.head?_eq_some_iff.mp grows.latest with ⟨rest, same⟩
    exact ⟨executor'.moment, rest ++ executor.history, by rw [grows.history, same]; rfl, rfl⟩
  · rw [grows.history] at inside
    rcases List.mem_append.mp inside with new | old
    · exact (grows.between moment new).2
    · rw [grows.log]
      exact (grown.prefixes moment old).trans (List.prefix_append _ _)

theorem Grown.congr (grown : Grown opened executor) (history : executor'.history = executor.history)
    (log : executor'.wal.log = executor.wal.log) : Grown opened executor' := by
  refine ⟨?_, (openedLog_congr history log).trans grown.opened, ?_⟩
  · rw [history, log]
    exact grown.current
  · rw [history, log]
    exact grown.prefixes

/-- A record of a log that has grown is an old one or a new one. -/
theorem old_or_new {log front back : List LogRecord} {record : LogRecord}
    (found : log ++ records = front ++ record :: back) :
    (∃ middle, log = front ++ record :: middle) ∨
      ∃ middle, front = log ++ middle ∧ records = middle ++ record :: back := by
  rcases List.append_eq_append_iff.mp found.symm with ⟨middle, old, new⟩ | ⟨middle, old, new⟩
  · cases middle with
    | nil => exact .inr ⟨[], by simpa using old.symm, by simpa using new.symm⟩
    | cons other middle =>
        obtain ⟨rfl, -⟩ := List.cons.inj new
        exact .inl ⟨middle, old⟩
  · exact .inr ⟨middle, old, new⟩

/-- What is told of a `Delete` record stays told. -/
theorem TellsDeletes.later (tells : executor.TellsDeletes) {front back : List LogRecord}
    {lsn : UInt64} {txnId pageId : UInt32} {slotId : UInt16} {oldData : Bytes}
    (history : executor'.history = moments ++ executor.history)
    (found : executor.wal.log = front ++ .delete lsn txnId pageId slotId oldData :: back)
    (begun : executor.openedLog.length ≤ front.length) :
    ∃ later after before earlier past,
      executor'.history = later ++ after :: before :: earlier :: past ∧
      earlier.log = front ∧ before.log = front ++ [.delete lsn txnId pageId slotId oldData] ∧
      Buries pageId slotId oldData before after := by
  rcases tells front back lsn txnId pageId slotId oldData found begun with
    ⟨later, after, before, earlier, past, split, rest⟩
  exact ⟨moments ++ later, after, before, earlier, past,
    by rw [history, split, List.append_assoc], rest⟩

/-- Records of other kinds were appended, or none. -/
theorem Told.grow (told : Told opened executor) (grows : Grows executor executor' moments records)
    (others : ∀ lsn txnId pageId slotId oldData,
      .delete lsn txnId pageId slotId oldData ∉ records) : Told opened executor' := by
  refine ⟨told.toGrown.grow grows, ?_⟩
  intro front back lsn txnId pageId slotId oldData found begun
  rw [openedLog_grow told.nonempty grows.history] at begun
  rw [grows.log] at found
  rcases old_or_new found with ⟨middle, old⟩ | ⟨middle, -, new⟩
  · exact told.tells.later grows.history old begun
  · have inside : .delete lsn txnId pageId slotId oldData ∈ records := by
      rw [new]
      simp
    exact absurd inside (others lsn txnId pageId slotId oldData)

theorem Told.congr (told : Told opened executor) (history : executor'.history = executor.history)
    (log : executor'.wal.log = executor.wal.log) : Told opened executor' := by
  refine ⟨told.toGrown.congr history log, ?_⟩
  rw [TellsDeletes, openedLog_congr history log, history, log]
  exact told.tells

/-- A `Delete` record is appended, and then a page changes. -/
structure Logged (executor logged after : Executor) (record : LogRecord) : Prop where
  log : logged.wal.log = executor.wal.log ++ [record]
  sameLog : after.wal.log = logged.wal.log
  history : after.history = after.moment :: logged.moment :: executor.history

theorem Logged.grows {logged after : Executor} {record : LogRecord}
    (steps : Logged executor logged after record) :
    Grows executor after [after.moment, logged.moment] [record] := by
  refine ⟨steps.history, steps.sameLog.trans steps.log, rfl, fun moment inside => ?_⟩
  have longer : executor.wal.log <+: logged.wal.log := steps.log ▸ List.prefix_append _ _
  rcases List.mem_pair.mp inside with rfl | rfl
  · exact ⟨longer.trans (steps.sameLog ▸ List.prefix_refl _), List.prefix_refl _⟩
  · exact ⟨longer, steps.sameLog ▸ List.prefix_refl _⟩

/-- The record has the tuple that is buried. -/
theorem Told.bury {logged after : Executor} {lsn : UInt64} {txnId pageId : UInt32}
    {slotId : UInt16} {tuple : Bytes} (told : Told opened executor)
    (steps : Logged executor logged after (.delete lsn txnId pageId slotId tuple))
    (buries : Buries pageId slotId tuple logged.moment after.moment) : Told opened after := by
  have grows := steps.grows
  refine ⟨told.toGrown.grow grows, ?_⟩
  intro front back lsn' txnId' pageId' slotId' oldData found begun
  rw [openedLog_grow told.nonempty grows.history] at begun
  rw [grows.log] at found
  rcases old_or_new found with ⟨middle, old⟩ | ⟨middle, rfl, new⟩
  · exact told.tells.later grows.history old begun
  · rcases List.singleton_eq_append_iff.mp new with ⟨rfl, same⟩ | ⟨-, same⟩
    · obtain ⟨⟨rfl, rfl, rfl, rfl, rfl⟩, -⟩ : (lsn' = lsn ∧ txnId' = txnId ∧ pageId' = pageId ∧
          slotId' = slotId ∧ oldData = tuple) ∧ back = [] := by simpa using same
      rcases told.current with ⟨earlier, past, latest, current⟩
      refine ⟨[], after.moment, logged.moment, earlier, past,
        by rw [steps.history, latest]; rfl, ?_, ?_, buries⟩
      · simp [current]
      · rw [List.append_nil]
        exact steps.log
    · simp at same

/-- The record has something else than the tuple that is buried. -/
theorem Grown.miss {logged after : Executor} {lsn : UInt64} {txnId pageId : UInt32}
    {slotId : UInt16} {oldData : Bytes} (grown : Grown opened executor)
    (steps : Logged executor logged after (.delete lsn txnId pageId slotId oldData))
    (other : ¬Buries pageId slotId oldData logged.moment after.moment) : Misses after := by
  have grows := steps.grows
  refine ⟨executor.wal.log, [], lsn, txnId, pageId, slotId, oldData, [], after.moment,
    logged.moment, executor.history, grows.log, ?_, grows.history, ?_, ?_, other⟩
  · rw [openedLog_grow grown.nonempty grows.history]
    exact grown.openedLog_le
  · have count : after.wal.log.length = executor.wal.log.length + 1 := by
      rw [steps.sameLog, steps.log, List.length_append, List.length_singleton]
    intro moment inside
    rcases List.mem_pair.mp inside with rfl | rfl
    · exact Nat.lt_of_lt_of_eq (Nat.lt_succ_self _) count.symm
    · exact Nat.lt_of_lt_of_eq (Nat.lt_succ_self _) (steps.sameLog ▸ count).symm
  · exact fun moment inside => (grown.prefixes moment inside).length_le

theorem Misses.grow (misses : Misses executor) (grown : Grown opened executor)
    (grows : Grows executor executor' moments records) : Misses executor' := by
  rcases misses with ⟨front, back, lsn, txnId, pageId, slotId, oldData, later, after, before, past,
    found, begun, split, new, old, other⟩
  refine ⟨front, back ++ records, lsn, txnId, pageId, slotId, oldData, moments ++ later,
    after, before, past, ?_, ?_, ?_, ?_, old, other⟩
  · rw [grows.log, found, List.append_assoc, List.cons_append]
  · rw [openedLog_grow grown.nonempty grows.history]
    exact begun
  · rw [grows.history, split]
    simp
  · intro moment inside
    rw [List.append_assoc] at inside
    rcases List.mem_append.mp inside with latest | earlier
    · have longer := (grows.between moment latest).1.length_le
      rw [found, List.length_append, List.length_cons] at longer
      omega
    · exact new moment earlier

theorem Misses.congr (misses : Misses executor) (history : executor'.history = executor.history)
    (log : executor'.wal.log = executor.wal.log) : Misses executor' := by
  rw [Misses, openedLog_congr history log, history, log]
  exact misses

/-- The moment right after a record was appended is found by the lengths of the logs. -/
theorem split_unique {count : ℕ} {front back front' back' : List Moment} {first first' : Moment}
    (same : (front ++ [first]) ++ back = (front' ++ [first']) ++ back')
    (new : ∀ moment ∈ front ++ [first], count < moment.log.length)
    (old : ∀ moment ∈ back, moment.log.length ≤ count)
    (new' : count < first'.log.length)
    (old' : ∀ moment, back'.head? = some moment → moment.log.length ≤ count) :
    front ++ [first] = front' ++ [first'] := by
  rcases List.append_eq_append_iff.mp same with ⟨middle, longer, rest⟩ | ⟨middle, longer, rest⟩
  · rcases List.eq_nil_or_concat middle with rfl | ⟨between, last, rfl⟩
    · simpa using longer.symm
    · rw [List.concat_eq_append, ← List.append_assoc] at longer
      obtain rfl := List.singleton_inj.mp (List.append_inj' longer rfl).2
      have small := old first' (by simp [rest])
      omega
  · cases middle with
    | nil => simpa using longer
    | cons moment middle =>
        have large := new moment (by simp [longer])
        have small := old' moment (by simp [rest])
        omega

theorem Misses.not_tells (misses : Misses executor) : ¬executor.TellsDeletes := by
  intro tells
  rcases misses with ⟨front, back, lsn, txnId, pageId, slotId, oldData, later, after, before, past,
    found, begun, split, new, old, other⟩
  rcases tells front back lsn txnId pageId slotId oldData found begun with
    ⟨later', after', before', earlier, past', split', atFront, appended, buries⟩
  have same : ((later ++ [after]) ++ [before]) ++ past =
      ((later' ++ [after']) ++ [before']) ++ (earlier :: past') := by
    rw [show later ++ [after] ++ [before] = later ++ [after, before] by simp, ← split, split']
    simp
  have unique := split_unique same (by simpa using new) old
    (by simp [appended]) (by simp [atFront])
  obtain ⟨rest, last⟩ := List.append_inj' unique rfl
  obtain ⟨-, last'⟩ := List.append_inj' rest rfl
  obtain rfl : before = before' := List.singleton_inj.mp last
  obtain rfl : after = after' := List.singleton_inj.mp last'
  exact other buries

/-- What looks at the history and the log, and stays when calls complete that append no `Delete`
record. -/
structure Lasts (holds : Executor → Prop) : Prop where
  record : ∀ {executor executor' : Executor} {records}, holds executor →
    executor'.history = executor.history → executor'.wal.log = executor.wal.log ++ records →
    (∀ lsn txnId pageId slotId oldData, .delete lsn txnId pageId slotId oldData ∉ records) →
    holds executor'.record
  congr : ∀ {executor executor' : Executor}, holds executor →
    executor'.history = executor.history → executor'.wal.log = executor.wal.log → holds executor'

theorem lasts_grown : Lasts (Grown opened) :=
  ⟨fun grown history log _ => grown.grow (grows_record history log), fun grown => grown.congr⟩

theorem lasts_told : Lasts (Told opened) :=
  ⟨fun told history log others => told.grow (grows_record history log) others,
    fun told => told.congr⟩

theorem lasts_misses : Lasts (fun executor => Grown opened executor ∧ Misses executor) :=
  ⟨fun here history log _ => ⟨here.1.grow (grows_record history log),
      here.2.grow here.1 (grows_record history log)⟩,
    fun here history log => ⟨here.1.congr history log, here.2.congr history log⟩⟩

variable {holds : Executor → Prop}

theorem Lasts.recordHere (lasts : Lasts holds) (here : holds executor)
    (history : executor'.history = executor.history)
    (log : executor'.wal.log = executor.wal.log) : holds executor'.record :=
  lasts.record here history (log.trans (List.append_nil _).symm) (by simp)

/-- A call of the log manager that appends at most one record, and no `Delete` record. -/
theorem Lasts.keeps_onWal {kind : LogRecord → Prop} {call : Fallible Failure WalManager α}
    (lasts : Lasts holds) (appends : ∀ wal, WalManager.Appends kind wal (call wal).2)
    (others : ∀ lsn txnId pageId slotId oldData,
      ¬kind (.delete lsn txnId pageId slotId oldData)) : Keeps holds (onWal call) := by
  intro executor here
  rcases (appends executor.wal).log with same | ⟨record, isKind, log⟩
  · exact lasts.recordHere here rfl same
  · refine lasts.record here rfl log fun lsn txnId pageId slotId oldData inside => ?_
    obtain rfl := List.mem_singleton.mp inside
    exact others lsn txnId pageId slotId oldData isKind

theorem Lasts.transacts (lasts : Lasts holds) : Transacts holds where
  begins := by
    intro executor here
    rw [onWal, WalManager.beginTxn]
    dsimp only
    split_ifs
    · refine lasts.record here rfl rfl fun lsn txnId pageId slotId oldData inside => ?_
      have same := List.mem_singleton.mp inside
      simp [LogRecord.withLsn] at same
    · exact lasts.recordHere here rfl rfl
  inserts := fun txnId pageId rowBytes =>
    lasts.keeps_onWal (WalManager.appends_logInsert · txnId pageId rowBytes)
      (by rintro lsn other pageId slotId oldData ⟨_, _, ⟨⟩⟩)
  updates := fun txnId pageId slotId oldData newData =>
    lasts.keeps_onWal (WalManager.appends_logUpdate · txnId pageId slotId oldData newData)
      (by rintro lsn other pageId slotId oldData ⟨_, ⟨⟩⟩)
  commits := fun txnId => lasts.keeps_onWal (WalManager.appends_commit · txnId)
    (by rintro lsn other pageId slotId oldData ⟨_, ⟨⟩⟩)
  aborts := fun txnId => lasts.keeps_onWal (WalManager.appends_abort · txnId)
    (by rintro lsn other pageId slotId oldData ⟨_, ⟨⟩⟩)
  tables := fun _ _ here => lasts.congr here rfl rfl

variable [Crc32]

theorem Lasts.indifferent (lasts : Lasts holds) : Indifferent holds where
  fetch := fun _ _ here => lasts.recordHere here rfl rfl
  allocate := fun _ here => lasts.recordHere here rfl rfl
  flush := fun _ _ here => lasts.recordHere here rfl rfl
  unpin := fun _ _ _ here => lasts.recordHere here rfl rfl
  edit := fun _ _ here => lasts.recordHere here rfl rfl
  indexes := fun _ _ here => lasts.congr here rfl rfl
  pageFile := fun _ _ here => lasts.recordHere here rfl rfl
  catalogFile := fun _ _ here => lasts.recordHere here rfl rfl

end Growth

end Executor

end VenomDb
