import VenomDb.Engine.SlotReplay
import Mathlib.Data.List.Infix

/-!
# Which work recovery redoes

Recovery should redo what the sessions of a file finished. It goes by transaction ids, and these
start over in every session: what a session left behind is redone as soon as some session commits
under the same id. `Clashes` says when, and recovery then counts more records than it should.
-/

namespace VenomDb

namespace LogRecord

/-- REDO of the record makes sure that the page is there. -/
def creates (pageId : UInt32) : LogRecord → Bool
  | insert _ _ other _ _ => other = pageId
  | update _ _ other _ _ _ => other = pageId
  | _ => false

/-- A `Begin` record of the transaction. -/
def begins (txnId : UInt32) : LogRecord → Bool
  | begin _ other => other = txnId
  | _ => false

/-- An `Abort` record of the transaction. -/
def aborts (txnId : UInt32) : LogRecord → Bool
  | abort _ other => other = txnId
  | _ => false

/-- REDO of the record does something when these pages are there. -/
def Acts (present : UInt32 → Prop) : LogRecord → Prop
  | insert .. => True
  | update .. => True
  | delete _ _ pageId _ _ => present pageId
  | _ => False

theorem Acts.mono {record : LogRecord} {present present' : UInt32 → Prop}
    (acts : record.Acts present) (more : ∀ pageId, present pageId → present' pageId) :
    record.Acts present' := by
  cases record with
  | delete lsn txnId pageId slotId oldData => exact more pageId acts
  | _ => exact acts

end LogRecord

namespace WalManager

section Specification

/-- A session has a `Commit` record of the transaction after its `Begin`, and no `Abort`. -/
def Finishes (records : List LogRecord) (txnId : UInt32) : Prop :=
  (∃ before after lsn, records = before ++ LogRecord.begin lsn txnId :: after ∧
    Commits after txnId) ∧ ∀ lsn, LogRecord.abort lsn txnId ∉ records

instance (records : List LogRecord) (txnId : UInt32) : Decidable (Finishes records txnId) :=
  decidable_of_iff ((∃ tail ∈ records.tails, tail.head?.any (·.begins txnId) = true ∧
    txnId ∈ committed tail.tail) ∧ ¬∃ record ∈ records, record.aborts txnId = true) (by
    refine and_congr ⟨?_, ?_⟩ ?_
    · rintro ⟨tail, suffix, isBegin, commits⟩
      rcases (List.mem_tails _ _).mp suffix with ⟨before, rfl⟩
      rcases tail with _ | ⟨first, after⟩
      · simp at isBegin
      · cases first with
        | begin lsn other =>
            obtain rfl : other = txnId := by simpa [LogRecord.begins] using isBegin
            exact ⟨before, after, lsn, rfl, mem_committed.mp commits⟩
        | _ => simp [LogRecord.begins] at isBegin
    · rintro ⟨before, after, lsn, rfl, commits⟩
      refine ⟨_, (List.mem_tails _ _).mpr ⟨before, rfl⟩, ?_, mem_committed.mpr commits⟩
      simp [LogRecord.begins]
    · refine ⟨fun none lsn inside => none ⟨_, inside, by simp [LogRecord.aborts]⟩, ?_⟩
      rintro none ⟨record, inside, isAbort⟩
      cases record with
      | abort lsn other =>
          obtain rfl : other = txnId := by simpa [LogRecord.aborts] using isAbort
          exact none lsn inside
      | _ => simp [LogRecord.aborts] at isAbort)

/-- A data record of a session, of a transaction that the session finished. -/
def IsFinished (records : List LogRecord) (record : LogRecord) : Prop :=
  record.isData = true ∧ ∃ txnId ∈ record.txnId, Finishes records txnId

instance (records : List LogRecord) (record : LogRecord) : Decidable (IsFinished records record) :=
  inferInstanceAs (Decidable
    (record.isData = true ∧ ∃ txnId ∈ record.txnId, Finishes records txnId))

/-- The data records of a history whose transactions their own session finished, in the order of
the log. -/
def finishedRecords (history : List (List Call)) : List LogRecord :=
  (sessionLogs [] history).flatMap fun records =>
    records.filter fun record => IsFinished records record

/-- The next recovery redoes as many records as REDO of the finished ones redoes, and its pages are
what UNDO makes of theirs. -/
def RedoesOnlyFinished (history : List (List Call)) : Prop :=
  ∃ report wal pages,
    recover (new (logAfter [] history)) = (.ok report, wal) ∧
    replay LogRecord.isData redoRecord (finishedRecords history) ∅ = .ok (pages, report.redone) ∧
    replay (Heap.isUndone (logAfter [] history)) undoRecord (logAfter [] history).reverse pages =
      .ok (wal.pages, report.undone)

/-- A data record with an id that some session of the history commits. -/
def IsCommitted (history : List (List Call)) (record : LogRecord) : Prop :=
  record.isData = true ∧ ∃ txnId, record.txnId = some txnId ∧
    ∃ records ∈ sessionLogs [] history, Commits records txnId

/-- Some session writes under an id without finishing it, and some session commits the id. A
`Delete` counts if an earlier record of this kind put its page there. -/
def Clashes (history : List (List Call)) : Prop :=
  ∃ earlier left later before record after,
    sessionLogs [] history = earlier ++ left :: later ∧ left = before ++ record :: after ∧
    IsCommitted history record ∧ ¬IsFinished left record ∧
    record.Acts fun pageId => ∃ other ∈ earlier.flatten ++ before,
      IsCommitted history other ∧ other.creates pageId = true

/-- The guard of REDO does not tell sessions apart. -/
theorem isRedone_iff (history : List (List Call)) (record : LogRecord) :
    isRedone (committed (logAfter [] history)) record = true ↔ IsCommitted history record := by
  have file : logAfter [] history = (sessionLogs [] history).flatten := by simp [logAfter_eq]
  cases writer : record.txnId with
  | none => simp [isRedone, IsCommitted, writer]
  | some txnId =>
      simp only [isRedone, IsCommitted, writer, file, Option.any_some, Bool.and_eq_true,
        decide_eq_true_eq, mem_committed, Option.some.injEq, exists_eq_left']
      simp only [Commits, List.mem_flatten]
      grind

theorem IsFinished.isCommitted {history : List (List Call)} {records : List LogRecord}
    {record : LogRecord} (finished : IsFinished records record)
    (inside : records ∈ sessionLogs [] history) : IsCommitted history record := by
  rcases finished with ⟨isData, txnId, writer, ⟨before, after, lsn, rfl, commitLsn, commits⟩, -⟩
  exact ⟨isData, txnId, writer, _, inside, commitLsn, by simp [commits]⟩

end Specification

section Redo

variable {pages : WalPages}

/-- The pages can be read. -/
def Sane (pages : WalPages) : Prop :=
  ∃ heap : Heap, ∀ pageId, Shadows (pages.lookup pageId) (heap pageId)

theorem sane_empty : Sane ∅ := ⟨Heap.empty, fun _ => trivial⟩

/-- What REDO of a data record does. -/
structure RedoStep (record : LogRecord) (pages pages' : WalPages) (count : ℕ) : Prop where
  run : redoRecord record pages = .ok (pages', count)
  sane : Sane pages'
  present : ∀ pageId, (pages'.lookup pageId).isSome ↔
    (pages.lookup pageId).isSome ∨ record.creates pageId = true
  acts : record.Acts (fun pageId => (pages.lookup pageId).isSome) → count = 1
  rests : ¬record.Acts (fun pageId => (pages.lookup pageId).isSome) → count = 0 ∧ pages' = pages

theorem isSome_lookup_insert {pages : WalPages} {pageId other : UInt32} {page : Page} :
    ((pages.insert pageId page).lookup other).isSome ↔
      (pages.lookup other).isSome ∨ pageId = other := by
  by_cases same : other = pageId
  · subst same
    simp
  · rw [AList.lookup_insert_ne same]
    simp [Ne.symm same]

theorem redoStep_of_isData {record : LogRecord} (sane : Sane pages) (short : record.Short)
    (isData : record.isData = true) : ∃ pages' count, RedoStep record pages pages' count := by
  rcases sane with ⟨heap, shadows⟩
  rcases redoRecord_refines shadows short with ⟨pages', count, run, shadows'⟩
  refine ⟨pages', count, run, ⟨_, shadows'⟩, ?_, ?_, ?_⟩
  all_goals cases record with
    | insert lsn txnId pageId slotId data =>
        rw [redoRecord] at run
        rcases Fallible.except_bind_eq_ok run with ⟨out, -, same⟩
        obtain ⟨rfl, rfl⟩ := Prod.mk.inj (Except.ok.inj same)
        simp [isSome_lookup_insert, LogRecord.creates, LogRecord.Acts]
    | update lsn txnId pageId slotId oldData newData =>
        rw [redoRecord] at run
        rcases Fallible.except_bind_eq_ok run with ⟨out, -, same⟩
        obtain ⟨rfl, rfl⟩ := Prod.mk.inj (Except.ok.inj same)
        simp [isSome_lookup_insert, LogRecord.creates, LogRecord.Acts]
    | delete lsn txnId pageId slotId oldData =>
        rw [redoRecord] at run
        cases found : pages.lookup pageId with
        | none =>
            rw [found] at run
            obtain ⟨rfl, rfl⟩ := Prod.mk.inj (Except.ok.inj run)
            simp [LogRecord.creates, LogRecord.Acts, found]
        | some page =>
            rw [found] at run
            rcases Fallible.except_bind_eq_ok run with ⟨out, -, same⟩
            obtain ⟨rfl, rfl⟩ := Prod.mk.inj (Except.ok.inj same)
            simp +contextual [isSome_lookup_insert, LogRecord.creates, LogRecord.Acts, found]
    | _ => simp [LogRecord.isData] at isData

end Redo

section Compare

variable {guard : LogRecord → Bool} {marked : List (LogRecord × Bool)} {record : LogRecord}
  {mark : Bool} {pages pages' : WalPages} {count count' : ℕ}

/-- The guard lets a record through that is not marked, and REDO acts on it. -/
def Extra (guard : LogRecord → Bool) (marked : List (LogRecord × Bool)) : Prop :=
  ∃ before record after, marked = before ++ (record, false) :: after ∧ guard record = true ∧
    record.Acts fun pageId => ∃ other ∈ before, guard other.1 = true ∧ other.1.creates pageId = true

theorem extra_concat : Extra guard (marked ++ [(record, mark)]) ↔ Extra guard marked ∨
    mark = false ∧ guard record = true ∧
      record.Acts fun pageId => ∃ other ∈ marked, guard other.1 = true ∧
        other.1.creates pageId = true := by
  constructor
  · rintro ⟨before, other, after, split, passes, acts⟩
    rcases List.eq_nil_or_concat after with rfl | ⟨after', last, rfl⟩
    · obtain ⟨rfl, same⟩ := List.append_inj' split rfl
      obtain ⟨rfl, rfl⟩ := Prod.mk.inj (List.singleton_inj.mp same)
      exact .inr ⟨rfl, passes, acts⟩
    · rw [List.concat_eq_append, ← List.cons_append, ← List.append_assoc] at split
      exact .inl ⟨before, other, after', (List.append_inj' split rfl).1, passes, acts⟩
  · rintro (⟨before, other, after, rfl, passes, acts⟩ | ⟨rfl, passes, acts⟩)
    · exact ⟨before, other, after ++ [(record, mark)], by simp, passes, acts⟩
    · exact ⟨marked, record, [], rfl, passes, acts⟩

/-- REDO of all records that a guard lets through, next to REDO of the marked ones alone. -/
structure Compares (guard : LogRecord → Bool) (marked : List (LogRecord × Bool))
    (pages pages' : WalPages) (count count' : ℕ) : Prop where
  all : replay guard redoRecord (marked.map Prod.fst) ∅ = .ok (pages, count)
  alone : replay LogRecord.isData redoRecord ((marked.filter Prod.snd).map Prod.fst) ∅ =
    .ok (pages', count')
  sane : Sane pages
  sane' : Sane pages'
  present : ∀ pageId, (pages.lookup pageId).isSome ↔
    ∃ other ∈ marked, guard other.1 = true ∧ other.1.creates pageId = true
  fewer : ∀ pageId, (pages'.lookup pageId).isSome → (pages.lookup pageId).isSome
  le : count' ≤ count
  lt : Extra guard marked → count' < count
  same : ¬Extra guard marked → pages' = pages ∧ count' = count

/-- A record that the guard does not let through. -/
theorem Compares.pass (compares : Compares guard marked pages pages' count count')
    (stopped : guard record = false) (control : mark = true → record.isData = false) :
    Compares guard (marked ++ [(record, mark)]) pages pages' count count' where
  all := by
    rw [List.map_append]
    exact (replay_concat_of_not stopped).trans compares.all
  alone := by
    rw [List.filter_append, List.map_append]
    cases mark with
    | false => simpa using compares.alone
    | true => exact (replay_concat_of_not (control rfl)).trans compares.alone
  sane := compares.sane
  sane' := compares.sane'
  present := fun pageId => (compares.present pageId).trans (by simp [stopped])
  fewer := compares.fewer
  le := compares.le
  lt := fun extra => compares.lt ((extra_concat.mp extra).resolve_right (by simp [stopped]))
  same := fun none => compares.same fun extra => none (extra_concat.mpr (.inl extra))

/-- A page is there after a step of REDO if a record of the log put it there. -/
theorem Compares.present_concat {after : WalPages} {more : ℕ}
    (compares : Compares guard marked pages pages' count count') (passes : guard record = true)
    (step : RedoStep record pages after more) (pageId : UInt32) :
    (after.lookup pageId).isSome ↔ ∃ other ∈ marked ++ [(record, mark)],
      guard other.1 = true ∧ other.1.creates pageId = true := by
  rw [step.present, compares.present]
  simp [or_and_right, exists_or, passes]

/-- A record that the guard lets through, but is not marked. -/
theorem Compares.extra (compares : Compares guard marked pages pages' count count')
    (short : record.Short) (passes : guard record = true) (isData : record.isData = true) :
    ∃ after more, Compares guard (marked ++ [(record, false)]) after pages' (count + more)
      count' := by
  rcases redoStep_of_isData compares.sane short isData with ⟨after, more, step⟩
  have acts := step.acts
  have rests := step.rests
  simp only [compares.present] at acts rests
  refine ⟨after, more, ?_, ?_, step.sane, compares.sane', compares.present_concat passes step, ?_,
    compares.le.trans (Nat.le_add_right _ _), fun extra => ?_, fun none => ?_⟩
  · rw [List.map_append]
    exact replay_concat compares.all passes step.run
  · rw [List.filter_append, List.map_append]
    simpa using compares.alone
  · exact fun pageId present => (step.present pageId).mpr (.inl (compares.fewer pageId present))
  · rcases extra_concat.mp extra with extra | ⟨-, -, acting⟩
    · exact (compares.lt extra).trans_le (Nat.le_add_right _ _)
    · have one := acts acting
      have bound := compares.le
      omega
  · rw [extra_concat, not_or] at none
    rcases rests fun acting => none.2 ⟨rfl, passes, acting⟩ with ⟨rfl, rfl⟩
    exact compares.same none.1

/-- A record that is marked. -/
theorem Compares.redo (compares : Compares guard marked pages pages' count count')
    (short : record.Short) (passes : guard record = true) (isData : record.isData = true) :
    ∃ after after' more more', Compares guard (marked ++ [(record, true)]) after after'
      (count + more) (count' + more') := by
  rcases redoStep_of_isData compares.sane short isData with ⟨after, more, step⟩
  rcases redoStep_of_isData compares.sane' short isData with ⟨after', more', step'⟩
  have fewer : more' ≤ more := by
    by_cases acting : record.Acts fun pageId => (pages'.lookup pageId).isSome
    · rw [step'.acts acting, step.acts (acting.mono compares.fewer)]
    · rw [(step'.rests acting).1]
      exact Nat.zero_le more
  refine ⟨after, after', more, more', ?_, ?_, step.sane, step'.sane,
    compares.present_concat passes step, ?_, Nat.add_le_add compares.le fewer, fun extra => ?_,
    fun none => ?_⟩
  · rw [List.map_append]
    exact replay_concat compares.all passes step.run
  · rw [List.filter_append, List.map_append]
    exact replay_concat compares.alone isData step'.run
  · intro pageId present
    refine (step.present pageId).mpr (((step'.present pageId).mp present).imp_left ?_)
    exact compares.fewer pageId
  · have old := (extra_concat.mp extra).resolve_right (by simp)
    exact Nat.add_lt_add_of_lt_of_le (compares.lt old) fewer
  · rcases compares.same fun extra => none (extra_concat.mpr (.inl extra)) with ⟨rfl, rfl⟩
    obtain ⟨rfl, rfl⟩ := Prod.mk.inj (Except.ok.inj (step'.run.symm.trans step.run))
    exact ⟨rfl, rfl⟩

theorem compares_marked (marked : List (LogRecord × Bool))
    (short : ∀ entry ∈ marked, entry.1.Short)
    (isData : ∀ entry ∈ marked, guard entry.1 = true → entry.1.isData = true)
    (passes : ∀ entry ∈ marked, entry.2 = true → entry.1.isData = true → guard entry.1 = true) :
    ∃ pages pages' count count', Compares guard marked pages pages' count count' := by
  induction marked using List.reverseRecOn with
  | nil =>
      have none : ¬Extra guard [] := by simp [Extra]
      exact ⟨∅, ∅, 0, 0, rfl, rfl, sane_empty, sane_empty, by simp, fun _ => id, le_refl _,
        fun extra => absurd extra none, fun _ => ⟨rfl, rfl⟩⟩
  | append_singleton marked last ih =>
      rcases last with ⟨record, mark⟩
      rcases ih (fun entry inside => short entry (by simp [inside]))
        (fun entry inside => isData entry (by simp [inside]))
        (fun entry inside => passes entry (by simp [inside])) with
        ⟨pages, pages', count, count', compares⟩
      have here : (record, mark) ∈ marked ++ [(record, mark)] := by simp
      by_cases guarded : guard record = true
      · have written := isData _ here guarded
        cases mark with
        | false =>
            rcases compares.extra (short _ here) guarded written with ⟨after, more, compares'⟩
            exact ⟨_, _, _, _, compares'⟩
        | true =>
            rcases compares.redo (short _ here) guarded written with
              ⟨after, after', more, more', compares'⟩
            exact ⟨_, _, _, _, compares'⟩
      · refine ⟨_, _, _, _, compares.pass (by simpa using guarded) fun isMarked => ?_⟩
        by_contra written
        exact guarded (passes _ here isMarked (by simpa using written))

end Compare

section Sessions

variable {wal : WalManager}

/-- The log and the pages of a session can be read. -/
structure Readable (wal : WalManager) : Prop where
  sane : Sane wal.pages
  records : ∀ record ∈ wal.log, record.Short ∧ record.Undoable

theorem Readable.append {record : LogRecord} (readable : Readable wal) (short : record.Short)
    (undoable : record.Undoable) : Readable (wal.append record) := by
  refine ⟨readable.sane, fun other inside => ?_⟩
  rcases List.mem_append.mp inside with inside | inside
  · exact readable.records other inside
  · obtain rfl := List.mem_singleton.mp inside
    cases record <;> exact ⟨short, undoable⟩

theorem Readable.logInsert (readable : Readable wal) (txnId pageId : UInt32) (data : Bytes) :
    Readable (WalManager.logInsert txnId pageId data wal).2 := by
  rcases readable.sane with ⟨copy, shadows⟩
  rcases logInsert_ends shadows txnId pageId data with
    ⟨-, small, page, represents, ends⟩ | ends | ends
  · rw [ends]
    have inserted : Readable { wal with pages := wal.pages.insert pageId page } :=
      ⟨⟨_, Executor.shadows_insert shadows represents⟩, readable.records⟩
    exact inserted.append small trivial
  · rwa [ends]
  · rw [ends]
    exact ⟨⟨_, Executor.shadows_insert shadows (Executor.represents_entry shadows pageId)⟩,
      readable.records⟩

theorem Readable.logDelete (readable : Readable wal) (txnId pageId : UInt32) (slotId : UInt16) :
    Readable (WalManager.logDelete txnId pageId slotId wal).2 := by
  rcases readable.sane with ⟨copy, shadows⟩
  rcases logDelete_ends shadows txnId pageId slotId with
    ends | ⟨page, abstract, -, represents, small, ends⟩
  · rw [ends]
    exact readable.append trivial (by simp [LogRecord.Undoable])
  · rw [ends]
    have deleted : Readable { wal with pages := wal.pages.insert pageId page } :=
      ⟨⟨_, Executor.shadows_insert shadows represents⟩, readable.records⟩
    exact deleted.append trivial small

theorem Readable.run (readable : Readable wal) (call : Call) : Readable (call.run wal).2 := by
  cases call with
  | beginTxn =>
      simp only [Call.run, WalManager.beginTxn, Fallible.bind_apply]
      by_cases room : wal.nextTxnId.toNat + 1 < 2 ^ 32
      · simp only [if_pos room]
        have begun : Readable { wal with
            nextTxnId := wal.nextTxnId + 1
            activeTxns := insert wal.nextTxnId wal.activeTxns } :=
          ⟨readable.sane, readable.records⟩
        exact begun.append trivial trivial
      · simp only [if_neg room]
        exact readable
  | logInsert txnId pageId data =>
      have inserted := readable.logInsert txnId pageId data
      rw [Call.run, Fallible.bind_apply]
      split <;> simp_all
  | logUpdate txnId pageId slotId oldData newData => exact readable.append trivial trivial
  | logDelete txnId pageId slotId =>
      have deleted := readable.logDelete txnId pageId slotId
      rw [Call.run, Fallible.bind_apply]
      split <;> simp_all
  | commit txnId =>
      have appended : Readable (wal.append (.commit 0 txnId)) := readable.append trivial trivial
      exact ⟨appended.sane, appended.records⟩
  | abort txnId =>
      have appended : Readable (wal.append (.abort 0 txnId)) := readable.append trivial trivial
      exact ⟨appended.sane, appended.records⟩

theorem Readable.runCalls (readable : Readable wal) (calls : List Call) :
    Readable (runCalls calls wal) := by
  induction calls generalizing wal with
  | nil => exact readable
  | cons call calls ih =>
      have step := readable.run call
      rw [WalManager.runCalls]
      split
      · next panic wal' equation => simpa [equation] using step
      · next result wal' _ equation =>
          rw [equation] at step
          exact ih step

/-- A log of records that can be read. -/
theorem readable_session {log : List LogRecord}
    (records : ∀ record ∈ log, record.Short ∧ record.Undoable) (calls : List Call) :
    Readable (session log calls) := by
  rcases replays_recovered (fun record inside => (records record inside).1)
    (fun record inside _ => (records record inside).2) with ⟨report, pages, run, -, shadows⟩
  rw [session, run]
  exact Readable.runCalls ⟨⟨_, shadows⟩, records⟩ calls

theorem readable_logAfter {log : List LogRecord}
    (records : ∀ record ∈ log, record.Short ∧ record.Undoable) (history : List (List Call)) :
    ∀ record ∈ logAfter log history, record.Short ∧ record.Undoable := by
  induction history generalizing log with
  | nil => exact records
  | cons calls history ih => exact ih (readable_session records calls).records

end Sessions

section Finished

/-- The records of a history, and which of them belong to transactions that their session
finished. -/
def marks (sessions : List (List LogRecord)) : List (LogRecord × Bool) :=
  sessions.flatMap fun records => records.map fun record =>
    (record, decide (IsFinished records record))

theorem map_fst_marks (sessions : List (List LogRecord)) :
    (marks sessions).map Prod.fst = sessions.flatten := by
  simp [marks, List.map_flatMap, Function.comp_def, List.flatMap_id']

theorem map_filter_marks (history : List (List Call)) :
    ((marks (sessionLogs [] history)).filter Prod.snd).map Prod.fst = finishedRecords history := by
  simp [marks, finishedRecords, List.filter_flatMap, List.map_flatMap, List.filter_map,
    Function.comp_def]

/-- A place in a list of lists. -/
theorem flatMap_eq_append_cons {α β : Type} {f : α → List β} {items : List α}
    {before after : List β} {value : β} :
    items.flatMap f = before ++ value :: after ↔ ∃ earlier item later front back,
      items = earlier ++ item :: later ∧ f item = front ++ value :: back ∧
      before = earlier.flatMap f ++ front ∧ after = back ++ later.flatMap f := by
  constructor
  · intro split
    induction items generalizing before with
    | nil => simp at split
    | cons item items ih =>
        rw [List.flatMap_cons, List.append_eq_append_iff] at split
        rcases split with ⟨rest, rfl, split⟩ | ⟨rest, here, split⟩
        · rcases ih split with ⟨earlier, other, later, front, back, rfl, same, rfl, rfl⟩
          exact ⟨item :: earlier, other, later, front, back, rfl, same, by simp, rfl⟩
        · cases rest with
          | nil =>
              rcases ih (show items.flatMap f = [] ++ value :: after from split.symm) with
                ⟨earlier, other, later, front, back, rfl, same, none, rfl⟩
              refine ⟨item :: earlier, other, later, front, back, rfl, same, ?_, rfl⟩
              rw [List.flatMap_cons, List.append_assoc, ← none, here, List.append_nil,
                List.append_nil]
          | cons first rest =>
              obtain ⟨rfl, rfl⟩ := List.cons.inj split
              exact ⟨[], item, items, before, rest, rfl, here, rfl, rfl⟩
  · rintro ⟨earlier, item, later, front, back, rfl, same, rfl, rfl⟩
    simp [same]

/-- The extra records of a history are where its sessions clash. -/
theorem extra_marks_iff (history : List (List Call)) :
    Extra (isRedone (committed (logAfter [] history))) (marks (sessionLogs [] history)) ↔
      Clashes history := by
  have fronts (earlier : List (List LogRecord)) (front left : List LogRecord) :
      (marks earlier ++ front.map fun record => (record, decide (IsFinished left record))).map
        Prod.fst = earlier.flatten ++ front := by
    rw [List.map_append, map_fst_marks]
    simp [Function.comp_def]
  constructor
  · rintro ⟨before, record, after, split, passes, acts⟩
    rcases flatMap_eq_append_cons.mp split with
      ⟨earlier, left, later, front, back, sessions, here, rfl, -⟩
    rcases List.map_eq_append_iff.mp here with ⟨front', rest, rfl, rfl, there⟩
    rcases List.map_eq_cons_iff.mp there with ⟨record', back', rfl, same, -⟩
    obtain ⟨rfl, mark⟩ := Prod.mk.inj same
    refine ⟨earlier, _, later, front', record', back', sessions, rfl,
      (isRedone_iff history record').mp passes, by simpa using mark, acts.mono fun pageId => ?_⟩
    rintro ⟨entry, inside, redone, creates⟩
    refine ⟨entry.1, ?_, (isRedone_iff history entry.1).mp redone, creates⟩
    exact fronts earlier front' _ ▸ List.mem_map_of_mem inside
  · rintro ⟨earlier, left, later, before, record, after, sessions, rfl, passes, unfinished, acts⟩
    let marking (other : LogRecord) : LogRecord × Bool :=
      (other, decide (IsFinished (before ++ record :: after) other))
    refine ⟨_, record, _, flatMap_eq_append_cons.mpr ⟨earlier, _, later, before.map marking,
      after.map marking, sessions, ?_, rfl, rfl⟩, (isRedone_iff history record).mpr passes,
      acts.mono fun pageId => ?_⟩
    · simp [marking, unfinished]
    · rintro ⟨other, inside, isCommitted, creates⟩
      rw [← fronts earlier before (before ++ record :: after)] at inside
      rcases List.mem_map.mp inside with ⟨entry, here, rfl⟩
      exact ⟨entry, here, (isRedone_iff history entry.1).mpr isCommitted, creates⟩

/-- What the next recovery does, next to REDO of the finished records. -/
theorem compares_history (history : List (List Call)) :
    ∃ pages pages' count count', Compares (isRedone (committed (logAfter [] history)))
      (marks (sessionLogs [] history)) pages pages' count count' := by
  have records : ∀ record ∈ logAfter [] history, record.Short ∧ record.Undoable :=
    readable_logAfter (by simp) history
  have file : (marks (sessionLogs [] history)).map Prod.fst = logAfter [] history := by
    rw [map_fst_marks, logAfter_eq, List.nil_append]
  refine compares_marked _ (fun entry inside => ?_) (fun entry _ passes => ?_)
    fun entry inside isMarked _ => ?_
  · exact (records entry.1 (file ▸ List.mem_map_of_mem inside)).1
  · exact ((isRedone_iff history entry.1).mp passes).1
  · rw [isRedone_iff]
    rcases List.mem_flatMap.mp inside with ⟨left, isLeft, here⟩
    rcases List.mem_map.mp here with ⟨record, -, rfl⟩
    have finished : IsFinished left record := by simpa using isMarked
    exact finished.isCommitted isLeft

/-- The next recovery returns, and it is REDO of all committed records and then UNDO. -/
theorem recover_logAfter {history : List (List Call)} {pages pages' : WalPages} {count count' : ℕ}
    (compares : Compares (isRedone (committed (logAfter [] history)))
      (marks (sessionLogs [] history)) pages pages' count count') :
    ∃ report wal, recover (new (logAfter [] history)) = (.ok report, wal) ∧
      report.redone = count ∧
      replay (Heap.isUndone (logAfter [] history)) undoRecord (logAfter [] history).reverse pages =
        .ok (wal.pages, report.undone) := by
  have records : ∀ record ∈ logAfter [] history, record.Short ∧ record.Undoable :=
    readable_logAfter (by simp) history
  have redo := compares.all
  rw [map_fst_marks] at redo
  rcases compares.sane with ⟨heap, shadows⟩
  rcases replay_refines (Heap.isUndone (logAfter [] history)) undoRecord Heap.undo
    (fun record inside _ _ _ shadows =>
      undoRecord_refines shadows (records record (List.mem_reverse.mp inside)).2) shadows with
    ⟨undonePages, undone, undo, -⟩
  have file : logAfter [] history = (sessionLogs [] history).flatten := by simp [logAfter_eq]
  have redo : replay (isRedone (committed (new (logAfter [] history)).log)) redoRecord
      (new (logAfter [] history)).log ∅ = .ok (pages, count) := by
    rw [← redo, ← file]
    rfl
  exact ⟨_, _, recover_of_loops redo undo, rfl, undo⟩

theorem not_redoesOnlyFinished {history : List (List Call)} (clashes : Clashes history) :
    ¬RedoesOnlyFinished history := by
  rintro ⟨report, wal, redonePages, run, redo, -⟩
  rcases compares_history history with ⟨pages, pages', count, count', compares⟩
  rcases recover_logAfter compares with ⟨report', wal', run', counted, -⟩
  obtain rfl : report' = report := Except.ok.inj (Prod.mk.inj (run'.symm.trans run)).1
  have alone := compares.alone
  rw [map_filter_marks, redo] at alone
  have fewer := compares.lt ((extra_marks_iff history).mpr clashes)
  have same : report'.redone = count' := (Prod.mk.inj (Except.ok.inj alone)).2
  omega

theorem redoesOnlyFinished {history : List (List Call)} (apart : ¬Clashes history) :
    RedoesOnlyFinished history := by
  rcases compares_history history with ⟨pages, pages', count, count', compares⟩
  rcases recover_logAfter compares with ⟨report, wal, run, rfl, undo⟩
  rcases compares.same fun extra => apart ((extra_marks_iff history).mp extra) with ⟨rfl, rfl⟩
  refine ⟨report, wal, pages', run, ?_, undo⟩
  rw [← map_filter_marks]
  exact compares.alone

/-- Recovery redoes finished work alone exactly when no two sessions clash. -/
theorem redoesOnlyFinished_iff (history : List (List Call)) :
    RedoesOnlyFinished history ↔ ¬Clashes history :=
  ⟨fun redoes clashes => not_redoesOnlyFinished clashes redoes, redoesOnlyFinished⟩

/-- A session crashes after its insert; the next one commits its own first transaction. -/
def crashedThenCommitted : List (List Call) :=
  [[.beginTxn, .logInsert 1 0 [7]], [.beginTxn, .commit 1]]

theorem sessionLogs_crashedThenCommitted : sessionLogs [] crashedThenCommitted =
    [[.begin 0 1, .insert 1 1 0 0 [7]], [.begin 0 1, .commit 1 1]] := by
  decide +kernel

/-- The insert of the crashed transaction is redone, and there is no finished one. -/
theorem redoes_unfinished : ¬RedoesOnlyFinished crashedThenCommitted ∧
    finishedRecords crashedThenCommitted = [] ∧
    ((recover (new (logAfter [] crashedThenCommitted))).1.toOption.map RecoveryReport.redone) =
      some 1 := by
  have logs := sessionLogs_crashedThenCommitted
  refine ⟨not_redoesOnlyFinished ⟨[], _, _, [.begin 0 1], .insert 1 1 0 0 [7], [], logs, rfl, ?_,
    ?_, trivial⟩, ?_, ?_⟩
  · exact ⟨rfl, 1, rfl, [.begin 0 1, .commit 1 1], by simp [logs], 1, by simp⟩
  · decide
  · decide +kernel
  · decide +kernel

end Finished

end WalManager

end VenomDb
